import Ossim.Paging.Regions

/-!
# Growth of one area among others

`inc_vma_limit` of `src/mm-vm.c` for a process with any number of areas.  It asks
`validate_overlap_vm_area` whether the bytes behind the break meet another area, and takes a
negative answer for a conflict.  The checker answers 1, so the growth goes on.

`growsApart_iff` says when the areas stay apart and a conflict is refused: there is no conflict to
refuse, and what the growth adds behind the end of the area meets no other one either, or the
frames do not suffice.  For an area whose break is its end the second condition follows from the
first (`growsApart_iff_of_sbrk`).
-/

namespace Ossim

/-- The addresses of an area. -/
def VmArea.span (v : VmArea) : Span ℕ := ⟨v.vmStart, v.vmEnd⟩

/-- The area with its end and its break moved. -/
def VmArea.moved (v : VmArea) (incSz : ℤ) : VmArea :=
  { v with vmEnd := ulong (v.vmEnd + incSz), sbrk := ulong (v.sbrk + incSz) }

/-- No two areas have an address in common. -/
def AreasApart (areas : List VmArea) : Prop :=
  areas.Pairwise fun v w => v.span.Disjoint w.span

/-- Two intervals are disjoint in either order. -/
lemma Span.disjoint_comm {α : Type*} [LinearOrder α] {s t : Span α} :
    s.Disjoint t ↔ t.Disjoint s :=
  ⟨fun h a ht hs => h a hs ht, fun h a ht hs => h a hs ht⟩

/-- Changing one entry of a list whose entries are related in pairs. -/
lemma pairwise_set_iff {α : Type*} {R : α → α → Prop} (hsymm : ∀ x y, R x y → R y x)
    {l : List α} (hl : l.Pairwise R) {i : ℕ} (hi : i < l.length) (x : α) :
    (l.set i x).Pairwise R ↔ ∀ j y, j ≠ i → l[j]? = some y → R x y := by
  rw [List.pairwise_iff_getElem] at hl ⊢
  constructor
  · intro h j y hne hy
    obtain ⟨hj, rfl⟩ := List.getElem?_eq_some_iff.mp hy
    rcases Nat.lt_or_gt_of_ne hne with hlt | hgt
    · have hrel := h j i (by simpa using hj) (by simpa using hi) hlt
      rw [List.getElem_set_self, List.getElem_set_of_ne hne.symm] at hrel
      exact hsymm _ _ hrel
    · have hrel := h i j (by simpa using hi) (by simpa using hj) hgt
      rwa [List.getElem_set_self, List.getElem_set_of_ne hne.symm] at hrel
  · intro h j k hj hk hlt
    have hjl : j < l.length := by simpa using hj
    have hkl : k < l.length := by simpa using hk
    by_cases hji : j = i
    · subst hji
      rw [List.getElem_set_self, List.getElem_set_of_ne (by omega)]
      exact h k _ (by omega) (List.getElem?_eq_getElem hkl)
    · rw [List.getElem_set_of_ne (Ne.symm hji)]
      by_cases hki : k = i
      · subst hki
        rw [List.getElem_set_self]
        exact hsymm _ _ (h j _ hji (List.getElem?_eq_getElem hjl))
      · rw [List.getElem_set_of_ne (Ne.symm hki)]
        exact hl j k hjl hkl hlt

/-! ## The area that grows -/

namespace Mm

lemma getVmaLoop_lt {vmaid : ℤ} {l : List VmArea} {i cur : ℕ}
    (h : getVmaLoop vmaid i l = some cur) : cur < i + l.length := by
  induction l generalizing i with
  | nil => simp [getVmaLoop] at h
  | cons v l ih =>
    unfold getVmaLoop at h
    rw [List.length_cons]
    split at h
    · have hlt := ih h
      omega
    · obtain rfl := Option.some.inj h
      omega

/-- The selected area is one of the list. -/
lemma getVmaByNum_lt {mm : Mm} {vmaid : ℤ} {cur : ℕ} (h : mm.getVmaByNum vmaid = some cur) :
    cur < mm.mmap.length := by
  unfold getVmaByNum at h
  split at h
  · exact absurd h (by simp)
  · next v rest heq =>
    rw [heq, List.length_cons]
    split at h
    · have hlt := getVmaLoop_lt h
      omega
    · obtain rfl := Option.some.inj h
      omega

end Mm

namespace Caller

variable {c : Caller} {vmaid incSz : ℤ} {cur : ℕ}

lemma mmap_growArea (hcur : c.mm.getVmaByNum vmaid = some cur) :
    (c.growArea vmaid incSz).mm.mmap =
      c.mm.mmap.set cur ((c.mm.mmap.getD cur default).moved incSz) := by
  simp only [growArea, Mm.setCurVma, Mm.curVma, hcur, VmArea.moved]

/-- The checker has no negative answer for an area of the list, so the growth goes on. -/
lemma incVmaLimit_outcome (incSz : ℤ) (hcur : c.mm.getVmaByNum vmaid = some cur) :
    (c.incVmaLimit vmaid incSz).2.mm.mmap =
      c.mm.mmap.set cur ((c.mm.mmap.getD cur default).moved incSz) ∧
    ((grownPages incSz ≤ c.supply ∧ (c.incVmaLimit vmaid incSz).1 = 0) ∨
      (c.supply < grownPages incSz ∧ (c.incVmaLimit vmaid incSz).1 = -1)) := by
  have hvalid : ∀ lo hi, ¬ c.validateOverlapVmArea vmaid lo hi < 0 := by
    intro lo hi
    unfold validateOverlapVmArea
    rw [hcur]
    dsimp only
    split <;> decide
  have hsupply : (c.growArea vmaid incSz).supply = c.supply := by
    simp only [growArea, Mm.setCurVma, hcur, supply]
  unfold incVmaLimit
  dsimp only
  rw [if_neg (hvalid _ _)]
  have hmmap := (remaps_vmMapRam (c.growArea vmaid incSz)
    (cint (c.getVmAreaNodeAtBrk vmaid incSz (pagingPageAlignsz incSz)).rgStart)
    (cint (c.getVmAreaNodeAtBrk vmaid incSz (pagingPageAlignsz incSz)).rgEnd)
    (cint (c.mm.curVma vmaid).vmEnd) ((pagingPageAlignsz incSz).tdiv pagingPagesz)).mmap
  have hstatus := vmMapRam_status (c.growArea vmaid incSz)
    (cint (c.getVmAreaNodeAtBrk vmaid incSz (pagingPageAlignsz incSz)).rgStart)
    (cint (c.getVmAreaNodeAtBrk vmaid incSz (pagingPageAlignsz incSz)).rgEnd)
    (cint (c.mm.curVma vmaid).vmEnd) ((pagingPageAlignsz incSz).tdiv pagingPagesz)
  rw [mmap_growArea hcur] at hmmap
  rw [hsupply] at hstatus
  generalize vmMapRam _ _ _ _ _ = mapped at hmmap hstatus ⊢
  obtain ⟨ret, c'⟩ := mapped
  dsimp only at hmmap hstatus ⊢
  rcases hstatus with ⟨hle, rfl⟩ | ⟨hlt, rfl⟩
  · exact ⟨hmmap, .inl ⟨hle, rfl⟩⟩
  · exact ⟨hmmap, .inr ⟨hlt, rfl⟩⟩

/-! ## When the areas stay apart -/

/-- The bytes behind the break of the area, which a growth by `incSz` asks for, meet another
area. -/
def Meets (c : Caller) (cur : ℕ) (incSz : ℤ) : Prop :=
  ∃ j w, j ≠ cur ∧ c.mm.mmap[j]? = some w ∧
    ¬ Span.Disjoint ⟨(c.mm.mmap.getD cur default).sbrk,
      (c.mm.mmap.getD cur default).sbrk + incSz.toNat⟩ w.span

/-- A growth that succeeds leaves the areas apart, and one that meets another area is refused with
the bounds as they were. -/
structure GrowsApart (c : Caller) (vmaid : ℤ) (cur : ℕ) (incSz : ℤ) : Prop where
  /-- The areas afterwards. -/
  apart : (c.incVmaLimit vmaid incSz).1 = 0 → AreasApart (c.incVmaLimit vmaid incSz).2.mm.mmap
  /-- A conflict. -/
  refused : c.Meets cur incSz → (c.incVmaLimit vmaid incSz).1 = -1 ∧
    ((c.incVmaLimit vmaid incSz).2.mm.mmap.getD cur default).vmEnd =
      (c.mm.mmap.getD cur default).vmEnd ∧
    ((c.incVmaLimit vmaid incSz).2.mm.mmap.getD cur default).sbrk =
      (c.mm.mmap.getD cur default).sbrk

/-- A growth by some bytes moves the end of the area. -/
lemma vmEnd_moved_ne (v : VmArea) (hlo : 0 < incSz) (hhi : incSz < 2 ^ 31) :
    (v.moved incSz).vmEnd ≠ v.vmEnd := by
  have hul : (ulong (v.vmEnd + incSz) : ℤ) = (v.vmEnd + incSz) % 2 ^ 64 := by
    unfold ulong
    omega
  unfold VmArea.moved
  dsimp only
  omega

/-- The areas of a process that are apart stay so, and conflicts are refused, if and only if the
growth meets no other area, and the area with its end moved meets no other one unless the frames
do not suffice. -/
theorem growsApart_iff (hcur : c.mm.getVmaByNum vmaid = some cur)
    (hapart : AreasApart c.mm.mmap) (hlo : 0 ≤ incSz) (hhi : incSz < 2 ^ 31) :
    c.GrowsApart vmaid cur incSz ↔ ¬ c.Meets cur incSz ∧
      (grownPages incSz ≤ c.supply → ∀ j w, j ≠ cur → c.mm.mmap[j]? = some w →
        Span.Disjoint ⟨(c.mm.mmap.getD cur default).vmStart,
          ulong ((c.mm.mmap.getD cur default).vmEnd + incSz)⟩ w.span) := by
  have hlt := Mm.getVmaByNum_lt hcur
  obtain ⟨hmmap, hstatus⟩ := incVmaLimit_outcome incSz hcur
  have hset := pairwise_set_iff (fun v w => Span.disjoint_comm.mp) hapart hlt
    ((c.mm.mmap.getD cur default).moved incSz)
  constructor
  · rintro ⟨hafter, hrefused⟩
    refine ⟨fun hmeets => ?_, fun hle => ?_⟩
    · obtain ⟨-, hend, -⟩ := hrefused hmeets
      obtain ⟨j, w, -, -, hnot⟩ := hmeets
      have hpos : 0 < incSz := by
        -- bytes that meet an area are at least one
        by_contra hneg
        refine hnot fun a ha => ?_
        have hzero : incSz.toNat = 0 := by omega
        simp only [Span.Contains, hzero] at ha
        omega
      rw [hmmap, List.getD_eq_getElem _ _ (by simpa using hlt), List.getElem_set_self] at hend
      exact vmEnd_moved_ne _ hpos hhi hend
    · have hzero : (c.incVmaLimit vmaid incSz).1 = 0 := by
        rcases hstatus with ⟨-, hzero⟩ | ⟨hgt, -⟩
        · exact hzero
        · omega
      have hpair := hafter hzero
      rw [hmmap] at hpair
      exact hset.mp hpair
  · rintro ⟨hmeets, hgrown⟩
    refine ⟨fun hzero => ?_, fun h => absurd h hmeets⟩
    rcases hstatus with ⟨hle, -⟩ | ⟨-, hneg⟩
    · rw [hmmap]
      exact hset.mpr (hgrown hle)
    · rw [hneg] at hzero
      exact absurd hzero (by decide)

/-- For an area whose break is its end, which growth keeps so, the areas stay apart and conflicts
are refused if and only if there is no conflict. -/
theorem growsApart_iff_of_sbrk (hcur : c.mm.getVmaByNum vmaid = some cur)
    (hapart : AreasApart c.mm.mmap) (hlo : 0 ≤ incSz) (hhi : incSz < 2 ^ 31)
    (hsbrk : (c.mm.mmap.getD cur default).sbrk = (c.mm.mmap.getD cur default).vmEnd)
    (hend : (c.mm.mmap.getD cur default).vmEnd < 2 ^ 63) :
    c.GrowsApart vmaid cur incSz ↔ ¬ c.Meets cur incSz := by
  rw [growsApart_iff hcur hapart hlo hhi]
  refine and_iff_left_of_imp fun hmeets _ j w hne hw a ha hin => ?_
  have hul : ulong ((c.mm.mmap.getD cur default).vmEnd + incSz) =
      (c.mm.mmap.getD cur default).vmEnd + incSz.toNat := by
    unfold ulong
    omega
  rw [hul] at ha
  rcases Nat.lt_or_ge a (c.mm.mmap.getD cur default).vmEnd with hlt | hge
  · -- the address was in the area before
    have hltcur := Mm.getVmaByNum_lt hcur
    have hself := (pairwise_set_iff (fun v w => Span.disjoint_comm.mp) hapart hltcur
      c.mm.mmap[cur]).mp (by rwa [List.set_getElem_self])
    rw [← List.getD_eq_getElem _ default hltcur] at hself
    exact hself j w hne hw a ⟨ha.1, hlt⟩ hin
  · refine hmeets ⟨j, w, hne, hw, fun hdisj => ?_⟩
    exact hdisj a ⟨by rw [hsbrk]; exact hge, by rw [hsbrk]; exact ha.2⟩ hin

/-- A process with the areas `0 .. 255` and `256 .. 511`, on a RAM of two frames. -/
def twoAreas : Caller :=
  { (MemSys.fresh Unit 512 0).caller () with
    mm := { ((MemSys.fresh Unit 512 0).caller ()).mm with
      mmap := [⟨0, 0, 256, 256, []⟩, ⟨1, 256, 512, 512, []⟩] } }

lemma areasApart_twoAreas : AreasApart twoAreas.mm.mmap := by
  refine List.pairwise_pair.mpr fun a ha hin => ?_
  simp only [VmArea.span, Span.Contains] at ha hin
  omega

/-- The second of two areas grows by a page. -/
theorem growsApart_second : twoAreas.GrowsApart 1 1 256 := by
  have harea : twoAreas.mm.getVmaByNum 1 = some 1 := by decide
  have hpos : (0 : ℤ) ≤ 256 := by decide
  have hiff := growsApart_iff harea areasApart_twoAreas hpos (by decide)
  have hfirst : ∀ j w, j ≠ 1 → twoAreas.mm.mmap[j]? = some w → w = ⟨0, 0, 256, 256, []⟩ := by
    intro j w hne hw
    match j with
    | 0 => exact (Option.some.inj hw).symm
    | 1 => exact absurd rfl hne
    | j + 2 => exact absurd hw (by simp [twoAreas])
  refine hiff.mpr ⟨?_, fun _ j w hne hw a ha hin => ?_⟩
  · rintro ⟨j, w, hne, hw, hmeet⟩
    refine hmeet fun a ha hin => ?_
    rw [hfirst j w hne hw] at hin
    simp only [twoAreas, VmArea.span, Span.Contains, List.getD_cons_succ,
      List.getD_cons_zero] at ha hin
    omega
  · rw [hfirst j w hne hw] at hin
    simp only [twoAreas, VmArea.span, Span.Contains, List.getD_cons_succ,
      List.getD_cons_zero] at ha hin
    omega

/-- The first of two areas grows by a page into the second one. -/
theorem not_growsApart_first : ¬ ∀ (c : Caller) (vmaid incSz : ℤ) (cur : ℕ),
    c.mm.getVmaByNum vmaid = some cur → AreasApart c.mm.mmap → 0 ≤ incSz → incSz < 2 ^ 31 →
    c.GrowsApart vmaid cur incSz := by
  intro h
  have hgrows := h twoAreas 0 256 0 (by decide) areasApart_twoAreas (by decide) (by decide)
  have hmeets : twoAreas.Meets 0 256 := by
    refine ⟨1, ⟨1, 256, 512, 512, []⟩, by decide, rfl, fun hdisj => ?_⟩
    exact hdisj 256 (by decide) (by decide)
  have hstatus : (twoAreas.incVmaLimit 0 256).1 = 0 := by decide
  exact absurd ((hgrows.refused hmeets).1.symm.trans hstatus) (by decide)

end Caller

end Ossim
