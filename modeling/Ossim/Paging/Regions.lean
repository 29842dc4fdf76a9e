import Ossim.Lib.Tiling
import Ossim.Paging.Requests

/-!
# Regions and the free list

What `__alloc` and `__free` do to the region table and to the free list of a process with a single
area, as equations.  `firstFit_eq_some` says what a search of the free list cuts out: the list and
the new region together cover what the list covered before.  When no free region fits, the area
grows at its end (`alloc_of_not_fits`): the new region begins at the old end, and what the last
page has left becomes free.

The two lemmas ask for sizes with which no addition overflows; later modules see to that.
-/

namespace Ossim

/-- The addresses of a region. -/
def VmRg.span (rg : VmRg) : Span ℕ := ⟨rg.rgStart, rg.rgEnd⟩

/-- The region ends at or below `vmEnd`, and adding a size to its start does not overflow. -/
def VmRg.Below (rg : VmRg) (vmEnd : ℕ) : Prop := rg.rgStart < 2 ^ 63 ∧ rg.rgEnd ≤ vmEnd

lemma VmRg.Below.mono {rg : VmRg} {vmEnd vmEnd' : ℕ} (h : rg.Below vmEnd) (hle : vmEnd ≤ vmEnd') :
    rg.Below vmEnd' :=
  ⟨h.1, h.2.trans hle⟩

/-- What is left of a region that ends at `vmEnd` at the latest does so too. -/
lemma VmRg.Below.of_rest {rg rg' : VmRg} {vmEnd : ℕ} (h : rg.Below vmEnd) (hvmEnd : vmEnd < 2 ^ 63)
    (hend : rg'.rgEnd = rg.rgEnd) (hstart : rg'.rgStart ≤ max rg.rgStart rg.rgEnd) :
    rg'.Below vmEnd :=
  ⟨hstart.trans_lt (max_lt h.1 (h.2.trans_lt hvmEnd)), hend ▸ h.2⟩

/-! ## Searching the free list -/

/-- What a search cuts out: the first bytes of a region of the list.  It leaves the rest of the list
behind, and no region with another end. -/
lemma firstFit_eq_some {size : ℤ} (hlo : 0 ≤ size) (hhi : size < 2 ^ 31) {l list : List VmRg}
    {newrg : VmRg} (hstart : ∀ rg ∈ l, rg.rgStart < 2 ^ 63)
    (h : firstFit size l = some (newrg, list)) :
    (∃ rg ∈ l, newrg = ⟨rg.rgStart, rg.rgStart + size.toNat⟩ ∧
      rg.rgStart + size.toNat ≤ rg.rgEnd) ∧
    Span.cover (newrg.span :: list.map VmRg.span) = Span.cover (l.map VmRg.span) ∧
    ∀ rg' ∈ list, ∃ rg ∈ l, rg'.rgEnd = rg.rgEnd ∧ rg'.rgStart ≤ max rg.rgStart rg.rgEnd := by
  induction l generalizing newrg list with
  | nil => simp [firstFit] at h
  | cons rgit rgNext ih =>
    have hcut : ulong (rgit.rgStart + size) = rgit.rgStart + size.toNat := by
      have hrgit := hstart rgit List.mem_cons_self
      unfold ulong
      omega
    have hkeep : ∀ rg' ∈ rgNext, ∃ rg ∈ rgit :: rgNext,
        rg'.rgEnd = rg.rgEnd ∧ rg'.rgStart ≤ max rg.rgStart rg.rgEnd :=
      fun rg' h' => ⟨rg', List.mem_cons_of_mem _ h', rfl, le_max_left _ _⟩
    unfold firstFit at h
    simp only [hcut] at h
    split at h
    · next hfits =>
      have hnew : ∃ rg ∈ rgit :: rgNext,
          (⟨rgit.rgStart, rgit.rgStart + size.toNat⟩ : VmRg) =
            ⟨rg.rgStart, rg.rgStart + size.toNat⟩ ∧ rg.rgStart + size.toNat ≤ rg.rgEnd :=
        ⟨rgit, List.mem_cons_self, rfl, hfits⟩
      have hmid : rgit.rgStart ≤ rgit.rgStart + size.toNat := Nat.le_add_right _ _
      have hsplit := Span.cover_split hmid hfits (rgNext.map VmRg.span)
      split at h
      · -- the rest of the region stays in the list
        next hlt =>
        obtain ⟨rfl, rfl⟩ := Prod.mk.inj (Option.some.inj h)
        refine ⟨hnew, hsplit, fun rg' h' => ?_⟩
        rcases List.mem_cons.mp h' with rfl | h'
        · exact ⟨rgit, List.mem_cons_self, rfl, hlt.le.trans (le_max_right _ _)⟩
        · exact hkeep rg' h'
      · -- the region is used up, so what stays of it is empty
        next hge =>
        have hend : rgit.rgStart + size.toNat = rgit.rgEnd := by omega
        have hused := Span.cover_of_empty (s := ⟨rgit.rgEnd, rgit.rgEnd⟩) le_rfl
        split at h
        · next nextrg rest =>
          obtain ⟨rfl, rfl⟩ := Prod.mk.inj (Option.some.inj h)
          exact ⟨hnew, by rw [hend]; rfl, hkeep⟩
        · obtain ⟨rfl, rfl⟩ := Prod.mk.inj (Option.some.inj h)
          refine ⟨hnew, ?_, fun rg' h' => ?_⟩
          · rw [hend] at hsplit ⊢
            exact hsplit
          · obtain rfl := List.mem_singleton.mp h'
            exact ⟨rgit, List.mem_cons_self, rfl, le_max_right _ _⟩
    · obtain ⟨⟨rg, tail⟩, htail, heq⟩ := Option.map_eq_some_iff.mp h
      obtain ⟨rfl, rfl⟩ := Prod.mk.inj heq
      obtain ⟨⟨found, hmem, hnew, hfits⟩, hcover, hrest⟩ :=
        ih (fun rg h' => hstart rg (List.mem_cons_of_mem _ h')) htail
      refine ⟨⟨found, List.mem_cons_of_mem _ hmem, hnew, hfits⟩, ?_, fun rg' h' => ?_⟩
      · rw [List.map_cons, Span.cover_perm (List.Perm.swap _ _ _)]
        exact Span.cover_append_right [rgit.span] hcover
      · rcases List.mem_cons.mp h' with rfl | h'
        · exact ⟨rg', List.mem_cons_self, rfl, le_max_left _ _⟩
        · obtain ⟨rg₀, hmem₀, hrg₀⟩ := hrest rg' h'
          exact ⟨rg₀, List.mem_cons_of_mem _ hmem₀, hrg₀⟩

/-- A search cuts at the start of the first region with room for the size. -/
lemma firstFit_rgStart (size : ℤ) (l : List VmRg) :
    (firstFit size l).map (fun found => found.1.rgStart) =
      (l.find? fun rg => ulong (rg.rgStart + size) ≤ rg.rgEnd).map VmRg.rgStart := by
  induction l with
  | nil => rfl
  | cons rgit rgNext ih =>
    unfold firstFit
    rw [List.find?_cons]
    by_cases hcut : ulong (rgit.rgStart + size) ≤ rgit.rgEnd
    · simp only [hcut, decide_true, if_true]
      split
      · rfl
      · split <;> rfl
    · simp only [hcut, decide_false, if_false]
      rw [← ih, Option.map_map]
      rfl

/-! ## Allocating -/

namespace Caller

/-- Where a region of `size` bytes begins: at the start of the first free region with room for it,
or else at the break.  The start `ULONG_MAX` passes for no region. -/
def regionStart (c : Caller) (size : ℤ) : ℤ :=
  let curVma := c.mm.curVma 0
  match curVma.vmFreergList.find? fun rg => ulong (rg.rgStart + size) ≤ rg.rgEnd with
  | some rg => if rg.rgStart = ulong (-1) then cint curVma.sbrk else cint rg.rgStart
  | none => cint curVma.sbrk

/-- The address that `__alloc` delivers. -/
lemma alloc_address {c : Caller} {v : VmArea} (hv : c.mm.mmap = [v]) (rgid size : ℤ) :
    (c.alloc 0 rgid size).2.1 = c.regionStart size := by
  have hstart := firstFit_rgStart size v.vmFreergList
  unfold alloc regionStart getFreeVmrgArea
  simp only [curVma_single hv, setCurVma_single hv]
  cases hfit : firstFit size v.vmFreergList with
  | none =>
    rw [hfit] at hstart
    rw [Option.map_eq_none_iff.mp hstart.symm]
    unfold allocAtBrk
    dsimp only
    rw [curVma_single hv]
  | some found =>
    rw [hfit] at hstart
    obtain ⟨rg, hfind, hrg⟩ := Option.map_eq_some_iff.mp hstart.symm
    rw [hfind]
    dsimp only
    rw [hrg]
    by_cases htop : found.1.rgStart = ulong (-1)
    · rw [if_pos htop, if_pos htop]
      unfold allocAtBrk
      dsimp only
      rw [curVma_single rfl]
    · rw [if_neg htop, if_neg htop]

/-- A region that fits is cut out of the free list, and nothing else changes. -/
lemma alloc_of_fits {c : Caller} {v : VmArea} (hv : c.mm.mmap = [v]) {size : ℤ} {newrg : VmRg}
    {list : List VmRg} (hfit : firstFit size v.vmFreergList = some (newrg, list))
    (hstart : newrg.rgStart < 2 ^ 63) (rgid : ℤ) :
    (c.alloc 0 rgid size).2.2 =
      { c with
        mm := { c.mm with
          mmap := [{ v with vmFreergList := list }]
          symrgtbl := Function.update c.mm.symrgtbl rgid newrg } } := by
  have hfound : newrg.rgStart ≠ ulong (-1) := by
    rw [show ulong (-1) = 2 ^ 64 - 1 by rfl]
    omega
  unfold alloc getFreeVmrgArea
  simp only [curVma_single hv, setCurVma_single hv, hfit, hfound, if_false, Mm.setSymrg]

/-- The region that is cut out at the old break. -/
lemma carveAtBrk_region {c : Caller} {v : VmArea} (hv : c.mm.mmap = [v])
    (rgid size oldSbrk : ℤ) :
    (∃ list, (c.carveAtBrk 0 rgid size oldSbrk).mm.mmap = [{ v with vmFreergList := list }]) ∧
    (c.carveAtBrk 0 rgid size oldSbrk).mm.symrgtbl rgid =
      ⟨ulong oldSbrk, ulong (cint (oldSbrk + size))⟩ := by
  have hmmap : ∀ rg, (c.mm.setSymrg rgid rg).mmap = [v] := fun _ => hv
  have hsym : ∀ rg, (c.mm.setSymrg rgid rg).symrgtbl rgid = rg := by simp [Mm.setSymrg]
  unfold carveAtBrk
  dsimp only
  split
  · obtain ⟨list, hlist⟩ := enlistVmFreergList_single (hmmap _) _
    rw [hlist]
    exact ⟨⟨list, rfl⟩, hsym _⟩
  · exact ⟨⟨v.vmFreergList, hmmap _⟩, hsym _⟩

/-- When no region fits, the end of the area moves by the aligned size and the region begins at the
old break, as far as these numbers are what they should be. -/
lemma alloc_at_brk {c : Caller} {v : VmArea} (hv : c.mm.mmap = [v]) {size : ℤ}
    (hfit : firstFit size v.vmFreergList = none) (rgid : ℤ) :
    (∃ list, (c.alloc 0 rgid size).2.2.mm.mmap =
      [{ v with
        vmEnd := ulong (v.vmEnd + pagingPageAlignsz size)
        sbrk := ulong (v.sbrk + pagingPageAlignsz size)
        vmFreergList := list }]) ∧
    (c.alloc 0 rgid size).2.2.mm.symrgtbl rgid =
      ⟨ulong (cint v.sbrk), ulong (cint (cint v.sbrk + size))⟩ := by
  have hgrown := (incVmaLimit_single hv (pagingPageAlignsz size)).mmap
  have hcarve := carveAtBrk_region hgrown rgid size (cint v.sbrk)
  have hcaller : (c.alloc 0 rgid size).2.2 =
      (c.incVmaLimit 0 (pagingPageAlignsz size)).2.carveAtBrk 0 rgid size (cint v.sbrk) := by
    unfold alloc getFreeVmrgArea
    simp only [curVma_single hv, hfit]
    unfold allocAtBrk
    rw [curVma_single hv]
  rw [hcaller]
  exact hcarve

/-- The area after a growth by `incSz` bytes, of which the first `size` go to a region. -/
def grownArea (v : VmArea) (size incSz : ℕ) : VmArea :=
  { v with
    vmEnd := v.vmEnd + incSz
    sbrk := v.vmEnd + incSz
    vmFreergList :=
      if size < incSz then ⟨v.vmEnd + size, v.vmEnd + incSz⟩ :: v.vmFreergList
      else v.vmFreergList }

/-- What the first `size` bytes of a growth leave of it is free. -/
lemma cover_grownArea (v : VmArea) {size incSz : ℕ} (hle : size ≤ incSz) :
    Span.cover (⟨v.vmEnd, v.vmEnd + size⟩ ::
        (grownArea v size incSz).vmFreergList.map VmRg.span) =
      Span.cover (⟨v.vmEnd, v.vmEnd + incSz⟩ :: v.vmFreergList.map VmRg.span) := by
  unfold grownArea
  dsimp only
  split
  · exact Span.cover_split (Nat.le_add_right _ _) (Nat.add_le_add_left hle _) _
  · obtain rfl : incSz = size := by omega
    rfl

/-- The free regions after a growth end below a bound of the old ones and of the new area. -/
lemma below_grownArea {v : VmArea} {bound size incSz : ℕ}
    (hfree : ∀ rg ∈ v.vmFreergList, rg.Below bound) (hend : v.vmEnd + incSz ≤ bound)
    (hsmall : v.vmEnd + incSz < 2 ^ 63) {rg : VmRg}
    (hrg : rg ∈ (grownArea v size incSz).vmFreergList) : rg.Below bound := by
  unfold grownArea at hrg
  dsimp only at hrg
  split at hrg
  · rcases List.mem_cons.mp hrg with rfl | hrg
    · have hstart : v.vmEnd + size < 2 ^ 63 := by omega
      exact ⟨hstart, hend⟩
    · exact hfree rg hrg
  · exact hfree rg hrg

/-- Aligning a size that fits rounds it up to whole pages. -/
lemma pagingPageAlignsz_of_nonneg {size : ℤ} (hlo : 0 ≤ size) (hhi : size < 2 ^ 31 - 255) :
    pagingPageAlignsz size = (size + 255) / 256 * 256 := by
  rcases hlo.eq_or_lt with rfl | hlo
  · decide
  · exact pagingPageAlignsz_of_mem hlo hhi

/-- When no region fits, the area grows; the region begins at its old end, and the rest of its last
page becomes free. -/
lemma alloc_of_not_fits {c : Caller} {v : VmArea} (hv : c.mm.mmap = [v]) (hsbrk : v.sbrk = v.vmEnd)
    {size : ℤ} (hlo : 0 ≤ size) (hhi : size < 2 ^ 31 - 255) {incSz : ℕ}
    (hinc : pagingPageAlignsz size = incSz) (hend : v.vmEnd + incSz < 2 ^ 31)
    (hfit : firstFit size v.vmFreergList = none) (rgid : ℤ) :
    (c.alloc 0 rgid size).2.2 =
      { (c.incVmaLimit 0 incSz).2 with
        mm := { (c.incVmaLimit 0 incSz).2.mm with
          mmap := [grownArea v size.toNat incSz]
          symrgtbl := Function.update c.mm.symrgtbl rgid
            ⟨v.vmEnd, v.vmEnd + size.toNat⟩ } } := by
  have hgrown := incVmaLimit_single hv incSz
  have hround := pagingPageAlignsz_of_nonneg hlo hhi
  have hvmEnd : ulong (v.vmEnd + (incSz : ℤ)) = v.vmEnd + incSz := by
    unfold ulong
    omega
  have hbrk : cint v.vmEnd = v.vmEnd := cint_of_mem (by omega) (by omega)
  have hstart : ulong v.vmEnd = v.vmEnd := by
    unfold ulong
    omega
  have hregion : ulong (cint (v.vmEnd + size)) = v.vmEnd + size.toNat := by
    rw [cint_of_mem (by omega) (by omega)]
    unfold ulong
    omega
  have hmmap := hgrown.mmap
  have hsym := hgrown.symrgtbl
  dsimp only at hmmap hsym
  rw [hsbrk, hvmEnd] at hmmap
  unfold alloc getFreeVmrgArea
  simp only [curVma_single hv, hfit]
  unfold allocAtBrk carveAtBrk
  simp only [curVma_single hv, hsbrk, hbrk, hstart, hregion, hinc]
  generalize (c.incVmaLimit 0 incSz).2 = c' at hmmap hsym ⊢
  have hset : ∀ rg, (c'.mm.setSymrg rgid rg).mmap = c'.mm.mmap := fun _ => rfl
  rw [curVma_single ((hset _).trans hmmap)]
  unfold Mm.enlistVmFreergList Mm.setSymrg grownArea
  simp only [hmmap, hsym, Nat.add_lt_add_iff_left]
  -- what is left behind the region is free if it is not empty
  by_cases hrest : size.toNat < incSz
  · have hne : ¬ v.vmEnd + incSz ≤ v.vmEnd + size.toNat := by omega
    simp only [hrest, hne, if_true, if_false]
  · simp only [hrest, if_false]

/-- Freeing a region id enlists its region, unless this is empty. -/
lemma free_of_valid {c : Caller} {v : VmArea} (hv : c.mm.mmap = [v]) (vmaid : ℤ) {rgid : ℤ}
    (hlo : 0 ≤ rgid) (hhi : rgid ≤ pagingMaxSymtblSz) :
    (c.free vmaid rgid).2 =
      { c with
        mm := { c.mm with
          mmap := [{ v with
            vmFreergList :=
              if (c.mm.symrgtbl rgid).rgEnd ≤ (c.mm.symrgtbl rgid).rgStart then v.vmFreergList
              else c.mm.symrgtbl rgid :: v.vmFreergList }] } } := by
  have hvalid : ¬ (rgid < 0 ∨ rgid > pagingMaxSymtblSz) := by omega
  unfold free Mm.enlistVmFreergList
  rw [if_neg hvalid, hv]
  split
  · rw [← hv]
  · rfl

end Caller

end Ossim
