import Ossim.Lib.Linked
import Ossim.Paging.Growth

/-!
# First fit

What `get_free_vmrg_area` of `src/mm-vm.c` does to the free list of any area.  `firstFit_outcome`
splits the list at the first region with room for the size; a used-up region disappears, or stays
as an empty one when it was the last (`leftOf`).  `searchLoop_isList` relates this to the cells of
the list, where a used-up cell takes over its successor and the successor is freed: the pointer to
the list never changes.

Each byte of the new region leaves the list once.  Where the free regions are disjoint, as they
are until a region is freed twice, the list covers what it covered without the new region
(`fitsFirst_of_area`).
-/

namespace Ossim

open LinkedHeap

/-! ## The regions of the list -/

/-- The region has room for `size` bytes. -/
def VmRg.HasRoom (rg : VmRg) (size : ℕ) : Prop := rg.rgStart + size ≤ rg.rgEnd

/-- What stays in the list of a region whose first `size` bytes are cut out, with the regions
behind it. -/
def leftOf (rg : VmRg) (size : ℕ) (after : List VmRg) : List VmRg :=
  if rg.rgStart + size < rg.rgEnd ∨ after = [] then [⟨rg.rgStart + size, rg.rgEnd⟩] else []

/-- A region as `vm_freerg_list` holds them. -/
def VmRg.Small (rg : VmRg) : Prop := rg.rgStart ≤ rg.rgEnd ∧ rg.rgEnd < 2 ^ 31

section

variable {size : ℤ} {l : List VmRg}

/-- Either no region has room, or the list is cut at the first one that has. -/
lemma firstFit_outcome (hlo : 0 ≤ size) (hhi : size < 2 ^ 31) (hl : ∀ rg ∈ l, rg.Small) :
    (firstFit size l = none ∧ ∀ rg ∈ l, ¬ rg.HasRoom size.toNat) ∨
    ∃ before rg after, l = before ++ rg :: after ∧ (∀ r ∈ before, ¬ r.HasRoom size.toNat) ∧
      rg.HasRoom size.toNat ∧
      firstFit size l = some (⟨rg.rgStart, rg.rgStart + size.toNat⟩,
        before ++ leftOf rg size.toNat after ++ after) := by
  induction l with
  | nil => exact .inl ⟨rfl, fun rg hrg => absurd hrg (List.not_mem_nil)⟩
  | cons rgit rgNext ih =>
    obtain ⟨hle, hend⟩ := hl rgit List.mem_cons_self
    have hcut : ulong (rgit.rgStart + size) = rgit.rgStart + size.toNat := by
      unfold ulong
      omega
    unfold firstFit
    simp only [hcut]
    by_cases hroom : rgit.rgStart + size.toNat ≤ rgit.rgEnd
    · refine .inr ⟨[], rgit, rgNext, rfl, by simp, hroom, ?_⟩
      rw [if_pos hroom]
      unfold leftOf
      by_cases hlt : rgit.rgStart + size.toNat < rgit.rgEnd
      · simp [hlt]
      · -- the region is used up
        have heq : rgit.rgStart + size.toNat = rgit.rgEnd := by omega
        cases rgNext with
        | nil => simp [heq]
        | cons nextrg rest => simp [heq]
    · rw [if_neg hroom]
      rcases ih fun rg hrg => hl rg (List.mem_cons_of_mem _ hrg) with ⟨hnone, hno⟩ | hsome
      · refine .inl ⟨by rw [hnone]; rfl, fun rg hrg => ?_⟩
        rcases List.mem_cons.mp hrg with rfl | hrg
        · exact hroom
        · exact hno rg hrg
      · obtain ⟨before, rg, after, rfl, hno, hfits, heq⟩ := hsome
        refine .inr ⟨rgit :: before, rg, after, rfl, fun r hr => ?_, hfits, by rw [heq]; rfl⟩
        rcases List.mem_cons.mp hr with rfl | hr
        · exact hroom
        · exact hno r hr

/-- What is cut out of a list and what is left of it cover what the list covered. -/
lemma cover_leftOf {size : ℕ} {rg : VmRg} (hfits : rg.HasRoom size) (before after : List VmRg) :
    Span.cover (⟨rg.rgStart, rg.rgStart + size⟩ ::
        (before ++ leftOf rg size after ++ after).map VmRg.span) =
      Span.cover ((before ++ rg :: after).map VmRg.span) := by
  have hback : Span.cover (⟨rg.rgStart, rg.rgStart + size⟩ ::
      (leftOf rg size after ++ after).map VmRg.span) =
      Span.cover ((rg :: after).map VmRg.span) := by
    have hsplit := Span.cover_split (Nat.le_add_right rg.rgStart size) hfits
      (after.map VmRg.span)
    unfold leftOf
    split
    · exact hsplit
    · next hused =>
      have heq : rg.rgStart + size = rg.rgEnd := le_antisymm hfits (by omega)
      rw [heq]
      rfl
  have hmove : (⟨rg.rgStart, rg.rgStart + size⟩ ::
      (before ++ leftOf rg size after ++ after).map VmRg.span).Perm
      (before.map VmRg.span ++
        ⟨rg.rgStart, rg.rgStart + size⟩ :: (leftOf rg size after ++ after).map VmRg.span) := by
    rw [List.append_assoc, List.map_append]
    exact List.perm_middle.symm
  rw [Span.cover_perm hmove, Span.cover_append_right _ hback, ← List.map_append]

end

/-! ## The cells of the list -/

/-- The loop of `get_free_vmrg_area` on the cells of the list, with a bound on its turns: the region
cut out and the memory. -/
def searchLoop (size : ℤ) : ℕ → Option ℕ → Heap VmRg → Option VmRg × Heap VmRg
  | 0, _, h => (none, h)
  | _ + 1, none, h => (none, h)
  | n + 1, some rgit, h =>
    let rg := (h.cell rgit).val
    let cut := ulong (rg.rgStart + size)
    if cut ≤ rg.rgEnd then
      let newrg : VmRg := ⟨rg.rgStart, cut⟩
      if cut < rg.rgEnd then
        (some newrg, h.store rgit { h.cell rgit with val := ⟨cut, rg.rgEnd⟩ })
      else
        match (h.cell rgit).next with
        | some nextrg => (some newrg, (h.store rgit (h.cell nextrg)).free nextrg)
        | none => (some newrg, h.store rgit ⟨⟨rg.rgEnd, rg.rgEnd⟩, none⟩)
    else searchLoop size n (h.cell rgit).next h

/-- What the search leaves of a list. -/
def searched (size : ℤ) (list : List VmRg) : List VmRg :=
  ((firstFit size list).map Prod.snd).getD list

/-- With a turn for each cell, the loop finds what the search of the list finds, leaves its list
behind the same pointer and frees at most one cell of it. -/
lemma searchLoop_owns (size : ℤ) {n : ℕ} {p : Option ℕ} {h : Heap VmRg} {s : Finset ℕ}
    {l : List VmRg} (hl : h.Owns s p l) (hn : l.length ≤ n) :
    (searchLoop size n p h).1 = (firstFit size l).map Prod.fst ∧ ∃ s',
      (searchLoop size n p h).2.Owns s' p (searched size l) ∧
      h.Rebuilds (searchLoop size n p h).2 s s' := by
  induction l generalizing n s p with
  | nil =>
    obtain ⟨rfl, rfl⟩ := hl
    cases n <;> exact ⟨rfl, ∅, ⟨rfl, rfl⟩, .refl h ∅⟩
  | cons rg rgNext ih =>
    obtain ⟨k, rfl⟩ : ∃ k, n = k + 1 := ⟨n - 1, by simp at hn; omega⟩
    have hall := hl
    obtain ⟨rgit, -, rfl, hlive, rfl, hnext⟩ := hl
    unfold searchLoop searched firstFit
    dsimp only
    by_cases hfits : ulong ((h.cell rgit).val.rgStart + size) ≤ (h.cell rgit).val.rgEnd
    · rw [if_pos hfits, if_pos hfits]
      by_cases hlt : ulong ((h.cell rgit).val.rgStart + size) < (h.cell rgit).val.rgEnd
      · -- the region shrinks
        rw [if_pos hlt, if_pos hlt]
        exact ⟨rfl, s, hall.setHead _⟩
      · rw [if_neg hlt, if_neg hlt]
        cases rgNext with
        | nil =>
          -- the last region stays as an empty one
          have hset := hall.setHead ⟨(h.cell rgit).val.rgEnd, (h.cell rgit).val.rgEnd⟩
          rw [hnext.1] at hset ⊢
          exact ⟨rfl, s, hset⟩
        | cons nextrg rest =>
          -- the cell takes over its successor, which is freed
          obtain ⟨b, -, heq, -⟩ := hnext
          rw [heq]
          exact ⟨rfl, s.erase b, (hall.absorb heq).2⟩
    · rw [if_neg hfits, if_neg hfits]
      obtain ⟨hfound, s', hlist, hr⟩ := ih hnext (Nat.le_of_succ_le_succ hn)
      obtain ⟨hlist', hr'⟩ := hall.changeTail hr hlist
      refine ⟨?_, insert rgit s', ?_, hr'⟩
      · rw [hfound, Option.map_map]
        rfl
      · revert hlist'
        unfold searched
        cases firstFit size rgNext with
        | none => exact id
        | some found => exact id

/-- The same for a list whose cells are not named. -/
lemma searchLoop_isList (size : ℤ) {n : ℕ} {p : Option ℕ} {h : Heap VmRg} {l : List VmRg}
    (hl : h.IsList p l) (hn : l.length ≤ n) :
    (searchLoop size n p h).1 = (firstFit size l).map Prod.fst ∧
      (searchLoop size n p h).2.IsList p (searched size l) := by
  obtain ⟨s, hs⟩ := hl.exists_owns
  obtain ⟨hfound, s', hlist, -⟩ := searchLoop_owns size hs hn
  exact ⟨hfound, hlist.isList⟩

/-! ## The area -/

namespace Mm

/-- The search for an area looks at the identifiers only. -/
lemma getVmaLoop_set {vmaid : ℤ} {l : List VmArea} {cur i : ℕ} {v : VmArea}
    (hv : ∀ w, l[cur]? = some w → v.vmId = w.vmId) :
    getVmaLoop vmaid i (l.set cur v) = getVmaLoop vmaid i l := by
  induction l generalizing cur i with
  | nil => rfl
  | cons w l ih =>
    cases cur with
    | zero =>
      have hid := hv w rfl
      simp only [List.set_cons_zero, getVmaLoop, hid]
    | succ cur =>
      have htail := ih (i := i + 1) fun w' hw' => hv w' (by simpa using hw')
      simp only [List.set_cons_succ, getVmaLoop, htail]

/-- Another free list of the selected area. -/
lemma curVma_setCurVma {mm : Mm} {vmaid : ℤ} {cur : ℕ} (hcur : mm.getVmaByNum vmaid = some cur)
    {v : VmArea} (hv : v.vmId = (mm.curVma vmaid).vmId) :
    (mm.setCurVma vmaid v).curVma vmaid = v := by
  have hlt := getVmaByNum_lt hcur
  have hold : mm.curVma vmaid = mm.mmap[cur] := by
    unfold curVma
    rw [hcur]
    exact List.getD_eq_getElem _ _ hlt
  have hnew : (mm.setCurVma vmaid v).mmap = mm.mmap.set cur v := by
    unfold setCurVma
    rw [hcur]
  have hsame : (mm.setCurVma vmaid v).getVmaByNum vmaid = some cur := by
    rw [← hcur]
    unfold getVmaByNum at hcur ⊢
    rw [hnew]
    cases hmm : mm.mmap with
    | nil => rfl
    | cons w rest =>
      cases cur with
      | zero => rfl
      | succ cur =>
        dsimp only [List.set_cons_succ]
        rw [getVmaLoop_set fun w' hw' => ?_]
        rw [hv, hold]
        simp only [hmm] at hw' ⊢
        exact congrArg VmArea.vmId (List.getElem?_eq_some_iff.mp hw').2
  unfold curVma
  rw [hsame, hnew]
  simp [hlt]

end Mm

namespace Caller

variable {c : Caller} {vmaid size : ℤ} {cur : ℕ}

/-- The free list of an area. -/
abbrev freerg (c : Caller) (vmaid : ℤ) : List VmRg := (c.mm.curVma vmaid).vmFreergList

/-- The caller with another free list of an area. -/
def withFreerg (c : Caller) (vmaid : ℤ) (list : List VmRg) : Caller :=
  { c with mm := c.mm.setCurVma vmaid { c.mm.curVma vmaid with vmFreergList := list } }

lemma freerg_withFreerg (hcur : c.mm.getVmaByNum vmaid = some cur) (list : List VmRg) :
    (c.withFreerg vmaid list).freerg vmaid = list := by
  have hset := Mm.curVma_setCurVma hcur
    (v := { c.mm.curVma vmaid with vmFreergList := list }) rfl
  exact congrArg VmArea.vmFreergList hset

/-- Both outcomes of `get_free_vmrg_area`. -/
lemma getFreeVmrgArea_outcome (hlo : 0 ≤ size) (hhi : size < 2 ^ 31)
    (hl : ∀ rg ∈ c.freerg vmaid, rg.Small) :
    (firstFit size (c.freerg vmaid) = none ∧ c.getFreeVmrgArea vmaid size = (none, c) ∧
      ∀ rg ∈ c.freerg vmaid, ¬ rg.HasRoom size.toNat) ∨
    ∃ before rg after, c.freerg vmaid = before ++ rg :: after ∧
      (∀ r ∈ before, ¬ r.HasRoom size.toNat) ∧ rg.HasRoom size.toNat ∧
      firstFit size (c.freerg vmaid) = some (⟨rg.rgStart, rg.rgStart + size.toNat⟩,
        before ++ leftOf rg size.toNat after ++ after) ∧
      c.getFreeVmrgArea vmaid size = (some ⟨rg.rgStart, rg.rgStart + size.toNat⟩,
        c.withFreerg vmaid (before ++ leftOf rg size.toNat after ++ after)) := by
  rcases firstFit_outcome hlo hhi hl with ⟨hnone, hno⟩ | hsome
  · refine .inl ⟨hnone, ?_, hno⟩
    unfold getFreeVmrgArea
    dsimp only
    rw [hnone]
  · obtain ⟨before, rg, after, hlist, hno, hroom, hfit⟩ := hsome
    refine .inr ⟨before, rg, after, hlist, hno, hroom, hfit, ?_⟩
    have hrg := hl rg (hlist ▸ List.mem_append_right _ List.mem_cons_self)
    have htop : ¬ rg.rgStart = ulong (-1) := by
      have hsmall := hrg.1.trans_lt hrg.2
      rw [show ulong (-1) = 2 ^ 64 - 1 by rfl]
      omega
    unfold getFreeVmrgArea
    dsimp only
    rw [hfit]
    dsimp only
    rw [if_neg htop]
    rfl

/-- First fit in the free list of an area: what `get_free_vmrg_area` returns and leaves behind, and
what `__alloc` makes of it. -/
structure FitsFirst (c : Caller) (vmaid size : ℤ) : Prop where
  /-- The status. -/
  found : (c.getFreeVmrgArea vmaid size).1.isSome ↔
    ∃ rg ∈ c.freerg vmaid, rg.HasRoom size.toNat
  /-- A search that finds nothing. -/
  unchanged : (c.getFreeVmrgArea vmaid size).1 = none → (c.getFreeVmrgArea vmaid size).2 = c
  /-- The new region is cut off the first region with room. -/
  cut : ∀ newrg, (c.getFreeVmrgArea vmaid size).1 = some newrg →
    ∃ before rg after, c.freerg vmaid = before ++ rg :: after ∧
      (∀ r ∈ before, ¬ r.HasRoom size.toNat) ∧ rg.HasRoom size.toNat ∧
      newrg = ⟨rg.rgStart, rg.rgStart + size.toNat⟩ ∧
      (c.getFreeVmrgArea vmaid size).2 =
        c.withFreerg vmaid (before ++ leftOf rg size.toNat after ++ after)
  /-- Each byte of the new region leaves the list once. -/
  bytes : ∀ newrg, (c.getFreeVmrgArea vmaid size).1 = some newrg → ∀ a,
    Span.cover (((c.getFreeVmrgArea vmaid size).2.freerg vmaid).map VmRg.span) a +
      (if newrg.span.Contains a then 1 else 0) =
    Span.cover ((c.freerg vmaid).map VmRg.span) a
  /-- The bytes of a list of disjoint regions. -/
  covered : ((c.freerg vmaid).map VmRg.span).Pairwise Span.Disjoint →
    ∀ newrg, (c.getFreeVmrgArea vmaid size).1 = some newrg → ∀ a,
      (∃ rg ∈ (c.getFreeVmrgArea vmaid size).2.freerg vmaid, rg.span.Contains a) ↔
        (∃ rg ∈ c.freerg vmaid, rg.span.Contains a) ∧ ¬ newrg.span.Contains a
  /-- The cells of the list. -/
  cells : ∀ (h : Heap VmRg) (p : Option ℕ) (n : ℕ), h.IsList p (c.freerg vmaid) →
    (c.freerg vmaid).length ≤ n →
    (searchLoop size n p h).1 = (c.getFreeVmrgArea vmaid size).1 ∧
    (searchLoop size n p h).2.IsList p ((c.getFreeVmrgArea vmaid size).2.freerg vmaid)
  /-- `__alloc` grows nothing when a region has room. -/
  alloc : (∃ rg ∈ c.freerg vmaid, rg.HasRoom size.toNat) → ∀ rgid, ∃ list newrg,
    (c.alloc vmaid rgid size).2.2 =
      { c.withFreerg vmaid list with
        mm := (c.withFreerg vmaid list).mm.setSymrg rgid newrg } ∧
    (c.alloc vmaid rgid size).2.2.mm.mmap.map VmArea.span = c.mm.mmap.map VmArea.span

/-- Another free list does not move an area. -/
lemma span_withFreerg (list : List VmRg) :
    (c.withFreerg vmaid list).mm.mmap.map VmArea.span = c.mm.mmap.map VmArea.span := by
  unfold withFreerg Mm.setCurVma
  dsimp only
  cases hcur : c.mm.getVmaByNum vmaid with
  | none => rfl
  | some cur =>
    have hlt := Mm.getVmaByNum_lt hcur
    have hlt' : cur < (c.mm.mmap.map VmArea.span).length := by simpa using hlt
    have hspan : VmArea.span { c.mm.curVma vmaid with vmFreergList := list } =
        (c.mm.mmap.map VmArea.span)[cur] := by
      unfold Mm.curVma
      simp [hcur, hlt, VmArea.span]
    dsimp only
    rw [List.map_set, hspan, List.set_getElem_self]

/-- A region found is taken from the list, and nothing else happens. -/
lemma alloc_of_found {newrg : VmRg} {list : List VmRg}
    (h : c.getFreeVmrgArea vmaid size = (some newrg, c.withFreerg vmaid list)) (rgid : ℤ) :
    (c.alloc vmaid rgid size).2.2 =
      { c.withFreerg vmaid list with
        mm := (c.withFreerg vmaid list).mm.setSymrg rgid newrg } := by
  unfold alloc
  rw [h]

/-- First fit is exact, for the free list of every area and every size. -/
theorem fitsFirst_of_area (hcur : c.mm.getVmaByNum vmaid = some cur)
    (hl : ∀ rg ∈ c.freerg vmaid, rg.Small) (hlo : 1 ≤ size) (hhi : size < 2 ^ 31) :
    c.FitsFirst vmaid size := by
  have hcells := fun h p n (hp : Heap.IsList h p (c.freerg vmaid)) hn =>
    searchLoop_isList size (n := n) hp hn
  rcases getFreeVmrgArea_outcome (by omega) hhi hl with ⟨hfit, hget, hno⟩ | hsome
  · -- no region has room
    have hnone : (c.getFreeVmrgArea vmaid size).1 = none := by rw [hget]
    refine ⟨?_, fun _ => by rw [hget], ?_, ?_, ?_, ?_, ?_⟩
    · rw [hnone]
      refine ⟨fun h => absurd h (by simp), ?_⟩
      rintro ⟨rg, hrg, hroom⟩
      exact absurd hroom (hno rg hrg)
    · exact fun newrg h => absurd (hnone.symm.trans h) (by simp)
    · exact fun newrg h => absurd (hnone.symm.trans h) (by simp)
    · exact fun _ newrg h => absurd (hnone.symm.trans h) (by simp)
    · intro h p n hp hn
      obtain ⟨hfound, hlist⟩ := hcells h p n hp hn
      rw [hfit] at hfound
      rw [searched, hfit] at hlist
      rw [hget]
      exact ⟨hfound, hlist⟩
    · rintro ⟨rg, hrg, hroom⟩
      exact absurd hroom (hno rg hrg)
  · obtain ⟨before, rg, after, hlist, hno, hroom, hfit, hget⟩ := hsome
    set newrg : VmRg := ⟨rg.rgStart, rg.rgStart + size.toNat⟩ with hnewrg
    set list := before ++ leftOf rg size.toNat after ++ after with hleft
    have hfree : (c.getFreeVmrgArea vmaid size).2.freerg vmaid = list := by
      rw [hget]
      exact freerg_withFreerg hcur list
    have hsome : ∀ rg', (c.getFreeVmrgArea vmaid size).1 = some rg' → rg' = newrg := by
      intro rg' h
      rw [hget] at h
      exact (Option.some.inj h).symm
    have hcut : Span.cover (newrg.span :: list.map VmRg.span) =
        Span.cover ((c.freerg vmaid).map VmRg.span) := by
      rw [hlist, ← cover_leftOf hroom before after]
      rfl
    refine ⟨?_, ?_, ?_, ?_, ?_, ?_, ?_⟩
    · rw [hget]
      exact ⟨fun _ => ⟨rg, hlist ▸ List.mem_append_right _ List.mem_cons_self, hroom⟩,
        fun _ => rfl⟩
    · intro hnone
      rw [hget] at hnone
      exact absurd hnone (by simp)
    · intro rg' h
      exact ⟨before, rg, after, hlist, hno, hroom, hsome rg' h, by rw [hget]⟩
    · intro rg' h a
      rw [hfree, hsome rg' h, ← hcut, Span.cover_cons]
    · intro hdisj rg' h a
      rw [hfree, hsome rg' h]
      simpa using Span.exists_contains_of_cut hdisj hcut a
    · intro h p n hp hn
      obtain ⟨hfound, hcell⟩ := hcells h p n hp hn
      rw [hfit] at hfound
      rw [searched, hfit] at hcell
      rw [hfree, hget]
      exact ⟨hfound, hcell⟩
    · intro _ rgid
      refine ⟨list, newrg, alloc_of_found hget rgid, ?_⟩
      rw [alloc_of_found hget rgid]
      exact span_withFreerg list

/-- A process whose area has the given free regions. -/
def withFreeRegions (list : List VmRg) : Caller :=
  { (MemSys.fresh Unit 512 0).caller () with
    mm := { ((MemSys.fresh Unit 512 0).caller ()).mm with mmap := [⟨0, 0, 256, 256, list⟩] } }

/-- The second of two regions is used up. -/
theorem fitsFirst_second : (withFreeRegions [⟨0, 5⟩, ⟨10, 20⟩]).FitsFirst 0 10 := by
  have harea : (withFreeRegions [⟨0, 5⟩, ⟨10, 20⟩]).mm.getVmaByNum 0 = some 0 := rfl
  refine fitsFirst_of_area harea ?_ (by decide) (by decide)
  intro rg hrg
  have hmem : rg ∈ [(⟨0, 5⟩ : VmRg), ⟨10, 20⟩] := hrg
  simp only [List.mem_cons, List.not_mem_nil, or_false] at hmem
  rcases hmem with rfl | rfl
  · exact ⟨by decide, by decide⟩
  · exact ⟨by decide, by decide⟩

/-- A region that was freed twice stays in the list when it is taken. -/
theorem not_covered_freed_twice : ¬ ∀ (c : Caller) (vmaid size : ℤ) (cur : ℕ),
    c.mm.getVmaByNum vmaid = some cur → (∀ rg ∈ c.freerg vmaid, rg.Small) → 1 ≤ size →
    size < 2 ^ 31 → ∀ newrg, (c.getFreeVmrgArea vmaid size).1 = some newrg → ∀ a,
      (∃ rg ∈ (c.getFreeVmrgArea vmaid size).2.freerg vmaid, rg.span.Contains a) ↔
        (∃ rg ∈ c.freerg vmaid, rg.span.Contains a) ∧ ¬ newrg.span.Contains a := by
  intro h
  have hsmall : ∀ rg ∈ (withFreeRegions [⟨0, 10⟩, ⟨0, 10⟩]).freerg 0, rg.Small := by
    intro rg hrg
    have hmem : rg ∈ [(⟨0, 10⟩ : VmRg), ⟨0, 10⟩] := hrg
    simp only [List.mem_cons, List.not_mem_nil, or_false, or_self] at hmem
    rw [hmem]
    exact ⟨by decide, by decide⟩
  have hcovered := h (withFreeRegions [⟨0, 10⟩, ⟨0, 10⟩]) 0 10 0 rfl hsmall (by decide)
    (by decide) ⟨0, 10⟩ (by decide) 0
  have hin : ∃ rg ∈ ((withFreeRegions [⟨0, 10⟩, ⟨0, 10⟩]).getFreeVmrgArea 0 10).2.freerg 0,
      rg.span.Contains 0 := ⟨⟨0, 10⟩, by decide, by decide⟩
  exact (hcovered.mp hin).2 (by decide)

end Caller

end Ossim
