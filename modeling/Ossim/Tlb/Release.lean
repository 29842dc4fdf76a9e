import Mathlib.Data.List.Pairwise
import Ossim.Paging.Heap
import Ossim.Tlb.System

/-!
# Freeing what is not allocated

A process executes `ALLOC` and `FREE` instructions, with or without a TLB.  Which region ids are
live is recorded nowhere in the program: `__free` puts the symbol table entry on the free list and
leaves it in the table, and `init_mm` does not clear the table.  So `__free` refuses an id only if
it is outside the table, and `tlbfree_data` also if its entry consists of zeros
(`refusesFree_iff`).

A region that is freed twice is on the free list twice, and two later allocations get it both.  In
a run in which no id is freed that is not live, or only with an empty entry, the live regions and
the free ones stay packed in the area (`Tenancy.Packed`), which is all that is needed for live
regions not to overlap; an `ALLOC` for a live id loses a region and harms nobody.
-/

namespace Ossim

/-! ## Refused calls -/

/-- `FREE` reports an error and leaves the area, its free list and the symbol table alone. -/
def Build.RefusesFree (build : Build) (p : Pcb) (regIndex : Word) : Prop :=
  (build.backEnd.free p regIndex).1 ≠ 0 ∧
    (build.backEnd.free p regIndex).2.caller.mm.mmap = p.caller.mm.mmap ∧
    (build.backEnd.free p regIndex).2.caller.mm.symrgtbl = p.caller.mm.symrgtbl

/-- The range check of `__free`, on the operand of the instruction. -/
lemma rgid_invalid_iff (r : Word) :
    (r.toInt < 0 ∨ r.toInt > pagingMaxSymtblSz) ↔ pagingMaxSymtblSz < r.toNat := by
  have hr := BitVec.toInt_eq_toNat_cond r
  have hlt := r.isLt
  rw [show pagingMaxSymtblSz = 30 by rfl]
  split at hr <;> omega

/-- `FREE` is refused, or it performs `__free` on an id that passes the range check there. -/
lemma Build.free_cases (build : Build) (p : Pcb) (r : Word) :
    build.RefusesFree p r ∧ (build.backEnd.free p r).2 = p ∨
      r.toNat ≤ pagingMaxSymtblSz ∧ (build.backEnd.free p r).1 = 0 ∧
        (build.backEnd.free p r).2.caller = (p.caller.free 0 r.toInt).2 := by
  have hrange := rgid_invalid_iff r
  have hfailed : (-1 : ℤ) ≠ 0 := by decide
  cases build with
  | paging =>
    have hfree : Build.paging.backEnd.free p r =
        ((p.caller.free 0 r.toInt).1, { p with caller := (p.caller.free 0 r.toInt).2 }) := rfl
    unfold Build.RefusesFree
    rw [hfree]
    unfold Caller.free
    by_cases hr : r.toInt < 0 ∨ r.toInt > pagingMaxSymtblSz
    · rw [if_pos hr]
      exact .inl ⟨⟨hfailed, rfl, rfl⟩, rfl⟩
    · rw [if_neg hr]
      exact .inr ⟨not_lt.mp fun h => hr (hrange.mpr h), rfl, rfl⟩
  | tlb =>
    have hfree : Build.tlb.backEnd.free p r = p.tlbfreeData r := rfl
    unfold Build.RefusesFree
    rw [hfree]
    unfold Pcb.tlbfreeData
    dsimp only
    split
    · exact .inl ⟨⟨hfailed, rfl, rfl⟩, rfl⟩
    · next hlt =>
      split
      · exact .inl ⟨⟨hfailed, rfl, rfl⟩, rfl⟩
      · obtain ⟨tlb, htlb⟩ := Pcb.foldl_setTlb Pcb.tlbfreePage_setTlb _ _
        rw [htlb]
        exact .inr ⟨(not_le.mp hlt).le, rfl, rfl⟩

/-- `ALLOC` succeeds and performs `__alloc`. -/
lemma Build.alloc_eq (build : Build) (p : Pcb) (size r : Word) :
    (build.backEnd.alloc p size r).1 = 0 ∧
      (build.backEnd.alloc p size r).2.caller = (p.caller.alloc 0 r.toInt size.toInt).2.2 := by
  have hstatus := p.caller.alloc_status 0 r.toInt size.toInt
  cases build with
  | paging => exact ⟨hstatus, rfl⟩
  | tlb =>
    obtain ⟨tlb, htlb⟩ := Pcb.tlballoc_eq p size r
    have halloc : Build.tlb.backEnd.alloc p size r = p.tlballoc size r := rfl
    rw [halloc, htlb]
    exact ⟨hstatus, rfl⟩

/-- Both versions of `FREE` refuse an id exactly if it is larger than the size of the symbol
table. -/
lemma refusesFree_iff (p : Pcb) (r : Word) :
    (∀ build : Build, build.RefusesFree p r) ↔ pagingMaxSymtblSz < r.toNat := by
  constructor
  · intro h
    have hstatus : (p.caller.free 0 r.toInt).1 ≠ 0 := (h .paging).1
    by_contra hr
    unfold Caller.free at hstatus
    rw [if_neg fun hinvalid => hr ((rgid_invalid_iff r).mp hinvalid)] at hstatus
    exact hstatus rfl
  · intro hr build
    rcases build.free_cases p r with ⟨hrefused, -⟩ | ⟨hle, -⟩
    · exact hrefused
    · omega

/-! ## Runs -/

/-- A process and the region ids that it uses. -/
structure Tenancy where
  /-- The process. -/
  pcb : Pcb
  /-- Allocated and not freed since. -/
  live : ℤ → Bool

/-- The instructions that allocate and free. -/
inductive RegionInst
  | alloc (size regIndex : Word)
  | free (regIndex : Word)
  deriving DecidableEq

namespace Tenancy

/-- An instruction that succeeds makes its region id live or ends that. -/
def exec (w : Tenancy) (build : Build) : RegionInst → Tenancy
  | .alloc size regIndex =>
    let (val, pcb) := build.backEnd.alloc w.pcb size regIndex
    ⟨pcb, if val = 0 then Function.update w.live regIndex.toInt true else w.live⟩
  | .free regIndex =>
    let (val, pcb) := build.backEnd.free w.pcb regIndex
    ⟨pcb, if val = 0 then Function.update w.live regIndex.toInt false else w.live⟩

/-- The area of the process. -/
def area (w : Tenancy) : VmArea := w.pcb.caller.mm.curVma 0

/-- The regions of two live ids have no byte in common. -/
def Apart (w : Tenancy) : Prop :=
  ∀ r s, w.live r = true → w.live s = true → r ≠ s →
    (w.pcb.caller.mm.symrgtbl r).span.Disjoint (w.pcb.caller.mm.symrgtbl s).span

/-- The free list holds no stale region: none that contains a byte, or to which adding a size
overflows. -/
def NoStale (w : Tenancy) : Prop :=
  ∀ rg ∈ w.area.vmFreergList, rg.rgEnd ≤ rg.rgStart ∧ rg.rgStart < 2 ^ 63

/-- An allocation is for an entry of the symbol table, with a size that is an `int`, and fits a free
region or leaves the end of the area below `2 ^ 31`; a free is for a live id, for an id outside the
table, or for one whose entry is empty. -/
def StepOk (w : Tenancy) : Build × RegionInst → Prop
  | (_, .alloc size r) =>
    r.toNat < pagingMaxSymtblSz ∧ size.toNat < 2 ^ 31 ∧
      ((firstFit size.toNat w.area.vmFreergList).isSome ∨
        w.area.vmEnd + (size.toNat + 255) / 256 * 256 < 2 ^ 31)
  | (_, .free r) =>
    w.live r.toInt = true ∨ pagingMaxSymtblSz < r.toNat ∨
      (w.pcb.caller.mm.symrgtbl r.toInt).rgEnd ≤ (w.pcb.caller.mm.symrgtbl r.toInt).rgStart

end Tenancy

/-- The `ALLOC` and `FREE` instructions of one process after `init_mm`, with or without a TLB. -/
def tenancySystem : LTS Tenancy (Build × RegionInst) where
  start w := (∃ mm freerg, w.pcb.caller.mm = initMm mm freerg) ∧ w.live = fun _ => false
  step w a w' := w' = w.exec a.1 a.2

namespace Tenancy

/-! ## Live and free regions -/

/-- The live region ids. -/
def liveIds (w : Tenancy) : List ℤ := Heap.rgids.filter fun r => w.live r

/-- The live regions and the free regions. -/
def pieces (w : Tenancy) : List (Span ℕ) :=
  (w.liveIds.map w.pcb.caller.mm.symrgtbl ++ w.area.vmFreergList).map VmRg.span

/-- Live and free regions are packed in the only area of the process. -/
structure Packed (w : Tenancy) (v : VmArea) : Prop where
  /-- The only area. -/
  mmap : w.pcb.caller.mm.mmap = [v]
  /-- No byte of it lies in two pieces. -/
  packs : Span.Packs w.pieces 0 v.vmEnd
  /-- The live ids are entries of the symbol table. -/
  range : ∀ r, w.live r = true → 0 ≤ r ∧ r < pagingMaxSymtblSz
  /-- The break is at the end. -/
  sbrk : v.sbrk = v.vmEnd
  /-- The end is an `int`. -/
  small : v.vmEnd < 2 ^ 31
  /-- Adding a size to the start of a free region does not overflow. -/
  free : ∀ rg ∈ v.vmFreergList, rg.Below (2 ^ 63 - 1)

lemma area_eq {w : Tenancy} {v : VmArea} (hv : w.pcb.caller.mm.mmap = [v]) : w.area = v :=
  Caller.curVma_single hv

/-- Live regions do not overlap. -/
lemma Packed.apart {w : Tenancy} {v : VmArea} (h : w.Packed v) : w.Apart := by
  intro r s hr hs hne
  have hregions : (w.liveIds.map fun r => (w.pcb.caller.mm.symrgtbl r).span).Pairwise
      Span.Disjoint := by
    have hall := h.packs.pairwise_disjoint
    unfold pieces at hall
    rw [List.map_append, List.map_map] at hall
    exact (List.pairwise_append.mp hall).1
  have hmem : ∀ r, w.live r = true → r ∈ w.liveIds := fun r hr =>
    List.mem_filter.mpr ⟨Heap.mem_rgids.mpr (h.range r hr), hr⟩
  have hsymm : Std.Symm fun r s => (w.pcb.caller.mm.symrgtbl r).span.Disjoint
      (w.pcb.caller.mm.symrgtbl s).span := ⟨fun x y hxy a hy hx => hxy a hx hy⟩
  exact (List.pairwise_map.mp hregions).forall (hmem r hr) (hmem s hs) hne

/-- After `init_mm` nothing is live and the area is empty. -/
lemma packed_of_start {w : Tenancy} (h : tenancySystem.start w) (hstale : w.NoStale) :
    ∃ v, w.Packed v := by
  obtain ⟨⟨mm, freerg, hmm⟩, hlive⟩ := h
  have hmmap : w.pcb.caller.mm.mmap = [⟨1, 0, 0, 0, ⟨0, 0⟩ :: freerg⟩] := by
    rw [hmm]
    rfl
  have hnone : w.liveIds = [] := by
    unfold liveIds
    rw [List.filter_eq_nil_iff]
    simp [hlive]
  refine ⟨_, hmmap, ?_, by simp [hlive], rfl, by simp, ?_⟩
  · refine (Span.tiles_of_empty (fun s hs => ?_) 0).packs
    unfold pieces at hs
    rw [hnone] at hs
    obtain ⟨rg, hrg, rfl⟩ := List.mem_map.mp hs
    exact (hstale rg hrg).1
  · intro rg hrg
    have hempty := hstale rg (by rwa [area_eq hmmap])
    exact ⟨hempty.2, by omega⟩

/-- A region that is given out: what is left to show is that it is packed with the free regions of
the new area and all regions that were live. -/
lemma Packed.given {w w' : Tenancy} {v v' : VmArea} (h : w.Packed v) {r : ℤ} (hlo : 0 ≤ r)
    (hhi : r < pagingMaxSymtblSz) (hlive : w'.live = Function.update w.live r true)
    (hmmap : w'.pcb.caller.mm.mmap = [v']) {rg : VmRg}
    (hsym : w'.pcb.caller.mm.symrgtbl = Function.update w.pcb.caller.mm.symrgtbl r rg)
    (hpacks : Span.Packs ((w.liveIds.map w.pcb.caller.mm.symrgtbl).map VmRg.span ++
      rg.span :: v'.vmFreergList.map VmRg.span) 0 v'.vmEnd)
    (hsbrk : v'.sbrk = v'.vmEnd) (hsmall : v'.vmEnd < 2 ^ 31)
    (hfree : ∀ rg ∈ v'.vmFreergList, rg.Below (2 ^ 63 - 1)) : w'.Packed v' := by
  -- the region that the id had before is lost
  let others := Heap.rgids.filter fun s => w.live s && decide (s ≠ r)
  have hids : w'.liveIds.Perm (r :: others) := by
    refine Heap.filter_perm_of_update Heap.nodup_rgids (Heap.mem_rgids.mpr ⟨hlo, hhi⟩) (by simp)
      (by simp [hlive]) fun s hs => ?_
    simp [hlive, hs]
  have hsame : others.map w'.pcb.caller.mm.symrgtbl = others.map w.pcb.caller.mm.symrgtbl := by
    refine List.map_congr_left fun s hs => ?_
    have hne : s ≠ r := by
      have hs := (List.mem_filter.mp hs).2
      simp only [Bool.and_eq_true, decide_eq_true_eq] at hs
      exact hs.2
    rw [hsym, Function.update_of_ne hne]
  have hothers : others.Sublist w.liveIds :=
    List.monotone_filter_right _ fun s hs => (Bool.and_eq_true_iff.mp hs).1
  have hregions := hids.map w'.pcb.caller.mm.symrgtbl
  rw [List.map_cons, hsame, hsym, Function.update_self] at hregions
  have hpieces : w'.pieces.Perm
      (rg.span :: (others.map w.pcb.caller.mm.symrgtbl ++ v'.vmFreergList).map VmRg.span) := by
    unfold pieces
    rw [area_eq hmmap, hsym]
    exact (hregions.append_right v'.vmFreergList).map VmRg.span
  refine ⟨hmmap, hpacks.of_le fun a => ?_, fun s hs => ?_, hsbrk, hsmall, hfree⟩
  · rw [Span.cover_perm hpieces, List.map_append, ← Span.cover_perm List.perm_middle]
    exact Span.cover_le_of_sublist (((hothers.map _).map _).append_right _) a
  · rw [hlive] at hs
    by_cases hsr : s = r
    · exact hsr ▸ ⟨hlo, hhi⟩
    · rw [Function.update_of_ne hsr] at hs
      exact h.range s hs

/-! ## Steps -/

/-- `ALLOC` makes its region id live. -/
lemma exec_alloc (w : Tenancy) (build : Build) (size r : Word) :
    (w.exec build (.alloc size r)).pcb.caller = (w.pcb.caller.alloc 0 r.toInt size.toInt).2.2 ∧
      (w.exec build (.alloc size r)).live = Function.update w.live r.toInt true := by
  have hexec : w.exec build (.alloc size r) = ⟨(build.backEnd.alloc w.pcb size r).2,
      if (build.backEnd.alloc w.pcb size r).1 = 0 then Function.update w.live r.toInt true
      else w.live⟩ := rfl
  obtain ⟨hstatus, hcaller⟩ := build.alloc_eq w.pcb size r
  rw [hexec, if_pos hstatus]
  exact ⟨hcaller, rfl⟩

/-- `FREE` changes nothing, or it performs `__free`. -/
lemma exec_free (w : Tenancy) (build : Build) (r : Word) :
    w.exec build (.free r) = w ∨
      r.toNat ≤ pagingMaxSymtblSz ∧
        (w.exec build (.free r)).pcb.caller = (w.pcb.caller.free 0 r.toInt).2 ∧
        (w.exec build (.free r)).live = Function.update w.live r.toInt false := by
  have hexec : w.exec build (.free r) = ⟨(build.backEnd.free w.pcb r).2,
      if (build.backEnd.free w.pcb r).1 = 0 then Function.update w.live r.toInt false
      else w.live⟩ := rfl
  rw [hexec]
  rcases build.free_cases w.pcb r with ⟨⟨hstatus, -⟩, hpcb⟩ | ⟨hle, hstatus, hcaller⟩
  · rw [if_neg hstatus, hpcb]
    exact .inl rfl
  · rw [if_pos hstatus]
    exact .inr ⟨hle, hcaller, rfl⟩

/-- An allocation that meets the condition keeps the packing. -/
lemma Packed.exec_alloc {w : Tenancy} {v : VmArea} (h : w.Packed v) {build : Build} {size r : Word}
    (hok : w.StepOk (build, .alloc size r)) : ∃ v', (w.exec build (.alloc size r)).Packed v' := by
  obtain ⟨hr, hsize, hroom⟩ := hok
  obtain ⟨hcaller, hlive⟩ := w.exec_alloc build size r
  have hid := Pcb.toInt_of_lt hr
  have hint : size.toInt = (size.toNat : ℤ) := BitVec.toInt_eq_toNat_of_lt (by omega)
  rw [hid] at hcaller hlive
  rw [hint] at hcaller
  generalize w.exec build (.alloc size r) = w' at hcaller hlive ⊢
  have hlo : (0 : ℤ) ≤ size.toNat := Int.natCast_nonneg _
  have hhi : (size.toNat : ℤ) < 2 ^ 31 := by exact_mod_cast hsize
  rw [area_eq h.mmap] at hroom
  cases hfit : firstFit size.toNat v.vmFreergList with
  | some found =>
    -- the region is cut out of a free one
    obtain ⟨newrg, list⟩ := found
    obtain ⟨⟨rg, hrg, hnew, -⟩, hcover, hrest⟩ :=
      firstFit_eq_some hlo hhi (fun rg h' => (h.free rg h').1) hfit
    have hstart : newrg.rgStart < 2 ^ 63 := by
      rw [hnew]
      exact (h.free rg hrg).1
    rw [Caller.alloc_of_fits h.mmap hfit hstart] at hcaller
    have hsym : w'.pcb.caller.mm.symrgtbl =
        Function.update w.pcb.caller.mm.symrgtbl r.toNat newrg := by rw [hcaller]
    refine ⟨{ v with vmFreergList := list }, h.given (Int.natCast_nonneg _) hr hlive
      (by rw [hcaller]) hsym (h.packs.of_le fun a => ?_) h.sbrk h.small fun rg' h' => ?_⟩
    · rw [Span.cover_append_right _ hcover, ← List.map_append]
      unfold pieces
      rw [area_eq h.mmap]
    · obtain ⟨rg₀, hmem, hend, hfirst⟩ := hrest rg' h'
      exact (h.free rg₀ hmem).of_rest (by decide) hend hfirst
  | none =>
    -- the region and what is left of its last page are new
    have hgrow : v.vmEnd + (size.toNat + 255) / 256 * 256 < 2 ^ 31 := by
      rcases hroom with hroom | hroom
      · rw [hfit] at hroom
        cases hroom
      · exact hroom
    have hround : pagingPageAlignsz size.toNat = ((size.toNat : ℤ) + 255) / 256 * 256 :=
      Caller.pagingPageAlignsz_of_nonneg hlo (by omega)
    obtain ⟨incSz, hinc⟩ : ∃ incSz : ℕ, pagingPageAlignsz size.toNat = incSz :=
      ⟨(pagingPageAlignsz size.toNat).toNat, by omega⟩
    have hend : v.vmEnd + incSz < 2 ^ 31 := by omega
    have hbelow : v.vmEnd + incSz ≤ 2 ^ 63 - 1 := by omega
    rw [Caller.alloc_of_not_fits h.mmap h.sbrk hlo (by omega) hinc hend hfit,
      Int.toNat_natCast] at hcaller
    have hsym : w'.pcb.caller.mm.symrgtbl = Function.update w.pcb.caller.mm.symrgtbl r.toNat
        ⟨v.vmEnd, v.vmEnd + size.toNat⟩ := by rw [hcaller]
    refine ⟨Caller.grownArea v size.toNat incSz, h.given (Int.natCast_nonneg _) hr hlive
      (by rw [hcaller]) hsym
      ((h.packs.extend (Nat.zero_le _) (Nat.le_add_right _ incSz)).of_le fun a => ?_)
      rfl hend fun rg hrg => ?_⟩
    · rw [pieces, List.map_append, area_eq h.mmap, ← Span.cover_perm List.perm_middle]
      refine (congrFun (Span.cover_append_right _ ?_) a).le
      exact Caller.cover_grownArea v (by omega)
    · exact Caller.below_grownArea h.free hbelow (by omega) hrg

/-- A `FREE` that meets the condition keeps the packing: the id is live, or nothing happens. -/
lemma Packed.exec_free {w : Tenancy} {v : VmArea} (h : w.Packed v) {build : Build} {r : Word}
    (hok : w.StepOk (build, .free r)) : ∃ v', (w.exec build (.free r)).Packed v' := by
  rcases w.exec_free build r with hsame | ⟨hle, hcaller, hlive⟩
  · rw [hsame]
    exact ⟨v, h⟩
  have hid : r.toInt = r.toNat := BitVec.toInt_eq_toNat_of_lt (by
    have hle : (r.toNat : ℤ) ≤ 30 := hle
    omega)
  have hok : w.live r.toInt = true ∨ pagingMaxSymtblSz < r.toNat ∨
      (w.pcb.caller.mm.symrgtbl r.toInt).rgEnd ≤ (w.pcb.caller.mm.symrgtbl r.toInt).rgStart := hok
  rw [hid] at hcaller hlive hok
  generalize w.exec build (.free r) = w' at hcaller hlive ⊢
  rw [Caller.free_of_valid h.mmap 0 (Int.natCast_nonneg _) hle] at hcaller
  have hsym : w'.pcb.caller.mm.symrgtbl = w.pcb.caller.mm.symrgtbl := by rw [hcaller]
  have hkept : ∀ s, w'.live s = true → w.live s = true := by
    intro s hs
    rw [hlive] at hs
    by_cases hsr : s = r.toNat
    · subst hsr
      simp at hs
    · rwa [Function.update_of_ne hsr] at hs
  have hids : w'.liveIds.Sublist w.liveIds := List.monotone_filter_right _ hkept
  by_cases hempty : (w.pcb.caller.mm.symrgtbl r.toNat).rgEnd ≤
      (w.pcb.caller.mm.symrgtbl r.toNat).rgStart
  · -- an empty region is not put on the list
    rw [if_pos hempty, ← h.mmap] at hcaller
    have hmmap : w'.pcb.caller.mm.mmap = [v] := by rw [hcaller, h.mmap]
    refine ⟨v, hmmap, h.packs.of_le fun a => ?_, fun s hs => h.range s (hkept s hs), h.sbrk,
      h.small, h.free⟩
    unfold pieces
    rw [area_eq hmmap, area_eq h.mmap, hsym]
    exact Span.cover_le_of_sublist (((hids.map _).append_right _).map _) a
  · -- the region moves from the live to the free ones
    have hused : w.live r.toNat = true := by
      rcases hok with hok | hok | hok
      · exact hok
      · exact absurd hle (not_le.mpr hok)
      · exact absurd hok hempty
    rw [if_neg hempty] at hcaller
    have hmem : (r.toNat : ℤ) ∈ Heap.rgids := Heap.mem_rgids.mpr (h.range _ hused)
    have hperm : w.liveIds.Perm (r.toNat :: w'.liveIds) := by
      refine Heap.filter_perm_of_update Heap.nodup_rgids hmem (by simp [hlive]) hused
        fun s hs => ?_
      rw [hlive, Function.update_of_ne hs]
    have hmmap : w'.pcb.caller.mm.mmap = [{ v with
        vmFreergList := w.pcb.caller.mm.symrgtbl r.toNat :: v.vmFreergList }] := by rw [hcaller]
    have hpieces : w.pieces.Perm w'.pieces := by
      unfold pieces
      rw [area_eq hmmap, area_eq h.mmap, hsym]
      refine (((hperm.map _).append_right _).trans ?_).map _
      exact List.perm_middle.symm
    have hend : (w.pcb.caller.mm.symrgtbl r.toNat).rgEnd ≤ v.vmEnd := by
      have hpiece : (w.pcb.caller.mm.symrgtbl r.toNat).span ∈ w.pieces :=
        List.mem_map_of_mem (List.mem_append_left _ (List.mem_map_of_mem
          (List.mem_filter.mpr ⟨hmem, hused⟩)))
      exact h.packs.le_of_mem hpiece (not_le.mp hempty)
    have hsmall := h.small
    have hbelow : (w.pcb.caller.mm.symrgtbl r.toNat).Below (2 ^ 63 - 1) :=
      ⟨by omega, by omega⟩
    refine ⟨_, hmmap, h.packs.of_le fun a => (congrFun (Span.cover_perm hpieces) a).ge,
      fun s hs => h.range s (hkept s hs), h.sbrk, h.small, fun rg hrg => ?_⟩
    rcases List.mem_cons.mp hrg with rfl | hrg
    · exact hbelow
    · exact h.free rg hrg

/-- In every run in which each instruction meets the condition, live regions do not overlap.  That a
region id is not live makes no call refuse to free it: both do so exactly for the ids above the
size of the symbol table. -/
theorem apart_and_refusesFree_iff {w : Tenancy}
    (hw : ((tenancySystem.startIn NoStale).restrict StepOk).Reachable w) :
    w.Apart ∧
      ∀ r : Word, (∀ build : Build, build.RefusesFree w.pcb r) ↔ pagingMaxSymtblSz < r.toNat := by
  have hpacked : ∃ v, w.Packed v := by
    refine hw.invariant_restrict (I := fun w => ∃ v, w.Packed v)
      (fun w (hstart : tenancySystem.start w ∧ w.NoStale) => packed_of_start hstart.1 hstart.2) ?_
    rintro w ⟨build, a⟩ w' ⟨v, h⟩ rfl hok
    cases a with
    | alloc size r => exact h.exec_alloc hok
    | free r => exact h.exec_free hok
  obtain ⟨v, hv⟩ := hpacked
  exact ⟨hv.apart, fun r => refusesFree_iff w.pcb r⟩

/-- A process after `init_mm`, with `ram` bytes of RAM. -/
def fresh (ram swp : ℤ) : Tenancy :=
  ⟨(TlbSys.fresh (fun _ : Unit => 1) ram swp).pcb (), fun _ => false⟩

lemma start_fresh (ram swp : ℤ) : tenancySystem.start (fresh ram swp) := ⟨⟨_, _, rfl⟩, rfl⟩

/-- A region that is given out again after it was freed. -/
theorem apart_and_refusesFree_iff_three_calls :
    ((((fresh 1024 0).exec .tlb (.alloc 300 0)).exec .paging (.free 0)).exec .tlb
      (.alloc 300 1)).Apart ∧
    ∀ r : Word, (∀ build : Build, build.RefusesFree ((((fresh 1024 0).exec .tlb (.alloc 300 0)).exec
      .paging (.free 0)).exec .tlb (.alloc 300 1)).pcb r) ↔ pagingMaxSymtblSz < r.toNat := by
  have hstart : (tenancySystem.startIn NoStale).start (fresh 1024 0) :=
    ⟨start_fresh 1024 0, by unfold NoStale; decide⟩
  have hfirst : ((tenancySystem.startIn NoStale).restrict StepOk).Reachable
      ((fresh 1024 0).exec .tlb (.alloc 300 0)) :=
    .step (.start hstart) (a := (.tlb, .alloc 300 0))
      ⟨rfl, by decide, by decide, .inr (by decide)⟩
  have hsecond : ((tenancySystem.startIn NoStale).restrict StepOk).Reachable
      (((fresh 1024 0).exec .tlb (.alloc 300 0)).exec .paging (.free 0)) :=
    .step hfirst (a := (.paging, .free 0)) ⟨rfl, .inl rfl⟩
  exact apart_and_refusesFree_iff (.step hsecond (a := (.tlb, .alloc 300 1))
    ⟨rfl, by decide, by decide, .inr (by decide +kernel)⟩)

/-- The steps of `tenancySystem` as a function. -/
def next (w : Tenancy) (a : Build × RegionInst) : Option Tenancy := some (w.exec a.1 a.2)

lemma step_of_next (w : Tenancy) (a : Build × RegionInst) (w' : Tenancy) (h : w.next a = some w') :
    tenancySystem.step w a w' :=
  (Option.some.inj h).symm

/-- A region of 300 bytes that was freed is freed again by both versions of `FREE`, and when it was
freed twice, the next two allocations of 300 bytes both get it. -/
theorem not_refusesFree_not_apart :
    (∀ build : Build, ¬ ∀ w, tenancySystem.Reachable w → ∀ r : Word, w.live r.toInt = false →
      build.RefusesFree w.pcb r) ∧ ¬ ∀ w, tenancySystem.Reachable w → w.Apart := by
  constructor
  · intro build h
    obtain ⟨w, hw, hP⟩ := LTS.exists_reachable_of_exec (T := tenancySystem) next step_of_next
      (fun w => !w.live 0 && decide ((build.backEnd.free w.pcb 0).1 = 0))
      [(build, .alloc 300 0), (build, .free 0)] (start_fresh 1024 0)
      (by cases build <;> decide +kernel)
    simp only [Bool.and_eq_true, Bool.not_eq_true', decide_eq_true_eq] at hP
    exact (h w hw 0 hP.1).1 hP.2
  · intro h
    obtain ⟨w, hw, hP⟩ := LTS.exists_reachable_of_exec (T := tenancySystem) next step_of_next
      (fun w => (w.live 1 && w.live 2) &&
        decide ((w.pcb.caller.mm.symrgtbl 1).span.Contains 0 ∧
          (w.pcb.caller.mm.symrgtbl 2).span.Contains 0))
      [(.tlb, .alloc 300 0), (.tlb, .free 0), (.tlb, .free 0), (.tlb, .alloc 300 1),
        (.tlb, .alloc 300 2)] (start_fresh 1024 0) (by decide +kernel)
    simp only [Bool.and_eq_true, decide_eq_true_eq] at hP
    obtain ⟨⟨hlive, hlive'⟩, hin, hin'⟩ := hP
    exact h w hw 1 2 hlive hlive' (by decide) 0 hin hin'

end Tenancy

end Ossim
