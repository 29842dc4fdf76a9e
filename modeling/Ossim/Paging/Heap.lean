import Ossim.Lib.Transition
import Ossim.Paging.Regions

/-!
# The heap of a process

A process calls `__alloc` for region ids that are not in use and `__free` for those that are.  The
regions in use and the free regions tile the area of the process: no byte is lost and
none is given out twice, in all runs in which two things do not happen (`heap_partition`).  The
first free region that `init_mm` makes must not be linked to a stale one, since the list it is put
on was never initialised; and the size that `__alloc` rounds up must not overflow an `int`.
-/

namespace Ossim

/-- A process and the sizes it asked for: `none` for an id that is not in use. -/
structure Heap where
  /-- The process and the devices. -/
  caller : Caller
  /-- The requested size of each live region. -/
  live : ℤ → Option ℤ

/-- The two calls that give out and take back regions of area 0. -/
inductive HeapCall
  | alloc (rgid size : ℤ)
  | free (rgid : ℤ)
  deriving DecidableEq

namespace Heap

/-- The heap after a call.  `__alloc` reports success whatever happens, and so does `__free` for
an id in use. -/
def call (w : Heap) : HeapCall → Heap
  | .alloc rgid size =>
    ⟨(w.caller.alloc 0 rgid size).2.2, Function.update w.live rgid (some size)⟩
  | .free rgid => ⟨(w.caller.free 0 rgid).2, Function.update w.live rgid none⟩

/-- The calls of a process that uses region ids as it should. -/
def Valid (w : Heap) : HeapCall → Prop
  | .alloc rgid size =>
    0 ≤ rgid ∧ rgid < pagingMaxSymtblSz ∧ w.live rgid = none ∧ 1 ≤ size ∧ size < 2 ^ 31
  | .free rgid => w.live rgid ≠ none

instance (w : Heap) (a : HeapCall) : Decidable (w.Valid a) := by
  cases a <;> dsimp only [Valid] <;> infer_instance

/-- The area of the process. -/
def area (w : Heap) : VmArea := w.caller.mm.curVma 0

/-- The entries of the symbol table. -/
def rgids : List ℤ := (List.range pagingMaxSymtblSz.toNat).map fun i : ℕ => (i : ℤ)

/-- The region ids in use. -/
def liveIds (w : Heap) : List ℤ := rgids.filter fun r => (w.live r).isSome

/-- The regions in use and the free regions. -/
def pieces (w : Heap) : List (Span ℕ) :=
  (w.liveIds.map w.caller.mm.symrgtbl ++ w.area.vmFreergList).map VmRg.span

/-- The regions in use and the free regions partition the heap. -/
structure Partition (w : Heap) : Prop where
  /-- No two of them overlap. -/
  disjoint : w.pieces.Pairwise Span.Disjoint
  /-- Together they are the bytes below `vm_end`. -/
  union : ∀ a, (∃ s ∈ w.pieces, s.Contains a) ↔ a < w.area.vmEnd
  /-- Each region in use is as long as requested. -/
  length : ∀ r size, w.live r = some size →
    ((w.caller.mm.symrgtbl r).rgEnd : ℤ) = (w.caller.mm.symrgtbl r).rgStart + size
  /-- The break is at the end. -/
  sbrk : w.area.sbrk = w.area.vmEnd
  /-- The area consists of whole pages. -/
  aligned : pagingPagesz ∣ w.area.vmEnd

end Heap

/-- The calls of one process after `init_mm`, as long as `vm_end` stays below `2 ^ 31`. -/
def heapSystem : LTS Heap HeapCall where
  start w := (∃ mm freerg, w.caller.mm = initMm mm freerg) ∧ w.live = fun _ => none
  step w a w' := w.Valid a ∧ w' = w.call a ∧ w'.area.vmEnd < 2 ^ 31

namespace Heap

/-- The free list holds no stale region: none that contains a byte, or to which adding a size
overflows. -/
def NoStale (w : Heap) : Prop :=
  ∀ rg ∈ w.area.vmFreergList, rg.rgEnd ≤ rg.rgStart ∧ rg.rgStart < 2 ^ 63

/-- A free region fits, or rounding the size up to whole pages does not overflow. -/
def StepOk (w : Heap) : HeapCall → Prop
  | .alloc _ size => (firstFit size w.area.vmFreergList).isSome ∨ size < 2 ^ 31 - 255
  | .free _ => True

/-! ## Pieces after a call -/

/-- One more id in use. -/
lemma filter_perm_of_update {α : Type*} [DecidableEq α] {l : List α} (hl : l.Nodup) {a : α}
    (ha : a ∈ l) {p q : α → Bool} (hp : p a = false) (hq : q a = true)
    (hsame : ∀ b, b ≠ a → q b = p b) : (l.filter q).Perm (a :: l.filter p) := by
  have hperm := List.perm_cons_erase ha
  have hrest : (l.erase a).filter q = (l.erase a).filter p := by
    refine List.filter_congr fun b hb => hsame b ?_
    rintro rfl
    exact hl.not_mem_erase hb
  have hp' := hperm.filter p
  have hq' := hperm.filter q
  rw [List.filter_cons_of_neg (by simp [hp])] at hp'
  rw [List.filter_cons_of_pos hq, hrest] at hq'
  exact hq'.trans (hp'.symm.cons a)

lemma nodup_rgids : rgids.Nodup := by decide

lemma mem_rgids {r : ℤ} : r ∈ rgids ↔ 0 ≤ r ∧ r < pagingMaxSymtblSz := by
  constructor
  · intro h
    obtain ⟨i, hi, rfl⟩ := List.mem_map.mp h
    have hlt := List.mem_range.mp hi
    omega
  · rintro ⟨hlo, hhi⟩
    exact List.mem_map.mpr ⟨r.toNat, List.mem_range.mpr (by omega), by omega⟩

/-- The pieces after a region was given out: the new region, the other regions in use and the free
regions. -/
lemma cover_pieces_alloc {w w' : Heap} {rgid size : ℤ} {rg : VmRg} (hlo : 0 ≤ rgid)
    (hhi : rgid < pagingMaxSymtblSz) (hfree : w.live rgid = none)
    (hlive : w'.live = Function.update w.live rgid (some size))
    (hsym : w'.caller.mm.symrgtbl = Function.update w.caller.mm.symrgtbl rgid rg) :
    Span.cover w'.pieces = Span.cover
      ((w.liveIds.map w.caller.mm.symrgtbl).map VmRg.span ++
        rg.span :: w'.area.vmFreergList.map VmRg.span) := by
  have hids : w'.liveIds.Perm (rgid :: w.liveIds) := by
    refine filter_perm_of_update nodup_rgids (mem_rgids.mpr ⟨hlo, hhi⟩) (by simp [hfree])
      (by simp [hlive]) fun b hb => ?_
    rw [hlive, Function.update_of_ne hb]
  have hsame : w.liveIds.map w'.caller.mm.symrgtbl = w.liveIds.map w.caller.mm.symrgtbl := by
    refine List.map_congr_left fun r hr => ?_
    have hused := (List.mem_filter.mp hr).2
    rw [hsym, Function.update_of_ne]
    rintro rfl
    simp [hfree] at hused
  have hregions := hids.map w'.caller.mm.symrgtbl
  rw [List.map_cons, hsame, hsym, Function.update_self] at hregions
  have hpieces := (hregions.append_right w'.area.vmFreergList).map VmRg.span
  rw [← hsym] at hpieces
  refine Span.cover_perm (hpieces.trans ?_)
  rw [List.cons_append, List.map_cons, List.map_append]
  exact List.perm_middle.symm

/-- The pieces before a region is taken back: the region, the other regions in use and the free
regions. -/
lemma cover_pieces_free {w w' : Heap} {rgid : ℤ} (hlo : 0 ≤ rgid) (hhi : rgid < pagingMaxSymtblSz)
    (hused : w.live rgid ≠ none) (hlive : w'.live = Function.update w.live rgid none)
    (hsym : w'.caller.mm.symrgtbl = w.caller.mm.symrgtbl) :
    Span.cover w.pieces = Span.cover
      ((w'.liveIds.map w'.caller.mm.symrgtbl).map VmRg.span ++
        (w.caller.mm.symrgtbl rgid).span :: w.area.vmFreergList.map VmRg.span) := by
  have hids : w.liveIds.Perm (rgid :: w'.liveIds) := by
    refine filter_perm_of_update nodup_rgids (mem_rgids.mpr ⟨hlo, hhi⟩) (by simp [hlive])
      (by simpa [Option.isSome_iff_ne_none] using hused) fun b hb => ?_
    rw [hlive, Function.update_of_ne hb]
  have hpieces := ((hids.map w.caller.mm.symrgtbl).append_right w.area.vmFreergList).map VmRg.span
  refine Span.cover_perm (hpieces.trans ?_)
  rw [hsym, List.map_cons, List.cons_append, List.map_cons, List.map_append]
  exact List.perm_middle.symm

/-! ## The invariant -/

/-- The pieces tile the only area of the process. -/
structure Tiled (w : Heap) (v : VmArea) : Prop where
  /-- The only area. -/
  mmap : w.caller.mm.mmap = [v]
  /-- The regions in use and the free regions tile it. -/
  tiles : Span.Tiles w.pieces 0 v.vmEnd
  /-- Each region in use is as long as requested, at least one byte. -/
  length : ∀ r size, w.live r = some size → 1 ≤ size ∧
    ((w.caller.mm.symrgtbl r).rgEnd : ℤ) = (w.caller.mm.symrgtbl r).rgStart + size
  /-- The ids in use are entries of the symbol table. -/
  range : ∀ r, w.live r ≠ none → 0 ≤ r ∧ r < pagingMaxSymtblSz
  /-- The break is at the end. -/
  sbrk : v.sbrk = v.vmEnd
  /-- The area consists of whole pages. -/
  aligned : pagingPagesz ∣ v.vmEnd
  /-- The end is an `int`. -/
  small : v.vmEnd < 2 ^ 31
  /-- Adding a size to the start of a free region does not overflow. -/
  free : ∀ rg ∈ v.vmFreergList, rg.Below (2 ^ 63 - 1)

lemma area_eq {w : Heap} {v : VmArea} (hv : w.caller.mm.mmap = [v]) : w.area = v :=
  Caller.curVma_single hv

lemma Tiled.partition {w : Heap} {v : VmArea} (h : w.Tiled v) : w.Partition where
  disjoint := h.tiles.pairwise_disjoint
  union a := by
    rw [h.tiles.exists_contains_iff, area_eq h.mmap]
    simp
  length r size hr := (h.length r size hr).2
  sbrk := by
    rw [area_eq h.mmap]
    exact h.sbrk
  aligned := by
    rw [area_eq h.mmap]
    exact h.aligned

/-- The heap after `init_mm` has no bytes. -/
lemma tiled_of_start {w : Heap} (h : heapSystem.start w) (hstale : w.NoStale) :
    ∃ v, w.Tiled v := by
  obtain ⟨⟨mm, freerg, hmm⟩, hlive⟩ := h
  have hmmap : w.caller.mm.mmap = [⟨1, 0, 0, 0, ⟨0, 0⟩ :: freerg⟩] := by
    rw [hmm]
    rfl
  have hnone : w.liveIds = [] := by
    unfold liveIds
    rw [List.filter_eq_nil_iff]
    simp [hlive]
  refine ⟨_, hmmap, ?_, by simp [hlive], by simp [hlive], rfl, by simp, by simp, ?_⟩
  · refine Span.tiles_of_empty (fun s hs => ?_) 0
    unfold pieces at hs
    rw [hnone] at hs
    obtain ⟨rg, hrg, rfl⟩ := List.mem_map.mp hs
    exact (hstale rg hrg).1
  · intro rg hrg
    have hempty := hstale rg (by rwa [area_eq hmmap])
    exact ⟨hempty.2, by omega⟩

/-- A region that is given out: what is left to show is that the pieces tile the new area. -/
lemma Tiled.given {w w' : Heap} {v v' : VmArea} (h : w.Tiled v) {rgid size : ℤ}
    (hvalid : w.Valid (.alloc rgid size))
    (hlive : w'.live = Function.update w.live rgid (some size))
    (hmmap : w'.caller.mm.mmap = [v']) {start : ℕ}
    (hsym : w'.caller.mm.symrgtbl = Function.update w.caller.mm.symrgtbl rgid
      ⟨start, start + size.toNat⟩)
    (htiles : Span.Tiles ((w.liveIds.map w.caller.mm.symrgtbl).map VmRg.span ++
      ⟨start, start + size.toNat⟩ :: v'.vmFreergList.map VmRg.span) 0 v'.vmEnd)
    (hsbrk : v'.sbrk = v'.vmEnd) (haligned : pagingPagesz ∣ v'.vmEnd)
    (hsmall : v'.vmEnd < 2 ^ 31) (hfree : ∀ rg ∈ v'.vmFreergList, rg.Below (2 ^ 63 - 1)) :
    w'.Tiled v' := by
  obtain ⟨hlo, hhi, hnone, hpos, -⟩ := hvalid
  refine ⟨hmmap, htiles.congr ?_, fun r n hr => ?_, fun r hr => ?_, hsbrk, haligned, hsmall, hfree⟩
  · rw [cover_pieces_alloc hlo hhi hnone hlive hsym, area_eq hmmap]
    rfl
  · rw [hlive] at hr
    rw [hsym]
    by_cases hrgid : r = rgid
    · subst hrgid
      rw [Function.update_self] at hr ⊢
      obtain rfl := Option.some.inj hr
      refine ⟨hpos, ?_⟩
      push_cast
      omega
    · rw [Function.update_of_ne hrgid] at hr ⊢
      exact h.length r n hr
  · rw [hlive] at hr
    by_cases hrgid : r = rgid
    · exact hrgid ▸ ⟨hlo, hhi⟩
    · rw [Function.update_of_ne hrgid] at hr
      exact h.range r hr

/-- A region that fits is cut out of a free region. -/
lemma Tiled.alloc_of_fits {w : Heap} {v : VmArea} (h : w.Tiled v) {rgid size : ℤ}
    (hvalid : w.Valid (.alloc rgid size)) {newrg : VmRg} {list : List VmRg}
    (hfit : firstFit size v.vmFreergList = some (newrg, list)) :
    ∃ v', (w.call (.alloc rgid size)).Tiled v' := by
  have hpos : 1 ≤ size := hvalid.2.2.2.1
  obtain ⟨⟨rg, hrg, rfl, hfits⟩, hcover, hrest⟩ :=
    firstFit_eq_some (by omega) hvalid.2.2.2.2 (fun rg h' => (h.free rg h').1) hfit
  have halloc := Caller.alloc_of_fits h.mmap hfit (h.free rg hrg).1 rgid
  have hcaller : (w.call (.alloc rgid size)).caller = (w.caller.alloc 0 rgid size).2.2 := rfl
  rw [halloc] at hcaller
  refine ⟨{ v with vmFreergList := list }, h.given hvalid rfl (by rw [hcaller]) (by rw [hcaller])
    (h.tiles.congr ?_) h.sbrk h.aligned h.small fun rg' h' => ?_⟩
  · rw [pieces, List.map_append, area_eq h.mmap]
    exact Span.cover_append_right _ hcover
  · obtain ⟨rg₀, hmem, hend, hstart⟩ := hrest rg' h'
    exact (h.free rg₀ hmem).of_rest (by decide) hend hstart

/-- When no region fits, the area grows by whole pages; the region and what is left of its last page
tile the new part. -/
lemma Tiled.alloc_of_not_fits {w : Heap} {v : VmArea} (h : w.Tiled v) {rgid size : ℤ}
    (hvalid : w.Valid (.alloc rgid size)) (hsize : size < 2 ^ 31 - 255)
    (hend : (w.call (.alloc rgid size)).area.vmEnd < 2 ^ 31)
    (hfit : firstFit size v.vmFreergList = none) :
    ∃ v', (w.call (.alloc rgid size)).Tiled v' := by
  have hpos : 1 ≤ size := hvalid.2.2.2.1
  have hround := Caller.pagingPageAlignsz_of_nonneg (by omega) hsize
  obtain ⟨incSz, hinc⟩ : ∃ incSz : ℕ, pagingPageAlignsz size = incSz :=
    ⟨(pagingPageAlignsz size).toNat, by omega⟩
  have hcaller : (w.call (.alloc rgid size)).caller = (w.caller.alloc 0 rgid size).2.2 := rfl
  have hsmall : v.vmEnd + incSz < 2 ^ 31 := by
    obtain ⟨⟨list, hmmap⟩, -⟩ := Caller.alloc_at_brk h.mmap hfit rgid
    rw [← hcaller] at hmmap
    rw [area_eq hmmap, hinc] at hend
    have hv := h.small
    dsimp only at hend
    unfold ulong at hend
    omega
  rw [Caller.alloc_of_not_fits h.mmap h.sbrk (by omega) hsize hinc hsmall hfit] at hcaller
  have haligned := h.aligned
  rw [pagingPagesz_eq] at haligned
  refine ⟨Caller.grownArea v size.toNat incSz, h.given hvalid rfl (by rw [hcaller])
    (by rw [hcaller]) ((h.tiles.extend (Nat.zero_le _) (Nat.le_add_right _ incSz)).congr ?_)
    rfl ?_ hsmall fun rg hrg => ?_⟩
  · rw [pieces, List.map_append, area_eq h.mmap, ← Span.cover_perm List.perm_middle]
    refine Span.cover_append_right _ ?_
    exact Caller.cover_grownArea v (by omega)
  · show pagingPagesz ∣ v.vmEnd + incSz
    rw [pagingPagesz_eq]
    omega
  · exact Caller.below_grownArea h.free (by omega) (by omega) hrg

/-- A region that is taken back becomes a free region. -/
lemma Tiled.free_call {w : Heap} {v : VmArea} (h : w.Tiled v) {rgid : ℤ}
    (hused : w.live rgid ≠ none) : ∃ v', (w.call (.free rgid)).Tiled v' := by
  obtain ⟨hlo, hhi⟩ := h.range rgid hused
  obtain ⟨size, hsize⟩ := Option.ne_none_iff_exists'.mp hused
  obtain ⟨hpos, hlength⟩ := h.length rgid size hsize
  have hne : ¬ (w.caller.mm.symrgtbl rgid).rgEnd ≤ (w.caller.mm.symrgtbl rgid).rgStart := by omega
  have hfree := Caller.free_of_valid h.mmap 0 hlo hhi.le
  rw [if_neg hne] at hfree
  have hcaller : (w.call (.free rgid)).caller = (w.caller.free 0 rgid).2 := rfl
  have hlive : (w.call (.free rgid)).live = Function.update w.live rgid none := rfl
  generalize w.call (.free rgid) = w' at hcaller hlive ⊢
  rw [hfree] at hcaller
  have hsym : w'.caller.mm.symrgtbl = w.caller.mm.symrgtbl := by rw [hcaller]
  have hmmap : w'.caller.mm.mmap =
      [{ v with vmFreergList := w.caller.mm.symrgtbl rgid :: v.vmFreergList }] := by rw [hcaller]
  have hkept : ∀ r n, w'.live r = some n → w.live r = some n := by
    intro r n hr
    rw [hlive] at hr
    by_cases hrgid : r = rgid
    · subst hrgid
      simp at hr
    · rwa [Function.update_of_ne hrgid] at hr
  have hend : (w.caller.mm.symrgtbl rgid).rgEnd ≤ v.vmEnd := by
    refine h.tiles.le_of_mem (s := (w.caller.mm.symrgtbl rgid).span) ?_ (not_le.mp hne)
    refine List.mem_map_of_mem (List.mem_append_left _ (List.mem_map_of_mem ?_))
    exact List.mem_filter.mpr ⟨mem_rgids.mpr ⟨hlo, hhi⟩, by simp [hsize]⟩
  have hsmall := h.small
  refine ⟨_, hmmap, h.tiles.congr ?_, fun r n hr => ?_, fun r hr => ?_, h.sbrk, h.aligned,
    h.small, fun rg hrg => ?_⟩
  · rw [cover_pieces_free hlo hhi hused hlive hsym, pieces, area_eq hmmap, List.map_append,
      area_eq h.mmap]
    rfl
  · rw [hsym]
    exact h.length r n (hkept r n hr)
  · obtain ⟨n, hn⟩ := Option.ne_none_iff_exists'.mp hr
    exact h.range r (by simp [hkept r n hn])
  · rcases List.mem_cons.mp hrg with rfl | hrg
    · exact ⟨by omega, by omega⟩
    · exact h.free rg hrg

/-- Every call that meets the condition keeps the tiling. -/
lemma Tiled.step {w w' : Heap} {a : HeapCall} {v : VmArea} (h : w.Tiled v)
    (ht : heapSystem.step w a w') (hok : w.StepOk a) : ∃ v', w'.Tiled v' := by
  obtain ⟨hvalid, rfl, hend⟩ := ht
  cases a with
  | alloc rgid size =>
    cases hfit : firstFit size v.vmFreergList with
    | some found => exact h.alloc_of_fits hvalid hfit
    | none =>
      have hsize : size < 2 ^ 31 - 255 := by
        rcases hok with hok | hok
        · rw [area_eq h.mmap, hfit] at hok
          simp at hok
        · exact hok
      exact h.alloc_of_not_fits hvalid hsize hend hfit
  | free rgid => exact h.free_call hvalid

/-! ## Runs -/

/-- The regions in use and the free regions partition the heap, in every run that starts without
stale free regions and in which no size overflows when it is rounded up. -/
theorem heap_partition {w : Heap}
    (hw : ((heapSystem.startIn NoStale).restrict StepOk).Reachable w) : w.Partition := by
  have htiled : ∃ v, w.Tiled v :=
    hw.invariant_restrict (I := fun w => ∃ v, w.Tiled v)
      (fun _ (h : heapSystem.start _ ∧ NoStale _) => tiled_of_start h.1 h.2)
      fun _ _ _ ⟨_, h⟩ ht hok => h.step ht hok
  obtain ⟨v, hv⟩ := htiled
  exact hv.partition

/-- A process after `init_mm`, with `ram` bytes of RAM. -/
def fresh (ram swp : ℤ) : Heap := ⟨(MemSys.fresh Unit ram swp).caller (), fun _ => none⟩

lemma start_fresh (ram swp : ℤ) : heapSystem.start (fresh ram swp) := ⟨⟨_, _, rfl⟩, rfl⟩

/-- Three allocations and a release, the second allocation served from what the first one left. -/
theorem heap_partition_four_calls :
    (((((fresh 1024 0).call (.alloc 0 300)).call (.alloc 1 10)).call (.free 0)).call
      (.alloc 2 400)).Partition := by
  have hstart : (heapSystem.startIn NoStale).start (fresh 1024 0) :=
    ⟨start_fresh 1024 0, by unfold NoStale; decide⟩
  have hfirst : ((heapSystem.startIn NoStale).restrict StepOk).Reachable
      ((fresh 1024 0).call (.alloc 0 300)) :=
    .step (.start hstart) (a := .alloc 0 300) ⟨⟨by decide, rfl, by decide⟩, .inr (by decide)⟩
  have hsecond : ((heapSystem.startIn NoStale).restrict StepOk).Reachable
      (((fresh 1024 0).call (.alloc 0 300)).call (.alloc 1 10)) :=
    .step hfirst (a := .alloc 1 10) ⟨⟨by decide, rfl, by decide⟩, .inr (by decide)⟩
  have hthird : ((heapSystem.startIn NoStale).restrict StepOk).Reachable
      ((((fresh 1024 0).call (.alloc 0 300)).call (.alloc 1 10)).call (.free 0)) :=
    .step hsecond (a := .free 0) ⟨⟨by decide, rfl, by decide⟩, trivial⟩
  exact heap_partition (.step hthird (a := .alloc 2 400)
    ⟨⟨by decide, rfl, by decide⟩, .inr (by decide)⟩)

/-- The steps of `heapSystem` as a partial function. -/
def next (w : Heap) (a : HeapCall) : Option Heap :=
  if w.Valid a ∧ (w.call a).area.vmEnd < 2 ^ 31 then some (w.call a) else none

lemma step_of_next (w : Heap) (a : HeapCall) (w' : Heap) (h : w.next a = some w') :
    heapSystem.step w a w' := by
  unfold next at h
  split at h
  · next hvalid =>
    cases h
    exact ⟨hvalid.1, rfl, hvalid.2⟩
  · cases h

/-- A region that ends one page below `2 ^ 31` and then one of `2 ^ 31 - 254` bytes: the size that
is rounded up overflows, the end of the area goes back to 0, and the first region lies behind it.
-/
theorem heap_not_partition : ¬ ∀ w, heapSystem.Reachable w → w.Partition := by
  intro h
  obtain ⟨w, hw, hP⟩ := LTS.exists_reachable_of_exec (T := heapSystem) next step_of_next
    (fun w => (w.area.vmEnd = 0) && decide (∃ s ∈ w.pieces, s.Contains 0))
    [.alloc 0 (2 ^ 31 - 256), .alloc 1 (2 ^ 31 - 254)] (start_fresh 512 0) (by decide +kernel)
  simp only [Bool.and_eq_true, decide_eq_true_eq] at hP
  have hlt := ((h w hw).union 0).mp hP.2
  omega

end Heap

end Ossim
