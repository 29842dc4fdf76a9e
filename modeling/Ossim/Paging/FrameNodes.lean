import Ossim.Lib.Linked
import Ossim.Paging.Requests

/-!
# The nodes of gathered frames

`alloc_pages_range` of `src/mm.c` gathers frames on a chain of `struct framephy_struct` nodes, which
`vmap_page_range` walks along and frees.  Here both work on the nodes, and fail when they read,
write or free a node that is not allocated, or follow `NULL`.  `Ossim.Paging.Mm` has the chain as a
list.

`mapAll_leak` is about any number of calls of `vm_map_ram`: no such access happens, each call does
what it does to the list, and each leaves exactly one node behind that nothing points to.
-/

namespace Ossim

/-- The memory for `struct framephy_struct` nodes, which hold a frame number. -/
abbrev FrameMem := LinkedHeap.Heap ℕ

namespace Caller

/-- The clean-up loop of `alloc_pages_range`, with a bound on its turns; `none` when the bound is
reached or a node is not allocated. -/
def freeNodes : ℕ → FrameMem → Option ℕ → Option (FrameMem)
  | _, h, none => some h
  | 0, _, some _ => none
  | n + 1, h, some freefp => do
    let node ← h.load freefp
    let h ← h.release freefp
    freeNodes n h node.next

/-- The error branch of `alloc_pages_range`.  The loop may take as many turns as there are cells. -/
def allocPagesFailNodes (c : Caller) (h : FrameMem) (frmLst : Option ℕ) :
    Option (ℤ × Option ℕ × Caller × FrameMem) :=
  if frmLst = none then some (-1, none, c, h)
  else (freeNodes h.brk h frmLst).map fun h => (-3000, none, c, h)

/-- The loop of `alloc_pages_range` on the nodes: status, `*frm_lst`, caller and memory. -/
def allocPagesNodes : ℕ → FrameMem → Option ℕ → Caller → Option (ℤ × Option ℕ × Caller × FrameMem)
  | 0, h, frmLst, c => some (0, frmLst, c, h)
  | n + 1, h, frmLst, c =>
    let newfp := h.brk
    let h := h.malloc
    match c.mram.getFreefp with
    | some (fpn, mram) => do
      let h ← h.assign newfp ⟨fpn, frmLst⟩
      allocPagesNodes n h (some newfp) { c with mram := mram }
    | none =>
      -- the new node is not on the list yet, and the error branch does not free it
      match findVictimPage c.mm with
      | none => c.allocPagesFailNodes h frmLst
      | some (victimPage, mm) =>
        match c.activeMswp.getFreefp with
        | none => { c with mm := mm }.allocPagesFailNodes h frmLst
        | some (swpfpn, mswp) => do
          let c : Caller := { c with mm := mm, activeMswp := mswp }
          let h ← h.assign newfp ⟨pagingFpn (c.mm.pgd victimPage), frmLst⟩
          allocPagesNodes n h (some newfp) (c.evictPage victimPage swpfpn)

/-- The loop of `vmap_page_range` on the nodes, from page `pgn` on. -/
def vmapPageNodes : ℕ → ℕ → FrameMem → Option ℕ → Mm → Option (Mm × FrameMem)
  | 0, _, h, _, mm => some (mm, h)
  | _ + 1, _, _, none, _ => none
  | n + 1, pgn, h, some fpit, mm => do
    let node ← h.load fpit
    let h ← h.release fpit
    vmapPageNodes n (pgn + 1) h node.next
      { mm with
        pgd := Function.update mm.pgd pgn (pteSetFpn (mm.pgd pgn) node.val)
        fifoPgn := enlistPgnNode mm.fifoPgn pgn }

/-- `vm_map_ram` on the nodes. -/
def vmMapRamNodes (c : Caller) (h : FrameMem) (_astart _aend mapstart incpgnum : ℤ) :
    Option (ℤ × Caller × FrameMem) := do
  let (retAlloc, frmLst, c, h) ← allocPagesNodes incpgnum.toNat h none c
  if retAlloc < 0 ∧ retAlloc ≠ -3000 then some (-1, c, h)
  else if retAlloc = -3000 then some (-1, c, h)
  else
    -- `vmap_page_range` allocates a node for `fpit` and then assigns another one to it
    let h := h.malloc
    let pgn := pagingPgn (BitVec.ofInt 32 mapstart)
    let (mm, h) ← vmapPageNodes incpgnum.toNat pgn h frmLst c.mm
    some (0, { c with mm := mm }, h)

/-! ## The loops -/

variable {h h₀ : FrameMem} {s : Finset ℕ} {p : Option ℕ} {frmLst : List ℕ}

/-- The clean-up loop frees the nodes of the list, each one once. -/
lemma freeNodes_spec {n : ℕ} (hl : h.Owns s p frmLst) (hn : frmLst.length ≤ n) :
    ∃ h', freeNodes n h p = some h' ∧ h.Drops h' s := by
  induction frmLst generalizing n h s p with
  | nil =>
    obtain ⟨rfl, rfl⟩ := hl
    exact ⟨h, by simp [freeNodes], LinkedHeap.Heap.Drops.refl h⟩
  | cons fpn frmLst ih =>
    obtain ⟨k, rfl⟩ : ∃ k, n = k + 1 := ⟨n - 1, by simp at hn; omega⟩
    obtain ⟨a, ha, rfl, hlive, -, hrest⟩ := hl
    obtain ⟨h', hfree, hdrops⟩ := ih hrest.free (Nat.le_of_succ_le_succ hn)
    refine ⟨h', ?_, hdrops.cons ha⟩
    have hload := LinkedHeap.Heap.load_of_live hlive
    have hrelease := LinkedHeap.Heap.release_of_live hlive
    simp [freeNodes, hload, hrelease, hfree]

/-- `vmap_page_range` maps the frames of the list and frees its nodes, each one once. -/
lemma vmapPageNodes_spec {n : ℕ} (pgn : ℕ) (hl : h.Owns s p frmLst) (hn : frmLst.length = n)
    (mm : Mm) :
    ∃ h', vmapPageNodes n pgn h p mm = some (vmapPageLoop n pgn frmLst mm, h') ∧
      h.Drops h' s := by
  induction frmLst generalizing n pgn h s p mm with
  | nil =>
    obtain ⟨rfl, rfl⟩ := hl
    subst hn
    exact ⟨h, rfl, LinkedHeap.Heap.Drops.refl h⟩
  | cons fpn frmLst ih =>
    subst hn
    obtain ⟨a, ha, rfl, hlive, rfl, hrest⟩ := hl
    obtain ⟨h', hmap, hdrops⟩ := ih (pgn + 1) hrest.free rfl
      { mm with
        pgd := Function.update mm.pgd pgn (pteSetFpn (mm.pgd pgn) (h.cell a).val)
        fifoPgn := enlistPgnNode mm.fifoPgn pgn }
    refine ⟨h', ?_, hdrops.cons ha⟩
    have hload := LinkedHeap.Heap.load_of_live hlive
    have hrelease := LinkedHeap.Heap.release_of_live hlive
    simp [vmapPageNodes, vmapPageLoop, hload, hrelease, hmap]

/-- What `alloc_pages_range` has done to the memory `h₀`: on success it holds the nodes of the
list, on failure one node that is on no list. -/
def NodesAfter (h₀ : FrameMem) (result : ℤ × List ℕ × Caller)
    (nodes : Option (ℤ × Option ℕ × Caller × FrameMem)) : Prop :=
  ∃ p h, nodes = some (result.1, p, result.2.2, h) ∧
    ((result.1 = 0 ∧ ∃ s, h.Owns s p result.2.1 ∧ h₀.Adds h s) ∨
      (result.1 < 0 ∧ ∃ a, h₀.Adds h {a}))

/-- The error branch frees the nodes of the list, but not the one that is not on it yet. -/
lemma nodesAfter_fail (c : Caller) (hl : h.Owns s p frmLst) (hs : h₀.Adds h s) :
    NodesAfter h₀ (c.allocPagesFail frmLst) (c.allocPagesFailNodes h.malloc p) := by
  unfold allocPagesFail allocPagesFailNodes
  have hnew : insert h.brk s \ s = {h.brk} := by
    rw [Finset.insert_sdiff_of_notMem s hl.brk_notMem, Finset.sdiff_self]
    rfl
  cases frmLst with
  | nil =>
    obtain ⟨rfl, rfl⟩ := hl
    exact ⟨none, h.malloc, by simp, .inr ⟨by simp, h.brk, hs.malloc⟩⟩
  | cons fpn frmLst =>
    have hlen : (fpn :: frmLst).length ≤ h.malloc.brk := hl.malloc.isList.length_le_brk
    obtain ⟨h', hfree, hdrops⟩ := freeNodes_spec hl.malloc hlen
    have hsome : p ≠ none := by
      obtain ⟨a, -, rfl, -⟩ := hl
      exact Option.some_ne_none a
    have hadds := hs.malloc.drops hdrops (Finset.subset_insert _ _)
    rw [hnew] at hadds
    exact ⟨none, h', by rw [if_neg hsome, hfree]; rfl, .inr ⟨by simp, h.brk, hadds⟩⟩

/-- `alloc_pages_range` gathers the frames of the list on the nodes. -/
lemma allocPagesNodes_spec (n : ℕ) (c : Caller) (hl : h.Owns s p frmLst) (hs : h₀.Adds h s) :
    NodesAfter h₀ (allocPagesLoop n frmLst c) (allocPagesNodes n h p c) := by
  induction n generalizing h s p frmLst c with
  | zero => exact ⟨p, h, rfl, .inl ⟨rfl, s, hl, hs⟩⟩
  | succ n ih =>
    have hlive : h.malloc.live h.brk = true := LinkedHeap.Heap.live_malloc
    have hassign (fpn : ℕ) := LinkedHeap.Heap.assign_of_live hlive ⟨fpn, p⟩
    have hadds (fpn : ℕ) := hs.malloc.store (Finset.mem_insert_self _ _) ⟨fpn, p⟩
    unfold allocPagesLoop allocPagesNodes
    cases hfree : c.mram.getFreefp with
    | some taken =>
      obtain ⟨fpn, mram⟩ := taken
      simp only [hassign, Option.bind_eq_bind, Option.bind_some]
      exact ih _ (hl.push fpn) (hadds fpn)
    | none =>
      cases hvic : findVictimPage c.mm with
      | none => exact nodesAfter_fail c hl hs
      | some found =>
        obtain ⟨victimPage, mm⟩ := found
        cases hswp : c.activeMswp.getFreefp with
        | none => exact nodesAfter_fail _ hl hs
        | some taken =>
          obtain ⟨swpfpn, mswp⟩ := taken
          simp only [hassign, Option.bind_eq_bind, Option.bind_some]
          exact ih _ (hl.push _) (hadds _)

/-- A call of `vm_map_ram` does what it does to the list, and leaves one node behind. -/
lemma vmMapRamNodes_spec (c : Caller) (h : FrameMem) (astart aend mapstart incpgnum : ℤ) :
    ∃ h' leaked, c.vmMapRamNodes h astart aend mapstart incpgnum =
        some ((c.vmMapRam astart aend mapstart incpgnum).1,
          (c.vmMapRam astart aend mapstart incpgnum).2, h') ∧
      h.Adds h' {leaked} := by
  have hstart : h.Owns ∅ none [] := ⟨rfl, rfl⟩
  obtain ⟨p, h', hnodes, hafter⟩ :=
    allocPagesNodes_spec incpgnum.toNat c hstart (LinkedHeap.Heap.Adds.refl h)
  have hstatus := allocPagesLoop_status incpgnum.toNat [] c
  unfold vmMapRamNodes vmMapRam allocPagesRange
  generalize allocPagesLoop incpgnum.toNat [] c = result at *
  obtain ⟨status, frmLst, c'⟩ := result
  rcases hafter with ⟨hzero, s, hl, hs⟩ | ⟨hneg, a, hs⟩
  · -- the frames are mapped, and the node for `fpit` stays
    obtain rfl : status = 0 := hzero
    obtain ⟨-, -, hlen⟩ | ⟨-, hfail, -⟩ := hstatus
    · obtain ⟨h'', hmap, hdrops⟩ := vmapPageNodes_spec (pagingPgn (BitVec.ofInt 32 mapstart))
        hl.malloc (by simpa using hlen) c'.mm
      have hadds := hs.malloc.drops hdrops (Finset.subset_insert _ _)
      rw [Finset.insert_sdiff_of_notMem s hl.brk_notMem, Finset.sdiff_self] at hadds
      exact ⟨h'', h'.brk, by simp [hnodes, hmap, vmapPageRange], hadds⟩
    · simp at hfail
  · -- nothing is mapped, and the node of the last turn stays
    have hneg : status < 0 := hneg
    refine ⟨h', a, ?_, hs⟩
    by_cases hoom : status = -3000
    · simp [hnodes, hoom]
    · simp [hnodes, hoom, hneg]

end Caller

/-! ## Any number of calls -/

/-- A call of `vm_map_ram`. -/
structure MapCall where
  /-- The caller, as it is at the call. -/
  caller : Caller
  /-- The start of the area. -/
  astart : ℤ
  /-- The end of the area. -/
  aend : ℤ
  /-- The address of the first page. -/
  mapstart : ℤ
  /-- The number of pages. -/
  incpgnum : ℤ

namespace MapCall

/-- The status and the caller after the call. -/
def result (k : MapCall) : ℤ × Caller :=
  k.caller.vmMapRam k.astart k.aend k.mapstart k.incpgnum

/-- Calls one after another, on the nodes: their results and the memory; `none` when one of them
fails to return. -/
def mapAll : List MapCall → FrameMem → Option (List (ℤ × Caller) × FrameMem)
  | [], h => some ([], h)
  | k :: calls, h => do
    let (status, c, h) ← k.caller.vmMapRamNodes h k.astart k.aend k.mapstart k.incpgnum
    let (results, h) ← mapAll calls h
    some ((status, c) :: results, h)

/-- In any sequence of calls of `vm_map_ram`, by any callers, no node is read, written or freed that
is not allocated; every call returns what it returns with the chain as a list; the nodes that were
allocated before are as they were, and of the new ones exactly one for each call is never freed. -/
theorem mapAll_leak (calls : List MapCall) (h : FrameMem) :
    ∃ h' leaked, mapAll calls h = some (calls.map result, h') ∧ leaked.card = calls.length ∧
      h.Adds h' leaked := by
  induction calls generalizing h with
  | nil => exact ⟨h, ∅, rfl, rfl, LinkedHeap.Heap.Adds.refl h⟩
  | cons k calls ih =>
    obtain ⟨h', a, hcall, hfirst⟩ :=
      k.caller.vmMapRamNodes_spec h k.astart k.aend k.mapstart k.incpgnum
    obtain ⟨h'', leaked, hcalls, hcard, hrest⟩ := ih h'
    refine ⟨h'', {a} ∪ leaked, ?_, ?_, hfirst.trans hrest⟩
    · simp [mapAll, hcall, hcalls, result]
    · rw [Finset.card_union_of_disjoint (hfirst.disjoint hrest), hcard, Finset.card_singleton,
        List.length_cons]
      omega

end MapCall

end Ossim
