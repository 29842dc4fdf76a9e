import Ossim.Paging.AddressSpace
import Ossim.Paging.FirstFit

/-!
# The nodes of free regions

The free list `vm_freerg_list` of each process as a chain of `struct vm_rg_struct` nodes, all in one
memory, and the functions of `src/mm-vm.c` that work on it.  They fail when they read, write or free
a node that is not allocated.

`enlist_vm_freerg_list` assigns the link of a new node only when the list has a first node.
`init_mm` puts a node on the list, and `get_free_vmrg_area` keeps a last one, so that the link is
always assigned: `run_represents` says that in every run of all processes the nodes hold the free
lists of `Ossim.Paging.Vm`, those of different processes in different nodes.  As there, a region id
outside the symbol table names an entry of its own.
-/

namespace Ossim

/-- The memory for `struct vm_rg_struct` nodes. -/
abbrev RegionMem := LinkedHeap.Heap VmRg

/-- The only area of a process, with its free list as a pointer, and its symbol table. -/
structure AreaNodes where
  /-- Address behind the last one. -/
  vmEnd : ℕ
  /-- Break. -/
  sbrk : ℕ
  /-- `vm_freerg_list`. -/
  vmFreergList : Option ℕ
  /-- The symbol table. -/
  symrgtbl : ℤ → VmRg

/-- The loop of `get_free_vmrg_area` on the nodes, with a bound on its turns: the region cut out;
`none` when the bound is reached or a node is not allocated. -/
def searchNodes (size : ℤ) : ℕ → Option ℕ → RegionMem → Option (Option VmRg × RegionMem)
  | _, none, h => some (none, h)
  | 0, some _, _ => none
  | n + 1, some rgit, h => do
    let node ← h.load rgit
    let cut := ulong (node.val.rgStart + size)
    if cut ≤ node.val.rgEnd then
      let newrg : VmRg := ⟨node.val.rgStart, cut⟩
      if cut < node.val.rgEnd then
        let h ← h.assign rgit ⟨⟨cut, node.val.rgEnd⟩, node.next⟩
        some (some newrg, h)
      else
        match node.next with
        | some nextrg =>
          let next ← h.load nextrg
          let h ← h.assign rgit next
          let h ← h.release nextrg
          some (some newrg, h)
        | none =>
          let h ← h.assign rgit ⟨⟨node.val.rgEnd, node.val.rgEnd⟩, none⟩
          some (some newrg, h)
    else searchNodes size n node.next h

/-- Allocate a node and assign its bounds, but not its link. -/
def newRgNode (h : RegionMem) (rg : VmRg) : Option RegionMem :=
  h.malloc.assign h.brk { h.cell h.brk with val := rg }

namespace AreaNodes

/-- `get_free_vmrg_area`.  The loop may take as many turns as there are cells. -/
def getFreeVmrgArea (a : AreaNodes) (h : RegionMem) (size : ℤ) :
    Option (Option VmRg × RegionMem) := do
  let (newrg, h) ← searchNodes size h.brk a.vmFreergList h
  some (newrg.filter fun rg => rg.rgStart ≠ ulong (-1), h)

/-- `enlist_vm_freerg_list`. -/
def enlistVmFreergList (a : AreaNodes) (h : RegionMem) (rgElmt : ℕ) :
    Option (AreaNodes × RegionMem) := do
  let node ← h.load rgElmt
  if node.val.rgEnd ≤ node.val.rgStart then some (a, h)
  else
    match a.vmFreergList with
    | some rgNode =>
      let h ← h.assign rgElmt { node with next := some rgNode }
      some ({ a with vmFreergList := some rgElmt }, h)
    | none =>
      -- the link stays as the fresh node had it
      some ({ a with vmFreergList := some rgElmt }, h)

/-- A region in a new node, as `__alloc` and `__free` put it on the list. -/
def enlistRegion (a : AreaNodes) (h : RegionMem) (rg : VmRg) : Option (AreaNodes × RegionMem) := do
  let rgnode := h.brk
  let h ← newRgNode h rg
  a.enlistVmFreergList h rgnode

/-- `inc_vma_limit`, with a node for `newrg` and the one of `get_vm_area_node_at_brk`, which are
on no list. -/
def incVmaLimit (a : AreaNodes) (h : RegionMem) (incSz : ℤ) : Option (AreaNodes × RegionMem) := do
  let h := h.malloc
  let h ← newRgNode h ⟨a.sbrk, ulong (a.sbrk + incSz)⟩
  some ({ a with vmEnd := ulong (a.vmEnd + incSz), sbrk := ulong (a.sbrk + incSz) }, h)

/-- The second half of `__alloc`. -/
def allocAtBrk (a : AreaNodes) (h : RegionMem) (rgid size : ℤ) :
    Option (ℤ × AreaNodes × RegionMem) := do
  let oldSbrk := cint a.sbrk
  let (a, h) ← a.incVmaLimit h (pagingPageAlignsz size)
  let rg : VmRg := ⟨ulong oldSbrk, ulong (cint (oldSbrk + size))⟩
  let a := { a with symrgtbl := Function.update a.symrgtbl rgid rg }
  if ulong (cint (oldSbrk + size)) < a.vmEnd then
    let (a, h) ← a.enlistRegion h ⟨ulong (cint (oldSbrk + size)), a.vmEnd⟩
    some (oldSbrk, a, h)
  else some (oldSbrk, a, h)

/-- `__alloc`: the address stored through `alloc_addr`, the area and the memory. -/
def alloc (a : AreaNodes) (h : RegionMem) (rgid size : ℤ) : Option (ℤ × AreaNodes × RegionMem) := do
  let (newrg, h) ← a.getFreeVmrgArea h size
  match newrg with
  | some rgnode =>
    let a := { a with symrgtbl := Function.update a.symrgtbl rgid rgnode }
    some (cint rgnode.rgStart, a, h)
  | none => a.allocAtBrk h rgid size

/-- `__free`: the status, the area and the memory. -/
def free (a : AreaNodes) (h : RegionMem) (rgid : ℤ) : Option (ℤ × AreaNodes × RegionMem) :=
  -- the node is allocated before the id is checked
  if rgid < 0 ∨ rgid > pagingMaxSymtblSz then some (-1, a, h.malloc)
  else (a.enlistRegion h (a.symrgtbl rgid)).map fun (a, h) => (0, a, h)

/-- `init_mm` on a structure that held `mm` before, with what the fresh area held as its free list.
-/
def initMm (h : RegionMem) (mm : Mm) (freerg : Option ℕ) : Option (AreaNodes × RegionMem) := do
  let firstRg := h.brk
  let h ← h.malloc.assign firstRg ⟨initVmRg 0 0, none⟩
  -- `enlist_vm_rg_node` links the node to what is not assigned yet
  let node ← h.load firstRg
  let h ← h.assign firstRg { node with next := freerg }
  some (⟨0, 0, some firstRg, mm.symrgtbl⟩, h)

end AreaNodes

/-- The free lists of all processes, in one memory. -/
structure NodeSys (Pid : Type*) where
  /-- The memory. -/
  heap : RegionMem
  /-- The area of each process. -/
  area : Pid → AreaNodes

/-- What a process does. -/
inductive NodeEvent (Pid : Type*)
  /-- `init_mm`, with the contents of the fresh structures. -/
  | init (p : Pid) (mm : Mm) (freerg : Option ℕ)
  /-- One of the four calls. -/
  | call (p : Pid) (k : MemCall)

variable {Pid : Type*} [DecidableEq Pid]

/-- What an event does to the lists of `Ossim.Paging.Vm`. -/
def MemSys.event (s : MemSys Pid) : NodeEvent Pid → MemSys Pid
  | .init p mm _ => s.put p { s.caller p with mm := Ossim.initMm mm [] }
  | .call p k => s.call p k

namespace NodeSys

/-- A call of a process.  `__read` and `__write` do not use the nodes. -/
def call (w : NodeSys Pid) (p : Pid) : MemCall → Option (NodeSys Pid)
  | .alloc rgid size =>
    ((w.area p).alloc w.heap rgid size).map fun (_, a, h) => ⟨h, Function.update w.area p a⟩
  | .free rgid =>
    ((w.area p).free w.heap rgid).map fun (_, a, h) => ⟨h, Function.update w.area p a⟩
  | .read _ _ => some w
  | .write _ _ _ => some w

/-- What an event does to the nodes; `none` when a node is used that is not allocated. -/
def event (w : NodeSys Pid) : NodeEvent Pid → Option (NodeSys Pid)
  | .init p mm freerg =>
    (AreaNodes.initMm w.heap mm freerg).map fun (a, h) => ⟨h, Function.update w.area p a⟩
  | .call p k => w.call p k

/-- Events one after another. -/
def run (w : NodeSys Pid) : List (NodeEvent Pid) → Option (NodeSys Pid)
  | [] => some w
  | e :: es => (w.event e).bind fun w => w.run es

end NodeSys

/-- Each process calls `init_mm` first, which finds `NULL` in the fresh area. -/
def Started : Set Pid → List (NodeEvent Pid) → Prop
  | _, [] => True
  | started, .init p _ freerg :: es => freerg = none ∧ Started (insert p started) es
  | started, .call p _ :: es => p ∈ started ∧ Started started es

/-! ## The search -/

variable {h : RegionMem} {s : Finset ℕ} {p : Option ℕ} {l : List VmRg}

/-- Where the nodes of a list are allocated, the loop is that of `Ossim.Paging.FirstFit`. -/
lemma searchNodes_eq_searchLoop (size : ℤ) {n : ℕ} (hl : h.IsList p l) (hn : l.length ≤ n) :
    searchNodes size n p h = some (searchLoop size n p h) := by
  induction l generalizing n p with
  | nil =>
    obtain rfl : p = none := hl
    cases n <;> rfl
  | cons rg rgNext ih =>
    obtain ⟨k, rfl⟩ : ∃ k, n = k + 1 := ⟨n - 1, by simp at hn; omega⟩
    have hall := hl
    obtain ⟨rgit, rfl, hlive, rfl, hnext⟩ := hl
    have hassign (c) := LinkedHeap.Heap.assign_of_live hlive c
    unfold searchNodes searchLoop
    simp only [LinkedHeap.Heap.load_of_live hlive, Option.bind_eq_bind, Option.bind_some]
    split
    · split
      · rw [hassign]
        rfl
      · cases hb : (h.cell rgit).next with
        | none =>
          dsimp only
          rw [hassign]
          rfl
        | some nextrg =>
          -- the successor is allocated too
          rw [hb] at hnext
          obtain ⟨-, -, hliveb, -⟩ := LinkedHeap.Heap.isList_some.mp hnext
          have hrelease := LinkedHeap.Heap.release_of_live
            (h := h.store rgit (h.cell nextrg)) (a := nextrg) hliveb
          simp only [LinkedHeap.Heap.load_of_live hliveb, hassign, hrelease, Option.bind_some]
    · exact ih hnext (Nat.le_of_succ_le_succ hn)

/-- The search on the nodes finds what the search of the list finds, leaves its list behind the same
pointer and frees at most one node of it. -/
lemma searchNodes_spec (size : ℤ) {n : ℕ} (hl : h.Owns s p l) (hn : l.length ≤ n) :
    ∃ h' s', searchNodes size n p h = some ((firstFit size l).map Prod.fst, h') ∧
      h'.Owns s' p (searched size l) ∧ h.Rebuilds h' s s' := by
  obtain ⟨hfound, s', hlist, hr⟩ := searchLoop_owns size hl hn
  refine ⟨_, s', ?_, hlist, hr⟩
  rw [searchNodes_eq_searchLoop size hl.isList hn, ← hfound]

/-! ## The functions -/

/-- What `enlist_vm_freerg_list` makes of a list. -/
def enlisted (rg : VmRg) (list : List VmRg) : List VmRg :=
  if rg.rgEnd ≤ rg.rgStart then list else rg :: list

lemma enlisted_ne_nil {rg : VmRg} (hne : l ≠ []) : enlisted rg l ≠ [] := by
  unfold enlisted
  split
  · exact hne
  · exact List.cons_ne_nil _ _

/-- Enlisting a region in the only area. -/
lemma enlistVmFreergList_eq {mm : Mm} {v : VmArea} (hv : mm.mmap = [v]) (rg : VmRg) :
    mm.enlistVmFreergList rg =
      { mm with mmap := [{ v with vmFreergList := enlisted rg v.vmFreergList }] } := by
  unfold Mm.enlistVmFreergList enlisted
  split
  · rw [← hv]
  · rw [hv]

/-- A node with new bounds is allocated apart from every list. -/
lemma newRgNode_spec (hl : h.Owns s p l) (rg : VmRg) :
    ∃ h', newRgNode h rg = some h' ∧ h'.Owns s p l ∧ h.Rebuilds h' s s ∧
      h'.live h.brk = true ∧ (h'.cell h.brk).val = rg ∧ h.brk ∉ s := by
  have hlive : h.malloc.live h.brk = true := LinkedHeap.Heap.live_malloc
  have hr := (LinkedHeap.Heap.Rebuilds.malloc h s).store le_rfl { h.cell h.brk with val := rg }
  refine ⟨_, LinkedHeap.Heap.assign_of_live hlive _, ?_, hr, hlive, ?_, hl.brk_notMem⟩
  · refine hl.malloc.mono fun b hb hliveb => ⟨hliveb, LinkedHeap.Heap.cell_store_of_ne ?_ _⟩
    rintro rfl
    exact hl.brk_notMem hb
  · rw [LinkedHeap.Heap.cell_store]

/-- The free list of an area is on its nodes, and the rest of the area is the same. -/
structure AreaNodes.Holds (a : AreaNodes) (h : RegionMem) (s : Finset ℕ) (v : VmArea)
    (symrgtbl : ℤ → VmRg) : Prop where
  /-- The bounds. -/
  vmEnd : a.vmEnd = v.vmEnd
  /-- The break. -/
  sbrk : a.sbrk = v.sbrk
  /-- The symbol table. -/
  symrgtbl : a.symrgtbl = symrgtbl
  /-- The nodes. -/
  nodes : h.Owns s a.vmFreergList v.vmFreergList

namespace AreaNodes

variable {a : AreaNodes} {v : VmArea} {c : Caller}

/-- A region in a new node is put on a list that is not empty. -/
lemma enlistRegion_spec {symrgtbl : ℤ → VmRg} (ha : a.Holds h s v symrgtbl)
    (hne : v.vmFreergList ≠ []) (rg : VmRg) :
    ∃ a' h' s', a.enlistRegion h rg = some (a', h') ∧ h.Rebuilds h' s s' ∧
      a'.Holds h' s' { v with vmFreergList := enlisted rg v.vmFreergList } symrgtbl := by
  obtain ⟨h₁, hnew, hl, hr, hlive, hval, hnot⟩ := newRgNode_spec ha.nodes rg
  have hload := LinkedHeap.Heap.load_of_live hlive
  have hassign (c) := LinkedHeap.Heap.assign_of_live hlive c
  unfold enlistRegion enlistVmFreergList enlisted
  simp only [hnew, hload, hval, Option.bind_eq_bind, Option.bind_some]
  by_cases hempty : rg.rgEnd ≤ rg.rgStart
  · rw [if_pos hempty, if_pos hempty]
    exact ⟨a, h₁, s, rfl, hr, ha.vmEnd, ha.sbrk, ha.symrgtbl, hl⟩
  · rw [if_neg hempty, if_neg hempty]
    -- the list has a first node, which the new one is linked to
    obtain ⟨rgNode, hfirst⟩ : ∃ rgNode, a.vmFreergList = some rgNode := by
      cases hp : a.vmFreergList with
      | some rgNode => exact ⟨rgNode, rfl⟩
      | none =>
        have hnil := hl.isList
        rw [hp, LinkedHeap.Heap.isList_none] at hnil
        exact absurd hnil hne
    rw [hfirst] at hl ⊢
    simp only [hassign, Option.bind_some]
    refine ⟨_, _, insert h.brk s, rfl, (hr.store le_rfl _).insert le_rfl, ha.vmEnd, ha.sbrk,
      ha.symrgtbl, h.brk, Finset.mem_insert_self _ _, rfl, hlive, ?_, ?_⟩
    · rw [LinkedHeap.Heap.cell_store]
    · rw [LinkedHeap.Heap.cell_store, Finset.erase_insert hnot]
      refine hl.mono fun b hb hliveb => ⟨hliveb, LinkedHeap.Heap.cell_store_of_ne ?_ _⟩
      rintro rfl
      exact hnot hb

end AreaNodes

/-- The search keeps a region on the list. -/
lemma firstFit_ne_nil {size : ℤ} {newrg : VmRg} {list : List VmRg}
    (hfit : firstFit size l = some (newrg, list)) : list ≠ [] := by
  cases l with
  | nil => cases hfit
  | cons rgit rgNext =>
    unfold firstFit at hfit
    dsimp only at hfit
    split at hfit
    · split at hfit
      · cases hfit
        exact List.cons_ne_nil _ _
      · cases rgNext <;> cases hfit <;> exact List.cons_ne_nil _ _
    · obtain ⟨⟨_, _⟩, -, hfound⟩ := Option.map_eq_some_iff.mp hfit
      cases hfound
      exact List.cons_ne_nil _ _

lemma searched_ne_nil {size : ℤ} (hne : l ≠ []) : searched size l ≠ [] := by
  unfold searched
  cases hfit : firstFit size l with
  | none => exact hne
  | some found => exact firstFit_ne_nil hfit

/-- `get_free_vmrg_area` in the only area. -/
lemma getFreeVmrgArea_eq {c : Caller} {v : VmArea} (hv : c.mm.mmap = [v]) (size : ℤ) :
    c.getFreeVmrgArea 0 size =
      (((firstFit size v.vmFreergList).map Prod.fst).filter fun rg => rg.rgStart ≠ ulong (-1),
        { c with
          mm := { c.mm with
            mmap := [{ v with vmFreergList := searched size v.vmFreergList }] } }) := by
  unfold Caller.getFreeVmrgArea searched
  rw [Caller.curVma_single hv]
  dsimp only
  cases firstFit size v.vmFreergList with
  | none =>
    have hsame : ({ c with mm := { c.mm with mmap := [v] } } : Caller) = c := by rw [← hv]
    exact Prod.ext rfl hsame.symm
  | some found =>
    dsimp only
    rw [Caller.setCurVma_single hv]
    by_cases hstart : found.1.rgStart = ulong (-1)
    · simp [hstart, Option.filter]
    · simp [hstart, Option.filter]

/-- What the second half of `__alloc` does to the only area and the symbols. -/
lemma allocAtBrk_eq {c : Caller} {v : VmArea} (hv : c.mm.mmap = [v]) (rgid size : ℤ)
    {cut vmEnd : ℕ} (hcut : cut = ulong (cint (cint v.sbrk + size)))
    (hend : vmEnd = ulong (v.vmEnd + pagingPageAlignsz size)) :
    (c.allocAtBrk 0 rgid size).2.1 = cint v.sbrk ∧
    (c.allocAtBrk 0 rgid size).2.2.mm.mmap = [{ v with
      vmEnd := vmEnd
      sbrk := ulong (v.sbrk + pagingPageAlignsz size)
      vmFreergList :=
        if cut < vmEnd then enlisted ⟨cut, vmEnd⟩ v.vmFreergList else v.vmFreergList }] ∧
    (c.allocAtBrk 0 rgid size).2.2.mm.symrgtbl =
      Function.update c.mm.symrgtbl rgid ⟨ulong (cint v.sbrk), cut⟩ := by
  have hgrow := Caller.incVmaLimit_single hv (pagingPageAlignsz size)
  have hmmap := hgrow.mmap
  have hsym := hgrow.symrgtbl
  unfold Caller.allocAtBrk Caller.carveAtBrk
  rw [Caller.curVma_single hv]
  generalize (c.incVmaLimit 0 (pagingPageAlignsz size)).2 = grown at hmmap hsym ⊢
  dsimp only at hmmap hsym ⊢
  have hmmap' : ∀ rg, (grown.mm.setSymrg rgid rg).mmap = grown.mm.mmap := fun _ => rfl
  rw [Caller.curVma_single ((hmmap' _).trans hmmap), ← hcut]
  dsimp only
  rw [← hend]
  rw [← hend] at hmmap
  refine ⟨rfl, ?_, ?_⟩
  · split
    · rw [enlistVmFreergList_eq ((hmmap' _).trans hmmap)]
    · rw [hmmap', hmmap]
  · rw [← hsym]
    split
    · rw [enlistVmFreergList_eq ((hmmap' _).trans hmmap)]
      rfl
    · rfl

namespace AreaNodes

variable {a : AreaNodes} {c : Caller}

/-- The nodes hold the free list of a process with a single area, which is not empty. -/
def Represents (a : AreaNodes) (h : RegionMem) (s : Finset ℕ) (mm : Mm) : Prop :=
  ∃ v, mm.mmap = [v] ∧ v.vmFreergList ≠ [] ∧ a.Holds h s v mm.symrgtbl

/-- Growing the area leaves the list alone. -/
lemma incVmaLimit_spec {v : VmArea} {symrgtbl : ℤ → VmRg} (ha : a.Holds h s v symrgtbl)
    (incSz : ℤ) :
    ∃ a' h', a.incVmaLimit h incSz = some (a', h') ∧ h.Rebuilds h' s s ∧
      a'.Holds h' s
        { v with vmEnd := ulong (v.vmEnd + incSz), sbrk := ulong (v.sbrk + incSz) } symrgtbl := by
  obtain ⟨h', hnew, hl, hr, -⟩ :=
    newRgNode_spec ha.nodes.malloc ⟨a.sbrk, ulong (a.sbrk + incSz)⟩
  have hgrown := (LinkedHeap.Heap.Rebuilds.malloc h s).trans hr
  unfold incVmaLimit
  simp only [hnew, Option.bind_eq_bind, Option.bind_some]
  exact ⟨_, h', rfl, hgrown, by rw [ha.vmEnd], by rw [ha.sbrk], ha.symrgtbl, hl⟩

/-- The second half of `__alloc` does to the nodes what it does to the list. -/
lemma allocAtBrk_spec (ha : a.Represents h s c.mm) (rgid size : ℤ) :
    ∃ a' h' s', a.allocAtBrk h rgid size = some ((c.allocAtBrk 0 rgid size).2.1, a', h') ∧
      h.Rebuilds h' s s' ∧ a'.Represents h' s' (c.allocAtBrk 0 rgid size).2.2.mm := by
  obtain ⟨v, hv, hne, ha⟩ := ha
  obtain ⟨a₁, h₁, hgrow, hr, ha₁⟩ := incVmaLimit_spec ha (pagingPageAlignsz size)
  obtain ⟨cut, hcut⟩ : ∃ cut, cut = ulong (cint (cint v.sbrk + size)) := ⟨_, rfl⟩
  obtain ⟨haddr, hmmap, hsym⟩ := allocAtBrk_eq hv rgid size hcut ha₁.vmEnd
  have ha₂ : AreaNodes.Holds { a₁ with
      symrgtbl := Function.update a₁.symrgtbl rgid ⟨ulong (cint v.sbrk), cut⟩ } h₁ s
      { v with vmEnd := a₁.vmEnd, sbrk := ulong (v.sbrk + pagingPageAlignsz size) }
      (c.allocAtBrk 0 rgid size).2.2.mm.symrgtbl := by
    refine ⟨rfl, ha₁.sbrk, ?_, ha₁.nodes⟩
    rw [hsym, ha₁.symrgtbl]
  unfold allocAtBrk
  simp only [hgrow, ha.sbrk, ← hcut, haddr, Option.bind_eq_bind, Option.bind_some]
  by_cases hlt : cut < a₁.vmEnd
  · -- what the area has behind the region is put on the list
    obtain ⟨a₃, h₃, s₃, henlist, hr₃, ha₃⟩ := enlistRegion_spec ha₂ hne ⟨cut, a₁.vmEnd⟩
    rw [if_pos hlt] at hmmap ⊢
    refine ⟨a₃, h₃, s₃, ?_, hr.trans hr₃, _, hmmap, enlisted_ne_nil hne, ha₃⟩
    simp only [henlist, Option.bind_some]
  · rw [if_neg hlt] at hmmap ⊢
    exact ⟨_, h₁, s, rfl, hr, _, hmmap, hne, ha₂⟩

/-- `__alloc` does to the nodes what it does to the list. -/
lemma alloc_spec (ha : a.Represents h s c.mm) (rgid size : ℤ) :
    ∃ a' h' s', a.alloc h rgid size = some ((c.alloc 0 rgid size).2.1, a', h') ∧
      h.Rebuilds h' s s' ∧ a'.Represents h' s' (c.alloc 0 rgid size).2.2.mm := by
  obtain ⟨v, hv, hne, ha⟩ := ha
  obtain ⟨h₁, s₁, hsearch, hl₁, hr₁⟩ := searchNodes_spec size ha.nodes ha.nodes.isList.length_le_brk
  have hget := getFreeVmrgArea_eq hv size
  -- the list after the search, in the caller and on the nodes
  have ha₁ : a.Represents h₁ s₁
      { c.mm with mmap := [{ v with vmFreergList := searched size v.vmFreergList }] } :=
    ⟨_, rfl, searched_ne_nil hne, ha.vmEnd, ha.sbrk, ha.symrgtbl, hl₁⟩
  unfold alloc getFreeVmrgArea Caller.alloc
  rw [hget]
  simp only [hsearch, Option.bind_eq_bind, Option.bind_some]
  cases ((firstFit size v.vmFreergList).map Prod.fst).filter
      fun rg => decide (rg.rgStart ≠ ulong (-1)) with
  | some rgnode =>
    dsimp only
    refine ⟨_, h₁, s₁, rfl, hr₁, _, rfl, searched_ne_nil hne, ha.vmEnd, ha.sbrk, ?_, hl₁⟩
    rw [ha.symrgtbl]
    rfl
  | none =>
    obtain ⟨a₂, h₂, s₂, halloc, hr₂, ha₂⟩ := allocAtBrk_spec
      (c := { c with
        mm := { c.mm with mmap := [{ v with vmFreergList := searched size v.vmFreergList }] } })
      ha₁ rgid size
    exact ⟨a₂, h₂, s₂, halloc, hr₁.trans hr₂, ha₂⟩

/-- `__free` does to the nodes what it does to the list. -/
lemma free_spec (ha : a.Represents h s c.mm) (rgid : ℤ) :
    ∃ a' h' s', a.free h rgid = some ((c.free 0 rgid).1, a', h') ∧
      h.Rebuilds h' s s' ∧ a'.Represents h' s' (c.free 0 rgid).2.mm := by
  obtain ⟨v, hv, hne, ha⟩ := ha
  unfold free Caller.free
  by_cases hid : rgid < 0 ∨ rgid > pagingMaxSymtblSz
  · rw [if_pos hid, if_pos hid]
    exact ⟨a, h.malloc, s, rfl, .malloc h s, v, hv, hne, ha.vmEnd, ha.sbrk, ha.symrgtbl,
      ha.nodes.malloc⟩
  · rw [if_neg hid, if_neg hid]
    obtain ⟨a', h', s', henlist, hr, ha'⟩ := enlistRegion_spec ha hne (c.mm.symrgtbl rgid)
    rw [ha.symrgtbl]
    refine ⟨a', h', s', by rw [henlist]; rfl, hr, ?_⟩
    rw [enlistVmFreergList_eq hv]
    exact ⟨_, rfl, enlisted_ne_nil hne, ha'⟩

/-- `init_mm` makes a list of one node. -/
lemma initMm_spec (h : RegionMem) (mm : Mm) :
    ∃ a' h', initMm h mm none = some (a', h') ∧ h.Rebuilds h' ∅ {h.brk} ∧
      a'.Represents h' {h.brk} (Ossim.initMm mm []) := by
  have hlive : h.malloc.live h.brk = true := LinkedHeap.Heap.live_malloc
  have hassign := LinkedHeap.Heap.assign_of_live hlive ⟨initVmRg 0 0, none⟩
  have hlive' : (h.malloc.store h.brk ⟨initVmRg 0 0, none⟩).live h.brk = true := hlive
  have hload := LinkedHeap.Heap.load_of_live hlive'
  have hlink := LinkedHeap.Heap.assign_of_live hlive'
  have hr := (((LinkedHeap.Heap.Rebuilds.malloc h ∅).store le_rfl ⟨initVmRg 0 0, none⟩).store le_rfl
    ⟨initVmRg 0 0, none⟩).insert le_rfl
  unfold initMm
  simp only [hassign, hload, hlink, LinkedHeap.Heap.cell_store, Option.bind_eq_bind,
    Option.bind_some]
  refine ⟨_, _, rfl, hr, _, rfl, List.cons_ne_nil _ _, rfl, rfl, rfl, h.brk,
    Finset.mem_singleton_self _, rfl, hlive, ?_, ?_⟩
  · rw [LinkedHeap.Heap.cell_store]
    rfl
  · rw [LinkedHeap.Heap.cell_store]
    exact ⟨rfl, by simp⟩

/-- The list of another process stays, and in other nodes. -/
lemma Represents.rebuild {mm : Mm} {t s' : Finset ℕ} {h' : RegionMem} (ha : a.Represents h t mm)
    (hdisj : Disjoint s t) (hr : h.Rebuilds h' s s') : a.Represents h' t mm ∧ Disjoint s' t := by
  obtain ⟨v, hv, hne, hend, hsbrk, hsym, hl⟩ := ha
  obtain ⟨hl', hdisj'⟩ := hl.rebuild hdisj hr
  exact ⟨⟨v, hv, hne, hend, hsbrk, hsym, hl'⟩, hdisj'⟩

end AreaNodes

/-! ## Runs -/

namespace NodeSys

/-- The nodes hold the free lists of some processes, which are not empty, each in nodes of its own.
-/
def Represents (w : NodeSys Pid) (started : Set Pid) (s : MemSys Pid) : Prop :=
  ∃ cells : Pid → Finset ℕ,
    (∀ p ∈ started, ∀ q ∈ started, p ≠ q → Disjoint (cells p) (cells q)) ∧
    ∀ p ∈ started, (w.area p).Represents w.heap (cells p) (s.mm p)

variable {w : NodeSys Pid} {started : Set Pid} {s : MemSys Pid}

/-- A process changes its list, and the nodes still hold the others. -/
lemma Represents.put {cells : Pid → Finset ℕ}
    (hdisj : ∀ p ∈ started, ∀ q ∈ started, p ≠ q → Disjoint (cells p) (cells q))
    (hrep : ∀ p ∈ started, (w.area p).Represents w.heap (cells p) (s.mm p)) (p : Pid)
    {a : AreaNodes} {h : RegionMem} {t t' : Finset ℕ} {c : Caller}
    (ht : ∀ q ∈ started, q ≠ p → Disjoint t (cells q))
    (hr : w.heap.Rebuilds h t t') (ha : a.Represents h t' c.mm) :
    Represents ⟨h, Function.update w.area p a⟩ (insert p started) (s.put p c) := by
  have hother : ∀ q ∈ insert p started, q ≠ p →
      (w.area q).Represents h (cells q) (s.mm q) ∧ Disjoint t' (cells q) := by
    intro q hq hne
    have hq : q ∈ started := (Set.mem_insert_iff.mp hq).resolve_left hne
    exact (hrep q hq).rebuild (ht q hq hne) hr
  refine ⟨Function.update cells p t', fun q hq r hrr hne => ?_, fun q hq => ?_⟩
  · by_cases hqp : q = p
    · subst hqp
      rw [Function.update_self, Function.update_of_ne hne.symm]
      exact (hother r hrr hne.symm).2
    · rw [Function.update_of_ne hqp]
      by_cases hrp : r = p
      · subst hrp
        rw [Function.update_self]
        exact (hother q hq hqp).2.symm
      · rw [Function.update_of_ne hrp]
        have hq := (Set.mem_insert_iff.mp hq).resolve_left hqp
        have hrr := (Set.mem_insert_iff.mp hrr).resolve_left hrp
        exact hdisj q hq r hrr hne
  · by_cases hqp : q = p
    · subst hqp
      rw [Function.update_self, MemSys.mm_put_self]
      simpa using ha
    · rw [Function.update_of_ne hqp, MemSys.mm_put_of_ne _ hqp]
      simpa [hqp] using (hother q hq hqp).1

/-- A call of a process that has called `init_mm` does to the nodes what it does to the lists. -/
lemma Represents.call {p : Pid} (h : w.Represents started s) (hp : p ∈ started) (k : MemCall) :
    ∃ w', w.call p k = some w' ∧ w'.Represents started (s.call p k) := by
  obtain ⟨cells, hdisj, hrep⟩ := h
  have ht : ∀ q ∈ started, q ≠ p → Disjoint (cells p) (cells q) :=
    fun q hq hne => hdisj p hp q hq hne.symm
  have hin : insert p started = started := Set.insert_eq_of_mem hp
  have hput := fun {a h t'} (c : Caller) (hr : w.heap.Rebuilds h (cells p) t')
    (ha : AreaNodes.Represents a h t' c.mm) => Represents.put hdisj hrep p ht hr ha
  rw [hin] at hput
  -- an access leaves the area and the symbols alone
  have hsame : ∀ c : Caller, c.mm.mmap = (s.mm p).mmap ∧ c.mm.symrgtbl = (s.mm p).symrgtbl →
      w.Represents started (s.put p c) := by
    rintro c ⟨hmmap, hsym⟩
    have ha : (w.area p).Represents w.heap (cells p) c.mm := by
      obtain ⟨v, hv, hne, hholds⟩ := hrep p hp
      exact ⟨v, hmmap.trans hv, hne, by rw [hsym]; exact hholds⟩
    have hw := hput c (.refl _ _) ha
    rwa [Function.update_eq_self] at hw
  have hpage : ∀ pgn, ((s.caller p).pgGetpage pgn).2.mm.mmap = (s.mm p).mmap ∧
      ((s.caller p).pgGetpage pgn).2.mm.symrgtbl = (s.mm p).symrgtbl := fun pgn =>
    ⟨((s.caller p).pgGetpage_frame pgn).1, (s.caller p).symrgtbl_pgGetpage pgn⟩
  cases k with
  | alloc rgid size =>
    obtain ⟨a', h', t', halloc, hr, ha⟩ :=
      AreaNodes.alloc_spec (c := s.caller p) (hrep p hp) rgid size
    exact ⟨_, by rw [NodeSys.call, halloc]; rfl, hput _ hr ha⟩
  | free rgid =>
    obtain ⟨a', h', t', hfree, hr, ha⟩ := AreaNodes.free_spec (c := s.caller p) (hrep p hp) rgid
    exact ⟨_, by rw [NodeSys.call, hfree]; rfl, hput _ hr ha⟩
  | read rgid offset =>
    refine ⟨w, rfl, hsame _ ?_⟩
    exact read_keeps (P := fun c => c.mm.mmap = (s.mm p).mmap ∧ c.mm.symrgtbl = (s.mm p).symrgtbl)
      ⟨rfl, rfl⟩ (fun _ _ => hpage _) fun _ _ h => h
  | write rgid offset value =>
    refine ⟨w, rfl, hsame _ ?_⟩
    exact write_keeps (P := fun c => c.mm.mmap = (s.mm p).mmap ∧ c.mm.symrgtbl = (s.mm p).symrgtbl)
      ⟨rfl, rfl⟩ (fun _ _ => hpage _) fun _ _ h => h

/-- `init_mm` adds a list. -/
lemma Represents.init (h : w.Represents started s) (p : Pid) (mm : Mm) :
    ∃ w', w.event (.init p mm none) = some w' ∧
      w'.Represents (insert p started) (s.event (.init p mm none)) := by
  obtain ⟨cells, hdisj, hrep⟩ := h
  obtain ⟨a', h', hinit, hr, ha⟩ := AreaNodes.initMm_spec w.heap mm
  have hempty : ∀ q ∈ started, q ≠ p → Disjoint ∅ (cells q) :=
    fun q _ _ => Finset.disjoint_empty_left _
  exact ⟨_, by rw [event, hinit]; rfl,
    Represents.put hdisj hrep p hempty hr (c := { s.caller p with mm := initMm mm [] }) ha⟩

omit [DecidableEq Pid] in
lemma Represents.mono {started' : Set Pid} (h : w.Represents started s)
    (hsub : started' ⊆ started) : w.Represents started' s := by
  obtain ⟨cells, hdisj, hrep⟩ := h
  exact ⟨cells, fun p hp q hq => hdisj p (hsub hp) q (hsub hq), fun p hp => hrep p (hsub hp)⟩

/-- The nodes hold the lists along a run. -/
lemma Represents.run {es : List (NodeEvent Pid)} (h : w.Represents started s)
    (hes : Started started es) :
    ∃ w', w.run es = some w' ∧
      w'.Represents { p | p ∈ started ∨ ∃ mm, .init p mm none ∈ es } (es.foldl MemSys.event s) := by
  induction es generalizing w s started with
  | nil =>
    refine ⟨w, rfl, h.mono ?_⟩
    rintro p (hp | ⟨mm, hmem⟩)
    · exact hp
    · exact absurd hmem List.not_mem_nil
  | cons e es ih =>
    cases e with
    | init p mm freerg =>
      obtain ⟨rfl, hrest⟩ := hes
      obtain ⟨w₁, hinit, hw₁⟩ := h.init p mm
      obtain ⟨w', hrun, hw'⟩ := ih hw₁ hrest
      refine ⟨w', by rw [NodeSys.run, hinit]; exact hrun, hw'.mono ?_⟩
      rintro q (hq | ⟨mm', hmem⟩)
      · exact .inl (Set.mem_insert_of_mem p hq)
      · rcases List.mem_cons.mp hmem with heq | hmem
        · cases heq
          exact .inl (Set.mem_insert _ _)
        · exact .inr ⟨mm', hmem⟩
    | call p k =>
      obtain ⟨hp, hrest⟩ := hes
      obtain ⟨w₁, hcall, hw₁⟩ := h.call hp k
      obtain ⟨w', hrun, hw'⟩ := ih hw₁ hrest
      refine ⟨w', by rw [NodeSys.run, event, hcall]; exact hrun, hw'.mono ?_⟩
      rintro q (hq | ⟨mm', hmem⟩)
      · exact .inl hq
      · rcases List.mem_cons.mp hmem with heq | hmem
        · cases heq
        · exact .inr ⟨mm', hmem⟩

/-- In every run of processes that call `init_mm` first, in any order and from any memory, no node
is read, written or freed that is not allocated, and at its end the nodes hold the free lists of
`Ossim.Paging.Vm`.  No list is empty, so every link was assigned, and no two share a node. -/
theorem run_represents (w : NodeSys Pid) (s : MemSys Pid) {es : List (NodeEvent Pid)}
    (hes : Started ∅ es) :
    ∃ w', w.run es = some w' ∧
      w'.Represents { p | ∃ mm, .init p mm none ∈ es } (es.foldl MemSys.event s) := by
  have hstart : w.Represents ∅ s :=
    ⟨fun _ => ∅, fun p hp => absurd hp (Set.notMem_empty p), fun p hp =>
      absurd hp (Set.notMem_empty p)⟩
  obtain ⟨w', hrun, hw'⟩ := hstart.run hes
  exact ⟨w', hrun, hw'.mono fun p hp => .inr hp⟩

lemma lt_of_not_live (a : ℕ) (hlive : false = true) : a < 0 := absurd hlive Bool.false_ne_true

/-- Memory in which nothing was allocated. -/
def unused : RegionMem := ⟨fun _ => ⟨⟨0, 0⟩, none⟩, fun _ => false, 0, lt_of_not_live⟩

/-- Two processes allocate 100 bytes each, and one of them the rest of its page. -/
def twoLists : List (NodeEvent Bool) :=
  [.init false ⟨fun _ => 0#32, [], fun _ => ⟨0, 0⟩, []⟩ none,
    .init true ⟨fun _ => 0#32, [], fun _ => ⟨0, 0⟩, []⟩ none,
    .call false (.alloc 0 100), .call true (.alloc 0 100), .call false (.alloc 1 156)]

/-- The region of 156 bytes uses up its node, which takes over the node that `init_mm` made. -/
theorem run_represents_two_lists : ∃ w',
    NodeSys.run ⟨unused, fun _ => ⟨0, 0, none, fun _ => ⟨0, 0⟩⟩⟩ twoLists = some w' ∧
    w'.heap.live 0 = false ∧
    w'.Represents { p | ∃ mm, .init p mm none ∈ twoLists }
      (twoLists.foldl MemSys.event (MemSys.fresh Bool 512 512)) := by
  have hes : Started ∅ twoLists := by simp [twoLists, Started]
  obtain ⟨w', hrun, hw'⟩ := run_represents ⟨unused, fun _ => ⟨0, 0, none, fun _ => ⟨0, 0⟩⟩⟩
    (MemSys.fresh Bool 512 512) hes
  have hfreed : (NodeSys.run ⟨unused, fun _ => ⟨0, 0, none, fun _ => ⟨0, 0⟩⟩⟩ twoLists).map
      (fun w => w.heap.live 0) = some false := by decide +kernel
  rw [hrun] at hfreed
  exact ⟨w', hrun, Option.some.inj hfreed, hw'⟩

end NodeSys

end Ossim
