import Ossim.Paging.Devices
import Ossim.Paging.PageTable
import Ossim.Tlb.Cpu

/-!
# Processes that share one TLB

Any number of processes execute instructions on one RAM device, one active swap device and one TLB.
Each of `tlballoc`, `tlbfree_data`, `tlbread` and `tlbwrite` holds `tlb_lock` from start to end, so
an interleaving is a sequence of instructions, each executed by one process; since the programs are
arbitrary, so is the sequence.  A READ into register 10 or above, which in C stores on `pc`, `prio`
and the pointers behind `regs`, and an instruction with a region id of 30 or above, which uses the
memory behind `symrgtbl`, store in cells of their own here (see `Ossim.Tlb.Cpu`); theorems that are
about all operands say nothing about what C does with such an index.

An instruction reaches memory through few operations: calls of `__alloc`, `__free`, `__read` and
`__write`, a `pg_getpage` of its own, and a direct write to RAM on a hit.  `Pcb.memOps` lists
them, and `TlbSys.mem_run` says that they are all an instruction does to memory.
-/

namespace Ossim

/-! ## Finding the page of an access -/

namespace Pcb

/-- The page that `tlbread` and `tlbwrite` look up. -/
def lookupPgn (p : Pcb) (i offset : Word) : ℕ := pagingPgn (p.regAddr i offset)

/-- The lookup found an entry that is not present, so the page is fetched. -/
abbrev Fetches (p : Pcb) (i offset : Word) : Prop := (p.tlbLookup i offset).2.getD 0 = -1

/-- The value of `frmnum` with which an access goes on and the caller then; `none` if the page could
not be fetched. -/
def located (p : Pcb) (i offset : Word) : Option (ℤ × Caller) :=
  if p.Fetches i offset then
    match p.caller.pgGetpage (p.lookupPgn i offset) with
    | (none, _) => none
    | (some frmnum, caller) => some (frmnum, caller)
  else some ((p.tlbLookup i offset).1, p.caller)

/-- `tlbread`, by what finding the page gave. -/
lemma tlbread_located (junk : Byte) (p : Pcb) (source offset destination : Word) :
    p.tlbread junk source offset destination =
      match p.located source offset with
      | none => (-1, { p with caller := (p.caller.pgGetpage (p.lookupPgn source offset)).2 })
      | some (frmnum, caller) => tlbreadFrom junk { p with caller := caller }
        (p.lookupPgn source offset) frmnum source offset destination := by
  unfold tlbread located Fetches lookupPgn
  dsimp only
  by_cases h : (p.tlbLookup source offset).2.getD 0 = -1
  · rw [if_pos h, if_pos h]
    generalize p.caller.pgGetpage _ = page
    obtain ⟨_ | frmnum, caller⟩ := page <;> rfl
  · rw [if_neg h, if_neg h]

/-- `tlbwrite`, by what finding the page gave. -/
lemma tlbwrite_located (p : Pcb) (data : Byte) (destination offset : Word) :
    p.tlbwrite data destination offset =
      match p.located destination offset with
      | none => (-1, { p with caller := (p.caller.pgGetpage (p.lookupPgn destination offset)).2 })
      | some (frmnum, caller) => tlbwriteTo { p with caller := caller }
        (p.lookupPgn destination offset) (pagingOffst (p.regAddr destination offset)) frmnum data
        destination offset := by
  unfold tlbwrite located Fetches lookupPgn
  dsimp only
  by_cases h : (p.tlbLookup destination offset).2.getD 0 = -1
  · rw [if_pos h, if_pos h]
    generalize p.caller.pgGetpage _ = page
    obtain ⟨_ | frmnum, caller⟩ := page <;> rfl
  · rw [if_neg h, if_neg h]

end Pcb

/-! ## What instructions do to memory -/

/-- An operation on the memory of a process. -/
inductive MemOp
  /-- One of the four calls. -/
  | call (k : MemCall)
  /-- `pg_getpage`. -/
  | getPage (pgn : ℕ)
  /-- `MEMPHY_write` to RAM. -/
  | store (addr : ℤ) (data : Byte)
  deriving DecidableEq

/-- The caller after an operation. -/
def MemOp.run (c : Caller) : MemOp → Caller
  | .call k => (k.run c).2.2
  | .getPage pgn => (c.pgGetpage pgn).2
  | .store addr data => { c with mram := (c.mram.write addr data).2 }

/-- An operation keeps the single area. -/
lemma MemOp.run_area {c : Caller} (hv : ∃ v, c.mm.mmap = [v]) (o : MemOp) :
    ∃ v, (o.run c).mm.mmap = [v] := by
  obtain ⟨v, hv⟩ := hv
  cases o with
  | call k => exact k.run_area hv
  | getPage pgn => exact ⟨v, (c.pgGetpage_frame pgn).1.trans hv⟩
  | store addr data => exact ⟨v, hv⟩

/-- An operation keeps the sizes and access modes of the devices. -/
lemma MemOp.geometry_run (o : MemOp) (c : Caller) : (o.run c).geometry = c.geometry := by
  cases o with
  | call k => exact k.geometry_run c
  | getPage pgn => exact c.geometry_pgGetpage pgn
  | store addr data =>
    funext d
    cases d with
    | mram => exact c.mram.geometry_write addr data
    | activeMswp => rfl

/-- An operation maps entries of the page table only. -/
def MemOp.MapsInside (c : Caller) : MemOp → Prop
  | .call k => c.MapsInside k
  | .getPage pgn => pgn < pagingMaxPgn
  | .store _ _ => True

lemma MemOp.inTable_run {c : Caller} (hv : ∃ v, c.mm.mmap = [v]) (h : InTable c.mm) {o : MemOp}
    (hinside : o.MapsInside c) : InTable (o.run c).mm := by
  obtain ⟨v, hv⟩ := hv
  cases o with
  | call k => exact k.inTable_run hv h hinside
  | getPage pgn => exact Caller.inTable_pgGetpage h hinside
  | store addr data => exact h

namespace Pcb

/-- The operations of `tlbread` and `tlbwrite`: fetching the page, and then what `access` says for
the value of `frmnum`. -/
def accessOps (p : Pcb) (i offset : Word) (access : ℤ → List MemOp) : List MemOp :=
  (if p.Fetches i offset then [.getPage (p.lookupPgn i offset)] else []) ++
    (p.located i offset).elim [] fun found => access found.1

/-- The operations of an instruction, in order. -/
def memOps (p : Pcb) : Inst → List MemOp
  | .calc => []
  | .alloc size regIndex => [.call (.alloc regIndex.toInt size.toInt)]
  | .free regIndex =>
    if pagingMaxSymtblSz ≤ regIndex.toNat then []
    else if (p.caller.mm.symrgtbl regIndex.toNat).rgStart = 0 ∧
      (p.caller.mm.symrgtbl regIndex.toNat).rgEnd = 0 then []
    else [.call (.free regIndex.toInt)]
  | .read source offset _ => p.accessOps source offset fun frmnum =>
    if frmnum > 0 then [] else [.call (.read source.toInt offset.toInt)]
  | .write data destination offset => p.accessOps destination offset fun frmnum =>
    if frmnum ≥ 0 then
      [.store (frmnum * 2 ^ pagingPageszBits + pagingOffst (p.regAddr destination offset))
        (data.setWidth 8)]
    else [.call (.write destination.toInt offset.toInt (data.setWidth 8))]

lemma mem_accessOps {p : Pcb} {i offset : Word} {access : ℤ → List MemOp} {o : MemOp}
    (ho : o ∈ p.accessOps i offset access) :
    o = .getPage (p.lookupPgn i offset) ∨ ∃ found, p.located i offset = some found ∧
      o ∈ access found.1 := by
  rcases List.mem_append.mp ho with ho | ho
  · split at ho
    · exact .inl (List.mem_singleton.mp ho)
    · cases ho
  · cases hfound : p.located i offset with
    | none => simp [hfound] at ho
    | some found =>
      rw [hfound] at ho
      exact .inr ⟨found, rfl, ho⟩

/-- `tlballoc` allocates as `pgalloc`. -/
lemma tlballoc_eq (p : Pcb) (size regIndex : Word) :
    ∃ tlb, p.tlballoc size regIndex =
      ((p.pgalloc size regIndex).1, (p.pgalloc size regIndex).2.setTlb tlb) := by
  have hstatus := p.caller.alloc_status 0 regIndex.toInt size.toInt
  unfold tlballoc pgalloc
  generalize p.caller.alloc 0 regIndex.toInt size.toInt = allocated at hstatus ⊢
  obtain ⟨val, addr, caller⟩ := allocated
  obtain rfl : val = 0 := hstatus
  obtain ⟨tlb, htlb⟩ := foldl_setTlb tlballocPage_setTlb
    (List.range' (pagingPgn (BitVec.ofInt 32 addr))
      ((size + BitVec.ofNat 32 (pagingPagesz - 1)).toNat / pagingPagesz))
    { p with caller := caller }
  exact ⟨tlb, Prod.ext rfl htlb⟩

/-- The caller after finding the page of an access. -/
lemma foldl_accessOps (p : Pcb) (i offset : Word) (access : ℤ → List MemOp) :
    (p.accessOps i offset access).foldl MemOp.run p.caller =
      match p.located i offset with
      | none => (p.caller.pgGetpage (p.lookupPgn i offset)).2
      | some (frmnum, caller) => (access frmnum).foldl MemOp.run caller := by
  unfold accessOps located
  by_cases h : p.Fetches i offset
  · rw [if_pos h, if_pos h, List.foldl_append]
    show List.foldl MemOp.run (p.caller.pgGetpage (p.lookupPgn i offset)).2 _ = _
    generalize p.caller.pgGetpage (p.lookupPgn i offset) = page
    obtain ⟨_ | frmnum, caller⟩ := page <;> rfl
  · rw [if_neg h, if_neg h]
    rfl

/-- The caller after an instruction: its operations are all it does to memory. -/
lemma caller_run (junk : Byte) (ins : Inst) (p : Pcb) :
    (BackEnd.tlb.run junk ins p).2.caller = (p.memOps ins).foldl MemOp.run p.caller := by
  cases ins with
  | «calc» => rfl
  | alloc size regIndex =>
    obtain ⟨tlb, htlb⟩ := tlballoc_eq p size regIndex
    show (p.tlballoc size regIndex).2.caller = _
    rw [htlb]
    rfl
  | free regIndex =>
    show (p.tlbfreeData regIndex).2.caller = _
    unfold tlbfreeData memOps
    dsimp only
    split
    · rfl
    · split
      · rfl
      · obtain ⟨tlb, htlb⟩ := foldl_setTlb tlbfreePage_setTlb _ _
        rw [htlb]
        rfl
  | read source offset destination =>
    show (p.tlbread junk source offset destination).2.caller = _
    rw [tlbread_located, memOps, foldl_accessOps]
    cases p.located source offset with
    | none => rfl
    | some found =>
      obtain ⟨frmnum, caller⟩ := found
      dsimp only
      unfold tlbreadFrom
      split <;> rfl
  | write data destination offset =>
    show (p.tlbwrite (data.setWidth 8) destination offset).2.caller = _
    rw [tlbwrite_located, memOps, foldl_accessOps]
    cases p.located destination offset with
    | none => rfl
    | some found =>
      obtain ⟨frmnum, caller⟩ := found
      dsimp only
      unfold tlbwriteTo
      split <;> rfl

end Pcb

/-! ## All processes -/

/-- What each process owns and what they share. -/
structure TlbSys (Pid : Type*) where
  /-- `pid` of each process. -/
  pid : Pid → Word
  /-- `regs` of each process. -/
  regs : Pid → ℕ → Word
  /-- The memory of all processes. -/
  mem : MemSys Pid
  /-- The TLB. -/
  tlb : Memphy

/-- The memory after an operation of a process. -/
def MemSys.op {Pid : Type*} [DecidableEq Pid] (p : Pid) (s : MemSys Pid) (o : MemOp) : MemSys Pid :=
  s.put p (o.run (s.caller p))

namespace TlbSys

variable {Pid : Type*}

/-- A process. -/
def pcb (s : TlbSys Pid) (p : Pid) : Pcb := ⟨s.pid p, s.regs p, s.mem.caller p, s.tlb⟩

/-- A freshly initialised system with `ram` bytes of RAM and `swp` bytes of swap, with cleared
registers and a cleared TLB of the size that `read_config` sets. -/
def fresh (pid : Pid → Word) (ram swp : ℤ) : TlbSys Pid where
  pid := pid
  regs _ _ := 0
  mem := .fresh Pid ram swp
  tlb := ⟨fun _ => 0, 0x10000, true, 0, []⟩

variable [DecidableEq Pid]

/-- The state after a process executed an instruction. -/
def run (s : TlbSys Pid) (p : Pid) (ins : Inst) (junk : Byte) : TlbSys Pid :=
  let proc := (BackEnd.tlb.run junk ins (s.pcb p)).2
  ⟨s.pid, Function.update s.regs p proc.regs, s.mem.put p proc.caller, proc.tlb⟩

/-- Storing the caller after several operations is performing them one by one. -/
lemma put_foldl (p : Pid) (ops : List MemOp) (s : MemSys Pid) :
    s.put p (ops.foldl MemOp.run (s.caller p)) = ops.foldl (MemSys.op p) s := by
  induction ops generalizing s with
  | nil => exact s.put_caller p
  | cons o ops ih =>
    have hcaller : (s.op p o).caller p = o.run (s.caller p) := by
      simp [MemSys.op, MemSys.caller, MemSys.put]
    have hput : ∀ c, (s.op p o).put p c = s.put p c := by
      simp [MemSys.op, MemSys.put]
    rw [List.foldl_cons, List.foldl_cons, ← ih, hcaller, hput]

/-- What an instruction does to memory. -/
lemma mem_run (s : TlbSys Pid) (p : Pid) (ins : Inst) (junk : Byte) :
    (s.run p ins junk).mem = ((s.pcb p).memOps ins).foldl (MemSys.op p) s.mem := by
  rw [← put_foldl]
  exact congrArg (s.mem.put p) (Pcb.caller_run junk ins (s.pcb p))

end TlbSys

/-- The instructions of all processes, interleaved in any order.  The devices and the address spaces
are initialised; the registers and the bytes of the TLB are what they were. -/
def instSystem (Pid : Type*) [DecidableEq Pid] : LTS (TlbSys Pid) (Pid × Inst × Byte) where
  start s := s.mem.Initial ∧ cacheLineSize ≤ s.tlb.maxsz
  step s a s' := s' = s.run a.1 a.2.1 a.2.2

lemma start_fresh {Pid : Type*} [DecidableEq Pid] (pid : Pid → Word) (ram swp : ℤ) :
    (instSystem Pid).start (.fresh pid ram swp) := by
  have hsize : cacheLineSize ≤ 0x10000 := by decide
  exact ⟨MemSys.initial_fresh ram swp, hsize⟩

end Ossim
