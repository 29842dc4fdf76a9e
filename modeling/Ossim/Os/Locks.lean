import Ossim.Lib.Locks
import Ossim.Sched.Mlq
import Ossim.Tlb.Cpu

/-!
# Lock discipline

The calls of a CPU with their locks: the memory instructions of `src/cpu-tlb.c` and `src/mm-vm.c`
and the scheduler calls of `src/sched.c` as programs over `tlb_lock`, `mmvm_lock` and
`queue_lock`, with every return where the source has it.  The `exec` lemmas say that such a
program, run alone, is the function of the other modules.

`tlb_lock` is taken first and `mmvm_lock` inside it, `queue_lock` alone.  `cpus_disciplined` draws
the consequence for any number of CPUs and every interleaving.
-/

namespace Ossim

open Locks Prog

/-- The mutexes. -/
inductive Lock
  | tlbLock
  | mmvmLock
  | queueLock
  deriving DecidableEq

/-- The order in which they are taken. -/
def Lock.rank : Lock → ℕ
  | .tlbLock => 0
  | .mmvmLock => 1
  | .queueLock => 2

/-- What the calls work on. -/
structure CpuData where
  /-- The process of the CPU, with the memory. -/
  pcb : Pcb
  /-- The scheduler. -/
  sched : Sched ℕ

/-- A call. -/
abbrev Call (ρ : Type) := Prog Lock CpuData ρ

namespace Locked

/-- An action on the process. -/
def onPcb {β : Type} (f : Pcb → β × Pcb) : Call β :=
  perform fun s => ((f s.pcb).1, { s with pcb := (f s.pcb).2 })

/-- An action on the memory of the process. -/
def onCaller {β : Type} (f : Caller → β × Caller) : Call β :=
  onPcb fun p => ((f p.caller).1, { p with caller := (f p.caller).2 })

/-- An action on the scheduler. -/
def onSched {β : Type} (f : Sched ℕ → β × Sched ℕ) : Call β :=
  perform fun s => ((f s.sched).1, { s with sched := (f s.sched).2 })

/-! ## `src/mm-vm.c` -/

/-- `__alloc`: the status and the address. -/
def alloc (vmaid rgid size : ℤ) : Call (ℤ × ℤ) := do
  acquire .mmvmLock
  match ← onCaller fun c => c.getFreeVmrgArea vmaid size with
  | some rgnode =>
    onCaller fun c => ((), { c with mm := c.mm.setSymrg rgid rgnode })
    release .mmvmLock
    return (0, cint rgnode.rgStart)
  | none =>
    let (val, addr) ← onCaller fun c =>
      let (val, addr, c) := c.allocAtBrk vmaid rgid size
      ((val, addr), c)
    release .mmvmLock
    return (val, addr)

/-- `__free`. -/
def free (_vmaid rgid : ℤ) : Call ℤ := do
  acquire .mmvmLock
  if rgid < 0 ∨ rgid > pagingMaxSymtblSz then
    release .mmvmLock
    return -1
  else
    onCaller fun c => ((), { c with mm := c.mm.enlistVmFreergList (c.mm.symrgtbl rgid) })
    release .mmvmLock
    return 0

/-- `__read`: the status and the byte stored through `data`. -/
def read (vmaid rgid offset : ℤ) : Call (ℤ × Option Byte) := do
  acquire .mmvmLock
  let currg ← onCaller fun c => (c.mm.getSymrgByid rgid, c)
  let curVma ← onCaller fun c => (c.mm.getVmaByNum vmaid, c)
  match currg, curVma with
  | some currg, some _ =>
    let data ← onCaller fun c => (c.pgGetval (Caller.regionAddr currg offset)).2
    release .mmvmLock
    return (0, data)
  | _, _ =>
    release .mmvmLock
    return (-1, none)

/-- `__write`. -/
def write (vmaid rgid offset : ℤ) (value : Byte) : Call ℤ := do
  acquire .mmvmLock
  let currg ← onCaller fun c => (c.mm.getSymrgByid rgid, c)
  let curVma ← onCaller fun c => (c.mm.getVmaByNum vmaid, c)
  match currg, curVma with
  | some currg, some _ =>
    let _ ← onCaller fun c => c.pgSetval (Caller.regionAddr currg offset) value
    release .mmvmLock
    return 0
  | _, _ =>
    release .mmvmLock
    return -1

/-- `pgalloc`. -/
def pgalloc (size regIndex : Word) : Call ℤ := do
  let (val, _) ← alloc 0 regIndex.toInt size.toInt
  return val

/-- `pgfree_data`. -/
def pgfreeData (regIndex : Word) : Call ℤ := free 0 regIndex.toInt

/-- `pgread`, which prints under the lock after the read. -/
def pgread (source offset _destination : Word) : Call ℤ := do
  let (val, _) ← read 0 source.toInt offset.toInt
  acquire .mmvmLock
  release .mmvmLock
  return val

/-- `pgwrite`, which prints under the lock before the write. -/
def pgwrite (data : Byte) (destination offset : Word) : Call ℤ := do
  acquire .mmvmLock
  release .mmvmLock
  write 0 destination.toInt offset.toInt data

/-! ## `src/cpu-tlb.c` -/

/-- `tlballoc`; `null` says whether the process or its memory is `NULL`. -/
def tlballoc (null : Bool) (size regIndex : Word) : Call ℤ := do
  if null then return -1
  else
    acquire .tlbLock
    let (val, addr) ← alloc 0 regIndex.toInt size.toInt
    if val ≠ 0 then
      release .tlbLock
      return val
    else
      let numPages := (size + BitVec.ofNat 32 (pagingPagesz - 1)).toNat / pagingPagesz
      let startPage := pagingPgn (BitVec.ofInt 32 addr)
      onPcb fun p => ((), (List.range' startPage numPages).foldl Pcb.tlballocPage p)
      release .tlbLock
      return 0

/-- The second half of `tlbfree_data`, for the region found at the index. -/
def tlbfreeRegion (regIndex : Word) (region : VmRg) : Call ℤ := do
  if region.rgStart = 0 ∧ region.rgEnd = 0 then
    release .tlbLock
    return -1
  else
    let _ ← free 0 regIndex.toInt
    onPcb fun p =>
      let region := p.caller.mm.symrgtbl regIndex.toNat
      let startPage := pagingPgn (BitVec.ofNat 32 region.rgStart)
      let endPage := pagingPgn (BitVec.ofInt 32 (region.rgEnd - 1))
      ((), (List.range' startPage (endPage + 1 - startPage)).foldl Pcb.tlbfreePage p)
    release .tlbLock
    return 0

/-- `tlbfree_data`. -/
def tlbfreeData (null : Bool) (regIndex : Word) : Call ℤ := do
  if null ∨ pagingMaxSymtblSz ≤ regIndex.toNat then return -1
  else
    acquire .tlbLock
    let region ← onCaller fun c => (c.mm.symrgtbl regIndex.toNat, c)
    tlbfreeRegion regIndex region

/-- The end of `tlbread`, for the status of the access and the byte that was read. -/
def tlbreadEnd (status : ℤ) (destination : Word) (data : Byte) : Call ℤ := do
  if status = -1 then
    release .tlbLock
    return -1
  else
    onPcb fun p => ((), p.setReg destination (byteInt data))
    release .tlbLock
    return 0

/-- `tlb_cache_write` of the entry of a page. -/
def tlbRefill (pgn : ℕ) : Call ℤ :=
  onPcb fun p =>
    ((tlbCacheWrite p.tlb p.pid pgn (p.caller.mm.pgd pgn)).1, p.tlbRefill pgn)

/-- The second half of `tlbread`, for a page `pgn` and the value of `frmnum`. -/
def tlbreadFrom (junk : Byte) (pgn : ℕ) (frmnum : ℤ) (source offset destination : Word) :
    Call ℤ := do
  if frmnum > 0 then
    let phyaddr := cint (frmnum * 2 ^ pagingPageszBits + offset.toNat)
    let (status, data) ← onCaller fun c => (tlbmemphyRead c.mram phyaddr, c)
    tlbreadEnd status destination data
  else
    let (_, data) ← read 0 source.toInt offset.toInt
    let status ← tlbRefill pgn
    tlbreadEnd status destination (data.getD junk)

/-- `tlbread` behind the lookup of the page `pgn`, which returned `frmnum` and stored `check`. -/
def tlbreadPage (junk : Byte) (pgn : ℕ) (frmnum : ℤ) (check : Option Byte)
    (source offset destination : Word) : Call ℤ := do
  if check.getD 0 = -1 then
    match ← onCaller fun c => c.pgGetpage pgn with
    | none =>
      release .tlbLock
      return -1
    | some frmnum => tlbreadFrom junk pgn frmnum source offset destination
  else tlbreadFrom junk pgn frmnum source offset destination

/-- `tlbread`. -/
def tlbread (junk : Byte) (source offset destination : Word) : Call ℤ := do
  acquire .tlbLock
  let pgn ← onPcb fun p => (pagingPgn (p.regAddr source offset), p)
  let (frmnum, check) ← onPcb fun p => (p.tlbLookup source offset, p)
  tlbreadPage junk pgn frmnum check source offset destination

/-- The end of `tlbwrite` after a miss, for the status of the refill. -/
def tlbwriteEnd (status val : ℤ) : Call ℤ := do
  if status = -1 then
    release .tlbLock
    return -1
  else
    release .tlbLock
    return val

/-- The second half of `tlbwrite`, for a page `pgn` with the offset `off` in it and the value of
`frmnum`. -/
def tlbwriteTo (pgn off : ℕ) (frmnum : ℤ) (data : Byte) (destination offset : Word) :
    Call ℤ := do
  if frmnum ≥ 0 then
    let phyaddr := frmnum * 2 ^ pagingPageszBits + off
    let val ← onCaller fun c =>
      let (val, mram) := c.mram.write phyaddr data
      (val, { c with mram := mram })
    release .tlbLock
    return val
  else
    let val ← write 0 destination.toInt offset.toInt data
    let status ← tlbRefill pgn
    tlbwriteEnd status val

/-- `tlbwrite` behind the lookup of the page `pgn`, which returned `frmnum` and stored `check`. -/
def tlbwritePage (pgn off : ℕ) (frmnum : ℤ) (check : Option Byte) (data : Byte)
    (destination offset : Word) : Call ℤ := do
  if check.getD 0 = -1 then
    match ← onCaller fun c => c.pgGetpage pgn with
    | none =>
      release .tlbLock
      return -1
    | some frmnum => tlbwriteTo pgn off frmnum data destination offset
  else tlbwriteTo pgn off frmnum data destination offset

/-- `tlbwrite`. -/
def tlbwrite (data : Byte) (destination offset : Word) : Call ℤ := do
  acquire .tlbLock
  let pgn ← onPcb fun p => (pagingPgn (p.regAddr destination offset), p)
  let off ← onPcb fun p => (pagingOffst (p.regAddr destination offset), p)
  let (frmnum, check) ← onPcb fun p => (p.tlbLookup destination offset, p)
  tlbwritePage pgn off frmnum check data destination offset

/-! ## `src/sched.c` -/

/-- `get_mlq_proc`. -/
def getMlqProc : Call (Option ℕ) := do
  acquire .queueLock
  let proc ← onSched fun s => s.getMlqProc
  release .queueLock
  return proc

/-- `put_mlq_proc`. -/
def putMlqProc (prio : ℕ → Prio) (proc : ℕ) : Call Unit := do
  acquire .queueLock
  onSched fun s => ((), s.putMlqProc prio proc)
  release .queueLock

/-- `add_mlq_proc`. -/
def addMlqProc (prio : ℕ → Prio) (proc : ℕ) : Call Unit := do
  acquire .queueLock
  onSched fun s => ((), s.putMlqProc prio proc)
  release .queueLock

/-! ## `src/cpu.c` -/

/-- The switch of `run`. -/
def run (b : Build) (junk : Byte) (null : Bool) : Inst → Call ℤ
  | .calc => pure 0
  | .alloc size regIndex =>
    match b with
    | .tlb => tlballoc null size regIndex
    | .paging => pgalloc size regIndex
  | .free regIndex =>
    match b with
    | .tlb => tlbfreeData null regIndex
    | .paging => pgfreeData regIndex
  | .read source offset destination =>
    match b with
    | .tlb => tlbread junk source offset destination
    | .paging => pgread source offset destination
  | .write data destination offset =>
    match b with
    | .tlb => tlbwrite (data.setWidth 8) destination offset
    | .paging => pgwrite (data.setWidth 8) destination offset

/-! ## A call alone -/

variable {s : CpuData}

@[simp] lemma exec_onPcb {β : Type} (f : Pcb → β × Pcb) :
    (onPcb f).exec s = ((f s.pcb).1, { s with pcb := (f s.pcb).2 }) := rfl

@[simp] lemma exec_onCaller {β : Type} (f : Caller → β × Caller) :
    (onCaller f).exec s = ((f s.pcb.caller).1,
      { s with pcb := { s.pcb with caller := (f s.pcb.caller).2 } }) := rfl

@[simp] lemma exec_onSched {β : Type} (f : Sched ℕ → β × Sched ℕ) :
    (onSched f).exec s = ((f s.sched).1, { s with sched := (f s.sched).2 }) := rfl

/-- The data with another memory of the process. -/
def withCaller (s : CpuData) (c : Caller) : CpuData := { s with pcb := { s.pcb with caller := c } }

lemma exec_alloc (vmaid rgid size : ℤ) :
    (alloc vmaid rgid size).exec s =
      (((s.pcb.caller.alloc vmaid rgid size).1, (s.pcb.caller.alloc vmaid rgid size).2.1),
        withCaller s (s.pcb.caller.alloc vmaid rgid size).2.2) := by
  unfold alloc Caller.alloc
  simp only [exec_bind, exec_acquire, exec_onCaller]
  generalize s.pcb.caller.getFreeVmrgArea vmaid size = found
  obtain ⟨found, c⟩ := found
  cases found with
  | some rgnode =>
    simp only [exec_bind, exec_onCaller, exec_release, exec_pure]
    rfl
  | none =>
    dsimp only
    generalize hbrk : c.allocAtBrk vmaid rgid size = grown
    simp only [exec_bind, exec_onCaller, exec_release, exec_pure, hbrk]
    rfl

lemma exec_free (vmaid rgid : ℤ) :
    (free vmaid rgid).exec s =
      ((s.pcb.caller.free vmaid rgid).1, withCaller s (s.pcb.caller.free vmaid rgid).2) := by
  unfold free Caller.free
  simp only [exec_bind, exec_acquire]
  split <;> rfl

lemma exec_read (vmaid rgid offset : ℤ) :
    (read vmaid rgid offset).exec s =
      (((s.pcb.caller.read vmaid rgid offset).1, (s.pcb.caller.read vmaid rgid offset).2.1),
        withCaller s (s.pcb.caller.read vmaid rgid offset).2.2) := by
  unfold read Caller.read
  simp only [exec_bind, exec_acquire, exec_onCaller]
  cases s.pcb.caller.mm.getSymrgByid rgid <;> cases s.pcb.caller.mm.getVmaByNum vmaid <;> rfl

lemma exec_write (vmaid rgid offset : ℤ) (value : Byte) :
    (write vmaid rgid offset value).exec s =
      ((s.pcb.caller.write vmaid rgid offset value).1,
        withCaller s (s.pcb.caller.write vmaid rgid offset value).2) := by
  unfold write Caller.write
  simp only [exec_bind, exec_acquire, exec_onCaller]
  cases s.pcb.caller.mm.getSymrgByid rgid <;> cases s.pcb.caller.mm.getVmaByNum vmaid <;> rfl

/-- The data with another process. -/
def withPcb (s : CpuData) (p : Pcb) : CpuData := { s with pcb := p }

lemma exec_tlballoc (size regIndex : Word) :
    (tlballoc false size regIndex).exec s =
      ((s.pcb.tlballoc size regIndex).1, withPcb s (s.pcb.tlballoc size regIndex).2) := by
  unfold tlballoc Pcb.tlballoc
  simp only [Bool.false_eq_true, if_false, exec_bind, exec_acquire, exec_alloc]
  split <;> rfl

lemma exec_tlbfreeData (regIndex : Word) :
    (tlbfreeData false regIndex).exec s =
      ((s.pcb.tlbfreeData regIndex).1, withPcb s (s.pcb.tlbfreeData regIndex).2) := by
  unfold tlbfreeData Pcb.tlbfreeData
  by_cases hbound : pagingMaxSymtblSz ≤ regIndex.toNat
  · rw [if_pos (.inr hbound), if_pos hbound]
    rfl
  · have hvalid : ¬ (false = true ∨ pagingMaxSymtblSz ≤ regIndex.toNat) := by simpa using hbound
    rw [if_neg hvalid, if_neg hbound]
    show (tlbfreeRegion regIndex (s.pcb.caller.mm.symrgtbl regIndex.toNat)).exec s = _
    unfold tlbfreeRegion
    split
    · rfl
    · rw [exec_bind, exec_free]
      rfl

/-- The refill does not fail. -/
lemma exec_tlbRefill (pgn : ℕ) :
    (tlbRefill pgn).exec s = (0, withPcb s (s.pcb.tlbRefill pgn)) := by
  have hstatus : (tlbCacheWrite s.pcb.tlb s.pcb.pid pgn (s.pcb.caller.mm.pgd pgn)).1 = 0 := by
    unfold tlbCacheWrite
    rw [if_neg (by omega)]
  unfold tlbRefill
  rw [exec_onPcb, hstatus]
  rfl

lemma exec_tlbreadFrom (junk : Byte) (pgn : ℕ) (frmnum : ℤ) (source offset destination : Word) :
    (tlbreadFrom junk pgn frmnum source offset destination).exec s =
      ((Pcb.tlbreadFrom junk s.pcb pgn frmnum source offset destination).1,
        withPcb s (Pcb.tlbreadFrom junk s.pcb pgn frmnum source offset destination).2) := by
  unfold tlbreadFrom Pcb.tlbreadFrom
  split
  · rfl
  · simp only [exec_bind, exec_read, exec_tlbRefill]
    rfl

lemma exec_tlbread (junk : Byte) (source offset destination : Word) :
    (tlbread junk source offset destination).exec s =
      ((Pcb.tlbread junk s.pcb source offset destination).1,
        withPcb s (Pcb.tlbread junk s.pcb source offset destination).2) := by
  show (tlbreadPage junk (pagingPgn (s.pcb.regAddr source offset))
    (s.pcb.tlbLookup source offset).1 (s.pcb.tlbLookup source offset).2 source offset
    destination).exec s = _
  unfold tlbreadPage Pcb.tlbread
  dsimp only
  split
  · rw [exec_bind, exec_onCaller]
    generalize s.pcb.caller.pgGetpage (pagingPgn (s.pcb.regAddr source offset)) = got
    obtain ⟨_ | frmnum, c⟩ := got
    · rfl
    · exact exec_tlbreadFrom junk _ _ source offset destination
  · exact exec_tlbreadFrom junk _ _ source offset destination

lemma exec_tlbwriteTo (pgn off : ℕ) (frmnum : ℤ) (data : Byte) (destination offset : Word) :
    (tlbwriteTo pgn off frmnum data destination offset).exec s =
      ((Pcb.tlbwriteTo s.pcb pgn off frmnum data destination offset).1,
        withPcb s (Pcb.tlbwriteTo s.pcb pgn off frmnum data destination offset).2) := by
  unfold tlbwriteTo Pcb.tlbwriteTo
  split
  · rfl
  · simp only [exec_bind, exec_write, exec_tlbRefill]
    rfl

lemma exec_tlbwrite (data : Byte) (destination offset : Word) :
    (tlbwrite data destination offset).exec s =
      ((s.pcb.tlbwrite data destination offset).1,
        withPcb s (s.pcb.tlbwrite data destination offset).2) := by
  show (tlbwritePage (pagingPgn (s.pcb.regAddr destination offset))
    (pagingOffst (s.pcb.regAddr destination offset)) (s.pcb.tlbLookup destination offset).1
    (s.pcb.tlbLookup destination offset).2 data destination offset).exec s = _
  unfold tlbwritePage Pcb.tlbwrite
  dsimp only
  split
  · rw [exec_bind, exec_onCaller]
    generalize s.pcb.caller.pgGetpage (pagingPgn (s.pcb.regAddr destination offset)) = got
    obtain ⟨_ | frmnum, c⟩ := got
    · rfl
    · exact exec_tlbwriteTo _ _ _ data destination offset
  · exact exec_tlbwriteTo _ _ _ data destination offset

/-- `run`, alone, is the switch between the functions without locks. -/
theorem exec_run (b : Build) (junk : Byte) (ins : Inst) :
    (run b junk false ins).exec s =
      ((b.backEnd.run junk ins s.pcb).1, withPcb s (b.backEnd.run junk ins s.pcb).2) := by
  cases ins with
  | «calc» => rfl
  | alloc size regIndex =>
    cases b with
    | tlb => exact exec_tlballoc size regIndex
    | paging =>
      show (pgalloc size regIndex).exec s = _
      unfold pgalloc
      simp only [exec_bind, exec_alloc]
      rfl
  | free regIndex =>
    cases b with
    | tlb => exact exec_tlbfreeData regIndex
    | paging => exact exec_free 0 regIndex.toInt
  | read source offset destination =>
    cases b with
    | tlb => exact exec_tlbread junk source offset destination
    | paging =>
      show (pgread source offset destination).exec s = _
      unfold pgread
      simp only [exec_bind, exec_read]
      rfl
  | write data destination offset =>
    cases b with
    | tlb => exact exec_tlbwrite (data.setWidth 8) destination offset
    | paging =>
      show (pgwrite (data.setWidth 8) destination offset).exec s = _
      unfold pgwrite
      simp only [exec_bind, exec_acquire, exec_release]
      exact exec_write 0 destination.toInt offset.toInt (data.setWidth 8)

lemma exec_getMlqProc :
    getMlqProc.exec s = (s.sched.getMlqProc.1, { s with sched := s.sched.getMlqProc.2 }) := rfl

lemma exec_putMlqProc (prio : ℕ → Prio) (proc : ℕ) :
    (putMlqProc prio proc).exec s = ((), { s with sched := s.sched.putMlqProc prio proc }) := rfl

lemma exec_addMlqProc (prio : ℕ → Prio) (proc : ℕ) :
    (addMlqProc prio proc).exec s = ((), { s with sched := s.sched.putMlqProc prio proc }) := rfl

/-! ## All paths of a call -/

section

variable {h : List Lock}

lemma runs_onPcb {β : Type} (f : Pcb → β × Pcb) : (onPcb f).Runs Lock.rank h h := .perform _

lemma runs_onCaller {β : Type} (f : Caller → β × Caller) : (onCaller f).Runs Lock.rank h h :=
  .perform _

lemma runs_onSched {β : Type} (f : Sched ℕ → β × Sched ℕ) : (onSched f).Runs Lock.rank h h :=
  .perform _

/-- A return that releases a lock. -/
lemma runs_return {ρ : Type} (l : Lock) (r : ρ) :
    (do release l; return r : Call ρ).Runs Lock.rank (l :: h) h :=
  .bind (.release l) fun _ => .pure r

/-- `__alloc`, `__free`, `__read` and `__write` may be called where locks of a smaller rank are
held. -/
lemma runs_alloc (hh : ∀ m ∈ h, m.rank < Lock.mmvmLock.rank) (vmaid rgid size : ℤ) :
    (alloc vmaid rgid size).Runs Lock.rank h h := by
  refine .bind (.acquire hh) fun _ => .bind (runs_onCaller _) fun found => ?_
  cases found with
  | some rgnode => exact .bind (runs_onCaller _) fun _ => runs_return _ _
  | none => exact .bind (runs_onCaller _) fun _ => runs_return _ _

lemma runs_free (hh : ∀ m ∈ h, m.rank < Lock.mmvmLock.rank) (vmaid rgid : ℤ) :
    (free vmaid rgid).Runs Lock.rank h h := by
  refine .bind (.acquire hh) fun _ => ?_
  split
  · exact runs_return _ _
  · exact .bind (runs_onCaller _) fun _ => runs_return _ _

lemma runs_read (hh : ∀ m ∈ h, m.rank < Lock.mmvmLock.rank) (vmaid rgid offset : ℤ) :
    (read vmaid rgid offset).Runs Lock.rank h h := by
  refine .bind (.acquire hh) fun _ => .bind (runs_onCaller _) fun currg =>
    .bind (runs_onCaller _) fun curVma => ?_
  split
  · exact .bind (runs_onCaller _) fun _ => runs_return _ _
  · exact runs_return _ _

lemma runs_write (hh : ∀ m ∈ h, m.rank < Lock.mmvmLock.rank) (vmaid rgid offset : ℤ)
    (value : Byte) : (write vmaid rgid offset value).Runs Lock.rank h h := by
  refine .bind (.acquire hh) fun _ => .bind (runs_onCaller _) fun currg =>
    .bind (runs_onCaller _) fun curVma => ?_
  split
  · exact .bind (runs_onCaller _) fun _ => runs_return _ _
  · exact runs_return _ _

/-- `mmvm_lock` may be taken with no lock and under `tlb_lock`. -/
lemma rank_of_nil : ∀ m ∈ ([] : List Lock), m.rank < Lock.mmvmLock.rank := by decide

lemma rank_of_tlbLock : ∀ m ∈ [Lock.tlbLock], m.rank < Lock.mmvmLock.rank := by decide

lemma runs_pgalloc (size regIndex : Word) : (pgalloc size regIndex).Runs Lock.rank [] [] :=
  .bind (runs_alloc rank_of_nil _ _ _) fun _ => .pure _

lemma runs_pgread (source offset destination : Word) :
    (pgread source offset destination).Runs Lock.rank [] [] :=
  .bind (runs_read rank_of_nil _ _ _) fun _ =>
    .bind (.acquire rank_of_nil) fun _ => runs_return _ _

lemma runs_pgwrite (data : Byte) (destination offset : Word) :
    (pgwrite data destination offset).Runs Lock.rank [] [] :=
  .bind (.acquire rank_of_nil) fun _ => .bind (.release _) fun _ => runs_write rank_of_nil _ _ _ _

/-- `tlb_lock` is taken first. -/
lemma runs_acquire_tlbLock : (acquire .tlbLock : Call Unit).Runs Lock.rank [] [.tlbLock] :=
  .acquire (by decide)

lemma runs_tlballoc (null : Bool) (size regIndex : Word) :
    (tlballoc null size regIndex).Runs Lock.rank [] [] := by
  unfold tlballoc
  split
  · exact .pure _
  · refine .bind runs_acquire_tlbLock fun _ => .bind (runs_alloc rank_of_tlbLock _ _ _) ?_
    rintro ⟨val, addr⟩
    dsimp only
    split
    · exact runs_return _ _
    · exact .bind (runs_onPcb _) fun _ => runs_return _ _

lemma runs_tlbfreeData (null : Bool) (regIndex : Word) :
    (tlbfreeData null regIndex).Runs Lock.rank [] [] := by
  unfold tlbfreeData
  split
  · exact .pure _
  · refine .bind runs_acquire_tlbLock fun _ => .bind (runs_onCaller _) fun region => ?_
    unfold tlbfreeRegion
    split
    · exact runs_return _ _
    · exact .bind (runs_free rank_of_tlbLock _ _) fun _ =>
        .bind (runs_onPcb _) fun _ => runs_return _ _

lemma runs_tlbreadFrom (junk : Byte) (pgn : ℕ) (frmnum : ℤ) (source offset destination : Word) :
    (tlbreadFrom junk pgn frmnum source offset destination).Runs Lock.rank [.tlbLock] [] := by
  have hend : ∀ status data, (tlbreadEnd status destination data).Runs Lock.rank [.tlbLock] [] := by
    intro status data
    unfold tlbreadEnd
    split
    · exact runs_return _ _
    · exact .bind (runs_onPcb _) fun _ => runs_return _ _
  unfold tlbreadFrom
  split
  · exact .bind (runs_onCaller _) fun _ => hend _ _
  · exact .bind (runs_read rank_of_tlbLock _ _ _) fun _ => .bind (runs_onPcb _) fun _ => hend _ _

lemma runs_tlbread (junk : Byte) (source offset destination : Word) :
    (tlbread junk source offset destination).Runs Lock.rank [] [] := by
  refine .bind runs_acquire_tlbLock fun _ => .bind (runs_onPcb _) fun pgn =>
    .bind (runs_onPcb _) ?_
  rintro ⟨frmnum, check⟩
  show (tlbreadPage junk pgn frmnum check source offset destination).Runs _ _ _
  unfold tlbreadPage
  split
  · refine .bind (runs_onCaller _) fun got => ?_
    cases got with
    | none => exact runs_return _ _
    | some frmnum => exact runs_tlbreadFrom _ _ _ _ _ _
  · exact runs_tlbreadFrom _ _ _ _ _ _

lemma runs_tlbwriteTo (pgn off : ℕ) (frmnum : ℤ) (data : Byte) (destination offset : Word) :
    (tlbwriteTo pgn off frmnum data destination offset).Runs Lock.rank [.tlbLock] [] := by
  unfold tlbwriteTo
  split
  · exact .bind (runs_onCaller _) fun _ => runs_return _ _
  · refine .bind (runs_write rank_of_tlbLock _ _ _ _) fun val =>
      .bind (runs_onPcb _) fun status => ?_
    unfold tlbwriteEnd
    split
    · exact runs_return _ _
    · exact runs_return _ _

lemma runs_tlbwrite (data : Byte) (destination offset : Word) :
    (tlbwrite data destination offset).Runs Lock.rank [] [] := by
  refine .bind runs_acquire_tlbLock fun _ => .bind (runs_onPcb _) fun pgn =>
    .bind (runs_onPcb _) fun off => .bind (runs_onPcb _) ?_
  rintro ⟨frmnum, check⟩
  show (tlbwritePage pgn off frmnum check data destination offset).Runs _ _ _
  unfold tlbwritePage
  split
  · refine .bind (runs_onCaller _) fun got => ?_
    cases got with
    | none => exact runs_return _ _
    | some frmnum => exact runs_tlbwriteTo _ _ _ _ _ _
  · exact runs_tlbwriteTo _ _ _ _ _ _

lemma runs_acquire_queueLock : (acquire .queueLock : Call Unit).Runs Lock.rank [] [.queueLock] :=
  .acquire (by decide)

lemma runs_getMlqProc : getMlqProc.Runs Lock.rank [] [] :=
  .bind runs_acquire_queueLock fun _ => .bind (runs_onSched _) fun _ => runs_return _ _

lemma runs_putMlqProc (prio : ℕ → Prio) (proc : ℕ) :
    (putMlqProc prio proc).Runs Lock.rank [] [] :=
  .bind runs_acquire_queueLock fun _ => .bind (runs_onSched _) fun _ => .release _

lemma runs_addMlqProc (prio : ℕ → Prio) (proc : ℕ) :
    (addMlqProc prio proc).Runs Lock.rank [] [] :=
  .bind runs_acquire_queueLock fun _ => .bind (runs_onSched _) fun _ => .release _

lemma runs_run (b : Build) (junk : Byte) (null : Bool) (ins : Inst) :
    (run b junk null ins).Runs Lock.rank [] [] := by
  cases ins with
  | «calc» => exact .pure _
  | alloc size regIndex =>
    cases b with
    | tlb => exact runs_tlballoc null size regIndex
    | paging => exact runs_pgalloc size regIndex
  | free regIndex =>
    cases b with
    | tlb => exact runs_tlbfreeData null regIndex
    | paging => exact runs_free rank_of_nil 0 _
  | read source offset destination =>
    cases b with
    | tlb => exact runs_tlbread junk source offset destination
    | paging => exact runs_pgread source offset destination
  | write data destination offset =>
    cases b with
    | tlb => exact runs_tlbwrite (data.setWidth 8) destination offset
    | paging => exact runs_pgwrite (data.setWidth 8) destination offset

end

end Locked

/-! ## The CPUs -/

open Locked

/-- The calls of a CPU: `run` in both builds, the functions under it, and the scheduler. -/
inductive CpuCall : Prog Lock CpuData Unit → Prop
  | run (b : Build) (junk : Byte) (null : Bool) (ins : Inst) :
      CpuCall (run b junk null ins).discard
  | alloc (vmaid rgid size : ℤ) : CpuCall (alloc vmaid rgid size).discard
  | free (vmaid rgid : ℤ) : CpuCall (free vmaid rgid).discard
  | read (vmaid rgid offset : ℤ) : CpuCall (read vmaid rgid offset).discard
  | write (vmaid rgid offset : ℤ) (value : Byte) : CpuCall (write vmaid rgid offset value).discard
  | getMlqProc : CpuCall getMlqProc.discard
  | putMlqProc (prio : ℕ → Prio) (proc : ℕ) : CpuCall (putMlqProc prio proc)
  | addMlqProc (prio : ℕ → Prio) (proc : ℕ) : CpuCall (addMlqProc prio proc)

/-- Every path of every call takes the locks in their order and releases them. -/
lemma CpuCall.runs {p : Prog Lock CpuData Unit} (h : CpuCall p) : p.Runs Lock.rank [] [] := by
  cases h with
  | run b junk null ins => exact (runs_run b junk null ins).discard
  | alloc vmaid rgid size => exact (runs_alloc rank_of_nil vmaid rgid size).discard
  | free vmaid rgid => exact (runs_free rank_of_nil vmaid rgid).discard
  | read vmaid rgid offset => exact (runs_read rank_of_nil vmaid rgid offset).discard
  | write vmaid rgid offset value => exact (runs_write rank_of_nil vmaid rgid offset value).discard
  | getMlqProc => exact runs_getMlqProc.discard
  | putMlqProc prio proc => exact runs_putMlqProc prio proc
  | addMlqProc prio proc => exact runs_addMlqProc prio proc

/-- All interleavings of the calls of any number of CPUs. -/
def cpuLocks (ι : Type) [DecidableEq ι] : LTS (Threads Lock CpuData ι) ι := threads {p | CpuCall p}

/-- In every interleaving of any number of CPUs, a CPU outside a call holds no lock, no CPU takes a
lock it holds or releases one it does not hold, and no CPUs wait for each other in a cycle. -/
theorem cpus_disciplined {ι : Type} [DecidableEq ι] {s : Threads Lock CpuData ι}
    (h : (cpuLocks ι).Reachable s) : s.Disciplined :=
  threads_disciplined (fun _ hp => CpuCall.runs hp) h

/-- A CPU waits for the `mmvm_lock` that another one holds. -/
theorem cpus_disciplined_waiting : ∃ s, (cpuLocks (Fin 2)).Reachable s ∧ s.Waits 1 0 ∧
    s.Disciplined := by
  have hcall : CpuCall (Locked.free 0 0).discard := .free 0 0
  have h₀ : (cpuLocks (Fin 2)).Reachable ⟨fun _ => .ret (), fun _ => none⟩ :=
    .start ⟨fun _ => rfl, fun _ => rfl⟩
  have h₁ := h₀.step (a := (0 : Fin 2)) (Threads.Step.call rfl hcall)
  have h₂ := h₁.step (a := (0 : Fin 2)) (Threads.Step.lock rfl rfl)
  have h₃ := h₂.step (a := (1 : Fin 2)) (Threads.Step.call rfl hcall)
  exact ⟨_, h₃, ⟨.mmvmLock, _, rfl, rfl⟩, cpus_disciplined h₃⟩

end Ossim
