import Ossim.Lib.Linearize
import Ossim.Os.Locks
import Ossim.Sched.Runs
import Ossim.Tlb.System

/-!
# Instructions take effect at once

CPUs and the loader call `run`, `get_proc`, `put_proc` and `add_proc` at any time, on the memory of
all processes with the TLB and on the scheduler.  Their calls are interleaved at every lock and at
every action on the data; a call on the memory acts in one section of `tlb_lock`, or of `mmvm_lock`
without `CPU_TLB`, and a call of the scheduler in one section of `queue_lock`.

So the calls are those of threads whose calls take effect one after the other
(`calls_linearizable`), and what the other modules prove about sequences of instructions and about
sequences of scheduler calls holds of every interleaving (`reachable_of_free`).
-/

namespace Ossim

open Locks Prog

/-! ## The shared data -/

/-- The parts of the shared data. -/
inductive Part
  /-- The processes with their memory, and the TLB. -/
  | memory
  /-- The ready queues. -/
  | sched
  deriving DecidableEq

/-- The data of a part. -/
abbrev Part.Data (Pid : Type) : Part → Type
  | .memory => TlbSys Pid
  | .sched => Sched ℕ

/-- The shared data. -/
abbrev Shared (Pid : Type) : Type := ∀ part : Part, part.Data Pid

namespace TlbSys

variable {Pid : Type} [DecidableEq Pid]

/-- The state after a process was left as `proc`. -/
def store (s : TlbSys Pid) (p : Pid) (proc : Pcb) : TlbSys Pid where
  pid := Function.update s.pid p proc.pid
  regs := Function.update s.regs p proc.regs
  mem := s.mem.put p proc.caller
  tlb := proc.tlb

@[simp] lemma pcb_store (s : TlbSys Pid) (p : Pid) (proc : Pcb) :
    (s.store p proc).pcb p = proc := by
  simp [store, pcb, MemSys.put, MemSys.caller]

@[simp] lemma store_store (s : TlbSys Pid) (p : Pid) (proc proc' : Pcb) :
    (s.store p proc).store p proc' = s.store p proc' := by
  simp [store, MemSys.put]

@[simp] lemma store_pcb (s : TlbSys Pid) (p : Pid) : s.store p (s.pcb p) = s := by
  simp [store, pcb, MemSys.put, MemSys.caller]

end TlbSys

namespace Shared

variable {Pid : Type} [DecidableEq Pid]

/-- What a call for the process `p` works on. -/
def view (p : Pid) (d : Shared Pid) : CpuData := ⟨(d .memory).pcb p, d .sched⟩

/-- The data after such a call. -/
def put (p : Pid) (x : CpuData) (d : Shared Pid) : Shared Pid
  | .memory => (d .memory).store p x.pcb
  | .sched => x.sched

lemma view_put (p : Pid) (x : CpuData) (d : Shared Pid) : view p (put p x d) = x := by
  simp [view, put]

lemma put_put (p : Pid) (x y : CpuData) (d : Shared Pid) : put p y (put p x d) = put p y d := by
  funext part
  cases part <;> simp [put]

lemma put_view (p : Pid) (d : Shared Pid) : put p (view p d) d = d := by
  funext part
  cases part <;> simp [put, view]

/-- Nothing has been allocated, and no process is queued. -/
def fresh : Shared Pid
  | .memory => .fresh (fun _ => 0) 0x10000 0
  | .sched => .fresh

end Shared

/-! ## The sections of a call -/

namespace Locked

variable {Pid : Type} [DecidableEq Pid] {ρ : Type} {p : Pid}

/-- A call for the process `p`, on the shared data. -/
abbrev on (p : Pid) (c : Call ρ) : Prog Lock (Shared Pid) ρ := c.lift (Shared.view p) (Shared.put p)

section

variable {β : Type} {g : Lock} {ph : Phase} {h : List Lock} {Q : Phase → List Lock → β → Prop}

@[simp] lemma wp_onPcb (f : Pcb → β × Pcb) :
    (on p (onPcb f)).wp g .memory ph h Q ↔ g ∈ h ∧ ph ≠ .after ∧ ∀ b, Q .acting h b := by
  refine wp_perform ⟨fun {d d'} hd => ?_, fun {d d'} hd => ?_, fun d o ho => ?_⟩
  · simp [Shared.view, hd]
  · simp [Shared.view, Shared.put, hd]
  · cases o with
    | memory => exact absurd rfl ho
    | sched => rfl

@[simp] lemma wp_onCaller (f : Caller → β × Caller) :
    (on p (onCaller f)).wp g .memory ph h Q ↔ g ∈ h ∧ ph ≠ .after ∧ ∀ b, Q .acting h b :=
  wp_onPcb _

@[simp] lemma wp_onSched (f : Sched ℕ → β × Sched ℕ) :
    (on p (onSched f)).wp g .sched ph h Q ↔ g ∈ h ∧ ph ≠ .after ∧ ∀ b, Q .acting h b := by
  refine wp_perform ⟨fun {d d'} hd => ?_, fun {d d'} hd => ?_, fun d o ho => ?_⟩
  · simp [Shared.view, hd]
  · simp [Shared.view, Shared.put, hd]
  · cases o with
    | memory => simp [Shared.put, Shared.view]
    | sched => exact absurd rfl ho

end

/-! A call of `src/mm-vm.c` ends the section if its lock is `mmvm_lock`, and acts within the section
of its caller if that is `tlb_lock`. -/

section

variable {g : Lock} {ph : Phase} {h : List Lock}

lemma wp_alloc (hg : g ∈ .mmvmLock :: h) (hh : .mmvmLock ∉ h) (hph : ph ≠ .after)
    {Q : Phase → List Lock → ℤ × ℤ → Prop} (hQ : ∀ r, Q (Phase.acting.release g .mmvmLock) h r)
    (vmaid rgid size : ℤ) : (on p (alloc vmaid rgid size)).wp g .memory ph h Q := by
  unfold alloc
  simp only [lift_bind, wp_bind, lift_acquire, wp_acquire, wp_onCaller]
  refine ⟨hh, hg, hph, fun found => ?_⟩
  cases found <;> simp [hg, hQ]

lemma wp_free (hg : g ∈ .mmvmLock :: h) (hh : .mmvmLock ∉ h) (hph : ph ≠ .after)
    {Q : Phase → List Lock → ℤ → Prop} (hQ : ∀ r, Q (Phase.acting.release g .mmvmLock) h r)
    (hQ' : ∀ r, Q (ph.release g .mmvmLock) h r) (vmaid rgid : ℤ) :
    (on p (free vmaid rgid)).wp g .memory ph h Q := by
  unfold free
  simp only [lift_bind, wp_bind, lift_acquire, wp_acquire]
  refine ⟨hh, ?_⟩
  split <;> simp [hg, hph, hQ, hQ']

lemma wp_read (hg : g ∈ .mmvmLock :: h) (hh : .mmvmLock ∉ h) (hph : ph ≠ .after)
    {Q : Phase → List Lock → ℤ × Option Byte → Prop}
    (hQ : ∀ r, Q (Phase.acting.release g .mmvmLock) h r) (vmaid rgid offset : ℤ) :
    (on p (read vmaid rgid offset)).wp g .memory ph h Q := by
  unfold read
  simp only [lift_bind, wp_bind, lift_acquire, wp_acquire, wp_onCaller]
  refine ⟨hh, hg, hph, fun currg => ⟨hg, by decide, fun curVma => ?_⟩⟩
  split <;> simp [hg, hQ]

lemma wp_write (hg : g ∈ .mmvmLock :: h) (hh : .mmvmLock ∉ h) (hph : ph ≠ .after)
    {Q : Phase → List Lock → ℤ → Prop} (hQ : ∀ r, Q (Phase.acting.release g .mmvmLock) h r)
    (vmaid rgid offset : ℤ) (value : Byte) :
    (on p (write vmaid rgid offset value)).wp g .memory ph h Q := by
  unfold write
  simp only [lift_bind, wp_bind, lift_acquire, wp_acquire, wp_onCaller]
  refine ⟨hh, hg, hph, fun currg => ⟨hg, by decide, fun curVma => ?_⟩⟩
  split <;> simp [hg, hQ]

end

/-- The call acts in one section of `g`. -/
abbrev InSection (g : Lock) (part : Part) (c : Prog Lock (Shared Pid) ρ) : Prop :=
  c.wp g part .before [] fun _ h _ => h = []

lemma inSection_pgalloc (size regIndex : Word) :
    InSection .mmvmLock .memory (on p (pgalloc size regIndex)) := by
  unfold pgalloc
  simp only [InSection, lift_bind, wp_bind]
  exact wp_alloc (by decide) (by decide) (by decide) (fun _ => rfl) _ _ _

lemma inSection_pgfreeData (regIndex : Word) :
    InSection .mmvmLock .memory (on p (pgfreeData regIndex)) :=
  wp_free (by decide) (by decide) (by decide) (fun _ => rfl) (fun _ => rfl) _ _

/-- The section in which `pgread` prints comes after the one in which it acts. -/
lemma inSection_pgread (source offset destination : Word) :
    InSection .mmvmLock .memory (on p (pgread source offset destination)) := by
  unfold pgread
  simp only [InSection, lift_bind, wp_bind]
  exact wp_read (by decide) (by decide) (by decide) (fun _ => by simp) _ _ _

/-- The section in which `pgwrite` prints comes before the one in which it acts. -/
lemma inSection_pgwrite (data : Byte) (destination offset : Word) :
    InSection .mmvmLock .memory (on p (pgwrite data destination offset)) := by
  unfold pgwrite
  simp only [InSection, lift_bind, wp_bind, lift_acquire, wp_acquire, lift_release, wp_release]
  refine ⟨by decide, by decide, ?_⟩
  exact wp_write (by decide) (by decide) (by decide) (fun _ => rfl) _ _ _ _

lemma inSection_tlballoc (null : Bool) (size regIndex : Word) :
    InSection .tlbLock .memory (on p (tlballoc null size regIndex)) := by
  unfold tlballoc
  split
  · exact rfl
  · simp only [InSection, lift_bind, wp_bind, lift_acquire, wp_acquire]
    refine ⟨by decide, wp_alloc (by decide) (by decide) (by decide) ?_ _ _ _⟩
    rintro ⟨val, addr⟩
    dsimp only
    split <;> simp [Phase.release]

lemma inSection_tlbfreeData (null : Bool) (regIndex : Word) :
    InSection .tlbLock .memory (on p (tlbfreeData null regIndex)) := by
  unfold tlbfreeData
  split
  · exact rfl
  · simp only [InSection, lift_bind, wp_bind, lift_acquire, wp_acquire, wp_onCaller]
    refine ⟨by decide, by decide, by decide, fun region => ?_⟩
    unfold tlbfreeRegion
    split
    · simp
    · simp only [lift_bind, wp_bind]
      apply wp_free (by decide) (by decide) (by decide)
      · simp [Phase.release]
      · simp [Phase.release]

lemma wp_tlbreadEnd (status : ℤ) (destination : Word) (data : Byte) :
    (on p (tlbreadEnd status destination data)).wp .tlbLock .memory .acting [.tlbLock]
      fun _ h _ => h = [] := by
  unfold tlbreadEnd
  split <;> simp

lemma wp_tlbRefill {g : Lock} {ph : Phase} {h : List Lock} {Q : Phase → List Lock → ℤ → Prop}
    (pgn : ℕ) :
    (on p (tlbRefill pgn)).wp g .memory ph h Q ↔ g ∈ h ∧ ph ≠ .after ∧ ∀ b, Q .acting h b :=
  wp_onPcb _

lemma wp_tlbreadFrom (junk : Byte) (pgn : ℕ) (frmnum : ℤ) (source offset destination : Word) :
    (on p (tlbreadFrom junk pgn frmnum source offset destination)).wp .tlbLock .memory .acting
      [.tlbLock] fun _ h _ => h = [] := by
  unfold tlbreadFrom
  split
  · simp only [lift_bind, wp_bind, wp_onCaller]
    exact ⟨by decide, by decide, fun r => wp_tlbreadEnd _ _ _⟩
  · simp only [lift_bind, wp_bind, wp_tlbRefill]
    apply wp_read (by decide) (by decide) (by decide)
    exact fun r => ⟨by decide, by decide, fun status => wp_tlbreadEnd _ _ _⟩

lemma inSection_tlbread (junk : Byte) (source offset destination : Word) :
    InSection .tlbLock .memory (on p (tlbread junk source offset destination)) := by
  unfold tlbread
  simp only [InSection, lift_bind, wp_bind, lift_acquire, wp_acquire, wp_onPcb]
  refine ⟨by decide, by decide, by decide, fun pgn => ⟨by decide, by decide, ?_⟩⟩
  rintro ⟨frmnum, check⟩
  dsimp only
  unfold tlbreadPage
  split
  · simp only [lift_bind, wp_bind, wp_onCaller]
    refine ⟨by decide, by decide, fun got => ?_⟩
    cases got with
    | none => simp
    | some frmnum => exact wp_tlbreadFrom _ _ _ _ _ _
  · exact wp_tlbreadFrom _ _ _ _ _ _

lemma wp_tlbwriteTo (pgn off : ℕ) (frmnum : ℤ) (data : Byte) (destination offset : Word) :
    (on p (tlbwriteTo pgn off frmnum data destination offset)).wp .tlbLock .memory .acting
      [.tlbLock] fun _ h _ => h = [] := by
  unfold tlbwriteTo
  split
  · simp
  · simp only [lift_bind, wp_bind, wp_tlbRefill]
    apply wp_write (by decide) (by decide) (by decide)
    refine fun val => ⟨by decide, by decide, fun status => ?_⟩
    unfold tlbwriteEnd
    split <;> simp

lemma inSection_tlbwrite (data : Byte) (destination offset : Word) :
    InSection .tlbLock .memory (on p (tlbwrite data destination offset)) := by
  unfold tlbwrite
  simp only [InSection, lift_bind, wp_bind, lift_acquire, wp_acquire, wp_onPcb]
  refine ⟨by decide, by decide, by decide, fun pgn => ⟨by decide, by decide, fun off =>
    ⟨by decide, by decide, ?_⟩⟩⟩
  rintro ⟨frmnum, check⟩
  dsimp only
  unfold tlbwritePage
  split
  · simp only [lift_bind, wp_bind, wp_onCaller]
    refine ⟨by decide, by decide, fun got => ?_⟩
    cases got with
    | none => simp
    | some frmnum => exact wp_tlbwriteTo _ _ _ _ _ _
  · exact wp_tlbwriteTo _ _ _ _ _ _

/-- The lock in whose section an instruction acts. -/
def instLock : Build → Lock
  | .tlb => .tlbLock
  | .paging => .mmvmLock

lemma inSection_run (b : Build) (junk : Byte) (null : Bool) (ins : Inst) :
    InSection (instLock b) .memory (on p (run b junk null ins)) := by
  cases ins with
  | «calc» => exact rfl
  | alloc size regIndex =>
    cases b with
    | tlb => exact inSection_tlballoc null size regIndex
    | paging => exact inSection_pgalloc size regIndex
  | free regIndex =>
    cases b with
    | tlb => exact inSection_tlbfreeData null regIndex
    | paging => exact inSection_pgfreeData regIndex
  | read source offset destination =>
    cases b with
    | tlb => exact inSection_tlbread junk source offset destination
    | paging => exact inSection_pgread source offset destination
  | write data destination offset =>
    cases b with
    | tlb => exact inSection_tlbwrite (data.setWidth 8) destination offset
    | paging => exact inSection_pgwrite (data.setWidth 8) destination offset

lemma inSection_getMlqProc : InSection .queueLock .sched (on p getMlqProc) := by
  unfold getMlqProc
  simp [InSection]

lemma inSection_putMlqProc (prio : ℕ → Prio) (proc : ℕ) :
    InSection .queueLock .sched (on p (putMlqProc prio proc)) := by
  unfold putMlqProc
  simp [InSection]

lemma inSection_addMlqProc (prio : ℕ → Prio) (proc : ℕ) :
    InSection .queueLock .sched (on p (addMlqProc prio proc)) := by
  unfold addMlqProc
  simp [InSection]

end Locked

/-! ## The calls -/

/-- A call of a CPU or of the loader. -/
inductive OsCall
  /-- `run`, for a process; `junk` is what `data` holds before a read. -/
  | run (p : ℕ) (junk : Byte) (ins : Inst)
  /-- `get_proc`, `put_proc` or `add_proc`. -/
  | sched (k : SchedCall ℕ)

/-- What a call returns. -/
inductive CallResult
  /-- The status of `run`. -/
  | status (val : ℤ)
  /-- The process of `get_proc`. -/
  | proc (proc : Option ℕ)
  /-- Nothing. -/
  | void

namespace OsCall

/-- The part of the data that a call works on. -/
def part : OsCall → Part
  | .run _ _ _ => .memory
  | .sched _ => .sched

/-- The program of a call. -/
def prog (b : Build) (prio : ℕ → Prio) : OsCall → Prog Lock (Shared ℕ) CallResult
  | .run p junk ins => do
    let val ← Locked.on p (Locked.run b junk false ins)
    return .status val
  | .sched .getProc => do
    let proc ← Locked.on 0 Locked.getMlqProc
    return .proc proc
  | .sched (.putProc proc) => do
    Locked.on proc (Locked.putMlqProc prio proc)
    return .void
  | .sched (.addProc proc) => do
    Locked.on proc (Locked.addMlqProc prio proc)
    return .void

/-- What a call returns, and the data after it. -/
def effect (b : Build) (prio : ℕ → Prio) : OsCall → Shared ℕ → CallResult × Shared ℕ
  | .run p junk ins, d =>
    let (val, proc) := b.backEnd.run junk ins ((d .memory).pcb p)
    (.status val, Function.update d .memory ((d .memory).store p proc))
  | .sched .getProc, d =>
    let (proc, queues) := (d .sched).getMlqProc
    (.proc proc, Function.update d .sched queues)
  | .sched (.putProc proc), d =>
    (.void, Function.update d .sched ((d .sched).putMlqProc prio proc))
  | .sched (.addProc proc), d =>
    (.void, Function.update d .sched ((d .sched).putMlqProc prio proc))

lemma exec_on {ρ : Type} (p : ℕ) (c : Call ρ) (d : Shared ℕ) :
    (Locked.on p c).exec d =
      ((c.exec (Shared.view p d)).1, Shared.put p (c.exec (Shared.view p d)).2 d) :=
  exec_lift (Shared.view_put p) (Shared.put_put p) (Shared.put_view p) c d

/-- The data after a change of the process alone. -/
lemma put_withPcb (p : ℕ) (proc : Pcb) (d : Shared ℕ) :
    Shared.put p (Locked.withPcb (Shared.view p d) proc) d =
      Function.update d .memory ((d .memory).store p proc) := by
  funext part
  cases part <;> rfl

/-- The data after a change of the scheduler alone. -/
lemma put_withSched (p : ℕ) (sched : Sched ℕ) (d : Shared ℕ) :
    Shared.put p { Shared.view p d with sched := sched } d = Function.update d .sched sched := by
  funext part
  cases part with
  | memory => exact TlbSys.store_pcb _ p
  | sched => rfl

lemma exec_prog (b : Build) (prio : ℕ → Prio) (k : OsCall) :
    (k.prog b prio).exec = k.effect b prio := by
  funext d
  match k with
  | .run p junk ins =>
    simp only [prog, exec_bind, exec_on, Locked.exec_run, exec_pure, put_withPcb]
    rfl
  | .sched .getProc =>
    simp only [prog, exec_bind, exec_on, Locked.exec_getMlqProc, exec_pure, put_withSched]
    rfl
  | .sched (.putProc proc) =>
    simp only [prog, exec_bind, exec_on, Locked.exec_putMlqProc, exec_pure, put_withSched]
    rfl
  | .sched (.addProc proc) =>
    simp only [prog, exec_bind, exec_on, Locked.exec_addMlqProc, exec_pure, put_withSched]
    rfl

end OsCall

/-- The lock that guards a part. -/
def Part.lock (b : Build) : Part → Lock
  | .memory => Locked.instLock b
  | .sched => .queueLock

lemma OsCall.inSection_prog (b : Build) (prio : ℕ → Prio) (k : OsCall) :
    Locked.InSection (k.part.lock b) k.part (k.prog b prio) := by
  match k with
  | .run p junk ins =>
    simp only [prog, Locked.InSection, wp_bind]
    exact Locked.inSection_run b junk false ins
  | .sched .getProc =>
    simp only [prog, Locked.InSection, wp_bind]
    exact Locked.inSection_getMlqProc
  | .sched (.putProc proc) =>
    simp only [prog, Locked.InSection, wp_bind]
    exact Locked.inSection_putMlqProc prio proc
  | .sched (.addProc proc) =>
    simp only [prog, Locked.InSection, wp_bind]
    exact Locked.inSection_addMlqProc prio proc

/-- The calls on the shared data. -/
def osCalls (b : Build) (prio : ℕ → Prio) : Calls Lock Part OsCall CallResult (Part.Data ℕ) where
  guard := Part.lock b
  part := OsCall.part
  prog := OsCall.prog b prio
  effect := OsCall.effect b prio
  exec_prog := OsCall.exec_prog b prio
  wp_prog := OsCall.inSection_prog b prio

/-! ## All interleavings -/

section

variable {ι : Type} [DecidableEq ι] {b : Build} {prio : ℕ → Prio}
  {s s' : Calling Lock CallResult ι (Part.Data ℕ)}
  {es : List (ι × Option (Event OsCall CallResult))}

/-- Every interleaving of the calls of any number of CPUs and of the loader, at every lock and every
action, shows the calls and returns of a run in which each instruction and each call of the
scheduler is executed at once, between its call and its return.  At its end the memory with the TLB,
and the queues, are the same as there when their locks are free. -/
theorem calls_linearizable (hs : (interleaved ι (osCalls b prio)).start s)
    (hrun : (interleaved ι (osCalls b prio)).Path s es s') :
    ∃ es' a, (atomic ι (osCalls b prio)).Path (.atRest s.data) es' a ∧
      es'.filterMap shown = es.filterMap shown ∧ (∀ i, s'.rest i = none → a.status i = .idle) ∧
      ∀ part, s'.owner (part.lock b) = none → s'.data part = a.data part :=
  linearizable hs hrun

/-- A thread begins a `READ`, another one a `get_proc`, and both have taken their locks. -/
def twoThreads : List (Fin 2 × Option (Event OsCall CallResult)) :=
  [(0, some (.call (.run 0 0 (.read 0 0 0)))), (1, some (.call (.sched .getProc))), (0, none),
    (1, none)]

/-- No thread is in a call, and nothing was allocated. -/
def allIdle : Calling Lock CallResult (Fin 2) (Part.Data ℕ) :=
  ⟨fun _ => none, fun _ => none, Shared.fresh⟩

lemma start_allIdle (b : Build) (prio : ℕ → Prio) :
    (interleaved (Fin 2) (osCalls b prio)).start allIdle :=
  ⟨fun _ => rfl, fun _ => rfl⟩

/-- The second thread gets no process while the first one reads. -/
theorem calls_linearizable_get : ∃ s',
    (interleaved (Fin 2) (osCalls .tlb fun _ => 0)).Path allIdle
      (twoThreads ++ [(1, none), (1, none), (1, some (.ret (.proc none)))]) s' ∧
    s'.owner .tlbLock = some 0 ∧
    ∃ es' a, (atomic (Fin 2) (osCalls .tlb fun _ => 0)).Path (.atRest Shared.fresh) es' a ∧
      es'.filterMap shown = [(0, .call (.run 0 0 (.read 0 0 0))), (1, .call (.sched .getProc)),
        (1, .ret (.proc none))] ∧ (∀ i, s'.rest i = none → a.status i = .idle) ∧
      ∀ part : Part, s'.owner (part.lock .tlb) = none → s'.data part = a.data part := by
  have hrun : (interleaved (Fin 2) (osCalls .tlb fun _ => 0)).Path allIdle
      (twoThreads ++ [(1, none), (1, none), (1, some (.ret (.proc none)))]) _ :=
    .cons (Calling.Step.call _ rfl) (.cons (Calling.Step.call _ rfl)
      (.cons (Calling.Step.lock rfl rfl) (.cons (Calling.Step.lock rfl rfl)
        (.cons (Calling.Step.act rfl) (.cons (Calling.Step.unlock rfl)
          (.cons (Calling.Step.ret rfl) (.nil _)))))))
  exact ⟨_, hrun, rfl, calls_linearizable (start_allIdle _ _) hrun⟩

/-- A thread acts on the memory or on the queues only while it holds the lock of that part, so two
threads never act on the same part at the same time. -/
theorem acts_apart (hs : (interleaved ι (osCalls b prio)).Reachable s) {i j : ι} (hij : i ≠ j)
    {β γ : Type} {f : Shared ℕ → β × Shared ℕ} {g : Shared ℕ → γ × Shared ℕ}
    {k : β → Prog Lock (Shared ℕ) CallResult} {l : γ → Prog Lock (Shared ℕ) CallResult}
    (hi : s.rest i = some (.act f k)) (hj : s.rest j = some (.act g l)) :
    ∃ part part' : Part, part ≠ part' ∧ OnPart part f ∧ OnPart part' g ∧
      s.owner (part.lock b) = some i ∧ s.owner (part'.lock b) = some j := by
  obtain ⟨part, hpart, hlock⟩ := guarded_of_act hs hi
  obtain ⟨part', hpart', hlock'⟩ := guarded_of_act hs hj
  refine ⟨part, part', ?_, hpart, hpart', hlock, hlock'⟩
  rintro rfl
  exact hij (Option.some.inj (hlock.symm.trans hlock'))

/-- One thread is about to look up its page, the other one to search the queues. -/
theorem acts_apart_lookup : ∃ s, (interleaved (Fin 2) (osCalls .tlb fun _ => 0)).Reachable s ∧
    ∃ (β γ : Type) (f : Shared ℕ → β × Shared ℕ) (g : Shared ℕ → γ × Shared ℕ) (k : _) (l : _),
      s.rest 0 = some (.act f k) ∧ s.rest 1 = some (.act g l) ∧
      ∃ part part' : Part, part ≠ part' ∧ OnPart part f ∧ OnPart part' g ∧
        s.owner (part.lock .tlb) = some 0 ∧ s.owner (part'.lock .tlb) = some 1 := by
  have hrun : (interleaved (Fin 2) (osCalls .tlb fun _ => 0)).Path allIdle twoThreads _ :=
    .cons (Calling.Step.call _ rfl) (.cons (Calling.Step.call _ rfl)
      (.cons (Calling.Step.lock rfl rfl) (.cons (Calling.Step.lock rfl rfl) (.nil _))))
  have hs := hrun.reachable (.start (start_allIdle .tlb fun _ => 0))
  exact ⟨_, hs, _, _, _, _, _, _, rfl, rfl, acts_apart hs (by decide) rfl rfl⟩

end

/-! ## The runs of the other modules -/

/-- An instruction keeps the id of its process. -/
lemma Pcb.pid_run (junk : Byte) (ins : Inst) (p : Pcb) :
    (BackEnd.tlb.run junk ins p).2.pid = p.pid := by
  cases ins with
  | «calc» => rfl
  | alloc size regIndex =>
    obtain ⟨tlb, htlb⟩ := tlballoc_eq p size regIndex
    show (p.tlballoc size regIndex).2.pid = _
    rw [htlb]
    rfl
  | free regIndex =>
    show (p.tlbfreeData regIndex).2.pid = _
    unfold tlbfreeData
    dsimp only
    split
    · rfl
    · split
      · rfl
      · obtain ⟨tlb, htlb⟩ := foldl_setTlb tlbfreePage_setTlb _ _
        rw [htlb]
        rfl
  | read source offset destination =>
    show (p.tlbread junk source offset destination).2.pid = _
    rw [tlbread_located]
    split
    · rfl
    · unfold tlbreadFrom
      split <;> rfl
  | write data destination offset =>
    show (p.tlbwrite (data.setWidth 8) destination offset).2.pid = _
    rw [tlbwrite_located]
    split
    · rfl
    · unfold tlbwriteTo
      split <;> rfl

/-- Storing what an instruction leaves is executing it. -/
lemma TlbSys.store_run (s : TlbSys ℕ) (p : ℕ) (ins : Inst) (junk : Byte) :
    s.store p (BackEnd.tlb.run junk ins (s.pcb p)).2 = s.run p ins junk := by
  have hpid : Function.update s.pid p (BackEnd.tlb.run junk ins (s.pcb p)).2.pid = s.pid := by
    rw [Pcb.pid_run]
    exact Function.update_eq_self p s.pid
  unfold TlbSys.store TlbSys.run
  rw [hpid]

section

variable {ι : Type} [DecidableEq ι] {prio : ℕ → Prio}
  {s s' : Calling Lock CallResult ι (Part.Data ℕ)}
  {es : List (ι × Option (Event OsCall CallResult))}

/-- In every interleaving, as long as no thread holds `tlb_lock` the processes, the memory and the
TLB are as some sequence of whole instructions leaves them, and as long as no thread holds
`queue_lock` the ready queues are as some sequence of whole scheduler calls leaves them. -/
theorem reachable_of_free (hs : (interleaved ι (osCalls .tlb prio)).start s)
    (hmem : (instSystem ℕ).start (s.data .memory)) (hsched : (s.data .sched).Initial)
    (hrun : (interleaved ι (osCalls .tlb prio)).Path s es s') :
    (s'.owner .tlbLock = none → (instSystem ℕ).Reachable (s'.data .memory)) ∧
    (s'.owner .queueLock = none →
      ∃ w, (SchedLedger.system prio).Reachable w ∧ w.sched = s'.data .sched) := by
  refine ⟨fun hfree => ?_, fun hfree => ?_⟩
  · refine invariant_of_free (o := Part.memory) (I := (instSystem ℕ).Reachable) ?_ hs
      (.start hmem) hrun hfree
    intro k d hk hd
    match k with
    | .run p junk ins =>
      refine hd.step (a := (p, ins, junk)) ?_
      show Function.update d .memory _ .memory = _
      rw [Function.update_self]
      exact TlbSys.store_run _ p ins junk
    | .sched _ => cases hk
  · refine invariant_of_free (o := Part.sched)
      (I := fun sched => ∃ w, (SchedLedger.system prio).Reachable w ∧ w.sched = sched) ?_ hs
      ⟨⟨_, 0, 0, 0⟩, .start ⟨hsched, rfl, rfl, rfl⟩, rfl⟩ hrun hfree
    rintro k d hk ⟨w, hw, hwd⟩
    match k with
    | .run p junk ins => cases hk
    | .sched c =>
      refine ⟨_, hw.step (a := c) rfl, ?_⟩
      cases c with
      | addProc proc => exact congrArg (Sched.putMlqProc prio · proc) hwd
      | putProc proc => exact congrArg (Sched.putMlqProc prio · proc) hwd
      | getProc => exact congrArg (fun sched => sched.getMlqProc.2) hwd

end

/-- A thread executes `ALLOC 300 0` while another one adds a process, and both have left their
sections. -/
theorem reachable_of_free_alloc : ∃ es s',
    (interleaved (Fin 2) (osCalls .tlb fun _ => 0)).Path allIdle es s' ∧
    s'.owner .tlbLock = none ∧ s'.owner .queueLock = none ∧
    ((s'.data .memory).mem.mm 0).symrgtbl 0 = ⟨0, 300⟩ ∧
    (instSystem ℕ).Reachable (s'.data .memory) ∧
    ∃ w, (SchedLedger.system fun _ => 0).Reachable w ∧ w.sched = s'.data .sched := by
  have hrun : (interleaved (Fin 2) (osCalls .tlb fun _ => 0)).Path allIdle
      [(0, some (.call (.run 0 0 (.alloc 300 0)))), (1, some (.call (.sched (.addProc 1)))),
        (0, none), (1, none), (0, none), (0, none), (1, none), (0, none), (1, none), (0, none),
        (0, none), (0, none)] _ :=
    .cons (Calling.Step.call _ rfl) (.cons (Calling.Step.call _ rfl)
      (.cons (Calling.Step.lock rfl rfl) (.cons (Calling.Step.lock rfl rfl)
        -- `mmvm_lock`, the search for a free region, and meanwhile the queue
        (.cons (Calling.Step.lock rfl rfl) (.cons (Calling.Step.act rfl)
          (.cons (Calling.Step.act rfl) (.cons (Calling.Step.act rfl)
            (.cons (Calling.Step.unlock rfl) (.cons (Calling.Step.unlock rfl)
              (.cons (Calling.Step.act rfl) (.cons (Calling.Step.unlock rfl) (.nil _))))))))))))
  have hfree := reachable_of_free (start_allIdle _ _) (start_fresh _ _ _) Sched.initial_fresh hrun
  exact ⟨_, _, hrun, rfl, rfl, by decide +kernel, hfree.1 rfl, hfree.2 rfl⟩

end Ossim
