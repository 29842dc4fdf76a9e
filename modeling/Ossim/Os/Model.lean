import Ossim.Lib.Transition
import Ossim.Sched.Runs

/-!
# CPUs and loader

The threads of `src/os.c`: `m` CPUs in `cpu_routine` and one loader in `ld_routine`, which share
the scheduler, the flag `done` and the clock.  Processes are numbered as in the configuration.

Each step of a thread is one access to what the threads share: a call of the scheduler, a test of
`done` or of the clock, a read or a write of the program counter of a process.  What `run` does
to memory is left out; it reads the instruction at the program counter and increases it, in two
steps.  In C a READ whose destination is 10 or above stores behind `regs[9]`, on `pc`, `prio` and
the fields that follow them; here the program counter is a cell of its own that no instruction
stores to, so the results hold for programs that keep to the registers 0 to 9.

The clock may advance at any time and a thread may leave `next_slot` at any time, so the
runs contain those of every timer; `barrierSystem` keeps those in which a thread leaves
`next_slot` only when every thread that is not detached has called it as often.

Two fields record what the theorems speak about: which processes were freed as finished, and which
instructions of a process were executed.
-/

namespace Ossim

/-- The configuration. -/
structure OsConfig where
  /-- `time_slot`. -/
  timeSlot : ℤ
  /-- `num_processes`. -/
  numProcesses : ℕ
  /-- `start_time` of each process. -/
  startTime : ℕ → ℕ
  /-- The priority of each process. -/
  prio : ℕ → Prio
  /-- The code size of each process. -/
  codeSize : ℕ → ℕ

/-- One process of one instruction, which starts at once. -/
def OsConfig.single : OsConfig := ⟨2, 1, fun _ => 0, fun _ => ⟨0, by decide⟩, fun _ => 1⟩

/-- Where a CPU stands in `cpu_routine`. -/
inductive CpuLoc
  /-- At the head of the loop. -/
  | head
  /-- Before the `get_proc` of the first branch: there was no process. -/
  | getFirst
  /-- Before the `get_proc` of the second branch: the process had finished and was freed. -/
  | getFinished
  /-- Before the `get_proc` of the third branch: the process was put back. -/
  | getPut
  /-- Before the recheck. -/
  | recheck
  /-- Before `run`. -/
  | run
  /-- In `run`, with the index of the instruction that was read. -/
  | exec (ins : ℕ)
  /-- Before `next_slot`. -/
  | enterSlot
  /-- In `next_slot`. -/
  | inSlot
  /-- Behind the loop, before `detach_event`. -/
  | stopped
  /-- After `detach_event`. -/
  | detached
  deriving DecidableEq

/-- A CPU. -/
structure Cpu where
  /-- Where it stands. -/
  loc : CpuLoc
  /-- The variable `proc`; it keeps its value when the process is freed or put back. -/
  proc : Option ℕ
  /-- The variable `time_left`. -/
  timeLeft : ℤ
  /-- How many calls of `next_slot` it has made. -/
  calls : ℕ

/-- The process a CPU holds: none between giving one up and getting the next. -/
def Cpu.holds (v : Cpu) : Option ℕ :=
  match v.loc with
  | .getFinished => none
  | .getPut => none
  | _ => v.proc

/-- A CPU has left its loop. -/
def Cpu.Left (v : Cpu) : Prop := v.loc = .stopped ∨ v.loc = .detached

/-- Where the loader stands in `ld_routine`. -/
inductive LdLoc
  /-- At the head of the outer loop. -/
  | head
  /-- At the head of the inner loop: a process was loaded. -/
  | wait
  /-- Before `add_proc`. -/
  | add
  /-- Before `next_slot`, in the outer loop (`true`) or in the inner loop. -/
  | enterSlot (outer : Bool)
  /-- In `next_slot`. -/
  | inSlot (outer : Bool)
  /-- Behind the outer loop, before `done = 1`. -/
  | finish
  /-- Before `detach_event`. -/
  | detach
  /-- After `detach_event`. -/
  | detached
  deriving DecidableEq

/-- The loader. -/
structure Loader where
  /-- Where it stands. -/
  loc : LdLoc
  /-- The variable `i`: how many processes were passed to `add_proc`. -/
  i : ℕ
  /-- How many calls of `next_slot` it has made. -/
  calls : ℕ

/-- The threads and what they share. -/
structure OsState (m : ℕ) where
  /-- The scheduler. -/
  sched : Sched ℕ
  /-- `current_time()`. -/
  time : ℕ
  /-- The flag `done`. -/
  done : Bool
  /-- The program counter of each process. -/
  pc : ℕ → ℕ
  /-- The CPUs. -/
  cpu : Fin m → Cpu
  /-- The loader. -/
  ld : Loader
  /-- The processes that were freed as finished. -/
  finished : Multiset ℕ
  /-- The indices of the executed instructions of each process, in order. -/
  executed : ℕ → List ℕ

/-- The threads that take steps, and the clock. -/
inductive OsAct (m : ℕ)
  /-- A step of a CPU outside `next_slot`. -/
  | cpu (c : Fin m)
  /-- A CPU leaves `next_slot`. -/
  | cpuLeave (c : Fin m)
  /-- A step of the loader outside `next_slot`. -/
  | loader
  /-- The loader leaves `next_slot`. -/
  | loaderLeave
  /-- The clock advances. -/
  | tick

namespace OsState

variable {m : ℕ}

/-- Store into a CPU. -/
def setCpu (s : OsState m) (c : Fin m) (v : Cpu) : OsState m :=
  { s with cpu := Function.update s.cpu c v }

/-- The state after CPU `c` took what `get_proc` returned and went on to `loc`. -/
def takeProc (s : OsState m) (c : Fin m) (timeLeft : ℤ) (loc : CpuLoc) : OsState m :=
  { s.setCpu c { s.cpu c with proc := s.sched.getMlqProc.1, timeLeft := timeLeft, loc := loc } with
    sched := s.sched.getMlqProc.2 }

/-- One step. -/
inductive Step (cfg : OsConfig) : OsState m → OsAct m → OsState m → Prop
  /-- First branch: no process. -/
  | noProc {s : OsState m} (c : Fin m) (hloc : (s.cpu c).loc = .head)
    (hproc : (s.cpu c).proc = none) :
    Step cfg s (.cpu c) (s.setCpu c { s.cpu c with loc := .getFirst })
  /-- Second branch: the process has finished and is freed. -/
  | free {s : OsState m} (c : Fin m) (p : ℕ) (hloc : (s.cpu c).loc = .head)
    (hproc : (s.cpu c).proc = some p) (hpc : s.pc p = cfg.codeSize p) :
    Step cfg s (.cpu c)
      { s.setCpu c { s.cpu c with loc := .getFinished } with finished := p ::ₘ s.finished }
  /-- Third branch: the process has used its time and is put back. -/
  | put {s : OsState m} (c : Fin m) (p : ℕ) (hloc : (s.cpu c).loc = .head)
    (hproc : (s.cpu c).proc = some p) (hpc : s.pc p ≠ cfg.codeSize p)
    (htime : (s.cpu c).timeLeft = 0) :
    Step cfg s (.cpu c)
      { s.setCpu c { s.cpu c with loc := .getPut } with
        sched := s.sched.putMlqProc cfg.prio p }
  /-- No branch: the process goes on. -/
  | keep {s : OsState m} (c : Fin m) (p : ℕ) (hloc : (s.cpu c).loc = .head)
    (hproc : (s.cpu c).proc = some p) (hpc : s.pc p ≠ cfg.codeSize p)
    (htime : (s.cpu c).timeLeft ≠ 0) :
    Step cfg s (.cpu c) (s.setCpu c { s.cpu c with loc := .recheck })
  /-- The `get_proc` of the first branch, which skips the recheck when it returns nothing. -/
  | getFirst {s : OsState m} (c : Fin m) (hloc : (s.cpu c).loc = .getFirst) :
    Step cfg s (.cpu c) (s.takeProc c (s.cpu c).timeLeft
      (if s.sched.getMlqProc.1 = none then .enterSlot else .recheck))
  /-- The `get_proc` of the second branch. -/
  | getFinished {s : OsState m} (c : Fin m) (hloc : (s.cpu c).loc = .getFinished) :
    Step cfg s (.cpu c) (s.takeProc c 0 .recheck)
  /-- The `get_proc` of the third branch. -/
  | getPut {s : OsState m} (c : Fin m) (hloc : (s.cpu c).loc = .getPut) :
    Step cfg s (.cpu c) (s.takeProc c (s.cpu c).timeLeft .recheck)
  /-- No process and `done`: the CPU stops. -/
  | stop {s : OsState m} (c : Fin m) (hloc : (s.cpu c).loc = .recheck)
    (hproc : (s.cpu c).proc = none) (hdone : s.done = true) :
    Step cfg s (.cpu c) (s.setCpu c { s.cpu c with loc := .stopped })
  /-- No process and not `done`: the CPU skips the slot. -/
  | skip {s : OsState m} (c : Fin m) (hloc : (s.cpu c).loc = .recheck)
    (hproc : (s.cpu c).proc = none) (hdone : s.done = false) :
    Step cfg s (.cpu c) (s.setCpu c { s.cpu c with loc := .enterSlot })
  /-- A process: it is dispatched if its time is over. -/
  | dispatch {s : OsState m} (c : Fin m) (p : ℕ) (hloc : (s.cpu c).loc = .recheck)
    (hproc : (s.cpu c).proc = some p) :
    Step cfg s (.cpu c) (s.setCpu c { s.cpu c with
      loc := .run
      timeLeft := if (s.cpu c).timeLeft = 0 then cfg.timeSlot else (s.cpu c).timeLeft })
  /-- `run` finds no instruction. -/
  | runEnd {s : OsState m} (c : Fin m) (p : ℕ) (hloc : (s.cpu c).loc = .run)
    (hproc : (s.cpu c).proc = some p) (hpc : cfg.codeSize p ≤ s.pc p) :
    Step cfg s (.cpu c) (s.setCpu c { s.cpu c with
      loc := .enterSlot
      timeLeft := (s.cpu c).timeLeft - 1 })
  /-- `run` reads the instruction. -/
  | fetch {s : OsState m} (c : Fin m) (p : ℕ) (hloc : (s.cpu c).loc = .run)
    (hproc : (s.cpu c).proc = some p) (hpc : s.pc p < cfg.codeSize p) :
    Step cfg s (.cpu c) (s.setCpu c { s.cpu c with loc := .exec (s.pc p) })
  /-- `run` increases the program counter and executes the instruction. -/
  | exec {s : OsState m} (c : Fin m) (p ins : ℕ) (hloc : (s.cpu c).loc = .exec ins)
    (hproc : (s.cpu c).proc = some p) :
    Step cfg s (.cpu c)
      { s.setCpu c { s.cpu c with loc := .enterSlot, timeLeft := (s.cpu c).timeLeft - 1 } with
        pc := Function.update s.pc p (s.pc p + 1)
        executed := Function.update s.executed p (s.executed p ++ [ins]) }
  /-- A CPU calls `next_slot`. -/
  | call {s : OsState m} (c : Fin m) (hloc : (s.cpu c).loc = .enterSlot) :
    Step cfg s (.cpu c) (s.setCpu c { s.cpu c with
      loc := .inSlot
      calls := (s.cpu c).calls + 1 })
  /-- A CPU leaves `next_slot`. -/
  | leave {s : OsState m} (c : Fin m) (hloc : (s.cpu c).loc = .inSlot) :
    Step cfg s (.cpuLeave c) (s.setCpu c { s.cpu c with loc := .head })
  /-- A CPU detaches. -/
  | detach {s : OsState m} (c : Fin m) (hloc : (s.cpu c).loc = .stopped) :
    Step cfg s (.cpu c) (s.setCpu c { s.cpu c with loc := .detached })
  /-- The loader loads the next process. -/
  | load {s : OsState m} (hloc : s.ld.loc = .head) (hi : s.ld.i < cfg.numProcesses) :
    Step cfg s .loader { s with ld := { s.ld with loc := .wait } }
  /-- All processes were added. -/
  | loaded {s : OsState m} (hloc : s.ld.loc = .head) (hi : cfg.numProcesses ≤ s.ld.i) :
    Step cfg s .loader { s with ld := { s.ld with loc := .finish } }
  /-- The process starts later. -/
  | early {s : OsState m} (hloc : s.ld.loc = .wait) (htime : s.time < cfg.startTime s.ld.i) :
    Step cfg s .loader { s with ld := { s.ld with loc := .enterSlot false } }
  /-- The process starts now. -/
  | due {s : OsState m} (hloc : s.ld.loc = .wait) (htime : cfg.startTime s.ld.i ≤ s.time) :
    Step cfg s .loader { s with ld := { s.ld with loc := .add } }
  /-- The process is added. -/
  | add {s : OsState m} (hloc : s.ld.loc = .add) :
    Step cfg s .loader { s with
      sched := s.sched.putMlqProc cfg.prio s.ld.i
      ld := { s.ld with loc := .enterSlot true, i := s.ld.i + 1 } }
  /-- The loader calls `next_slot`. -/
  | ldCall {s : OsState m} (outer : Bool) (hloc : s.ld.loc = .enterSlot outer) :
    Step cfg s .loader { s with
      ld := { s.ld with loc := .inSlot outer, calls := s.ld.calls + 1 } }
  /-- The loader leaves `next_slot`. -/
  | ldLeave {s : OsState m} (outer : Bool) (hloc : s.ld.loc = .inSlot outer) :
    Step cfg s .loaderLeave { s with
      ld := { s.ld with loc := if outer then .head else .wait } }
  /-- The loader sets `done`. -/
  | setDone {s : OsState m} (hloc : s.ld.loc = .finish) :
    Step cfg s .loader { s with done := true, ld := { s.ld with loc := .detach } }
  /-- The loader detaches. -/
  | ldDetach {s : OsState m} (hloc : s.ld.loc = .detach) :
    Step cfg s .loader { s with ld := { s.ld with loc := .detached } }
  /-- The clock advances. -/
  | tick {s : OsState m} : Step cfg s .tick { s with time := s.time + 1 }

/-- The state in which the threads start. -/
structure Initial (s : OsState m) : Prop where
  /-- The scheduler is initialised. -/
  sched : s.sched.Initial
  /-- The clock is at 0. -/
  time : s.time = 0
  /-- `done` is not set. -/
  done : s.done = false
  /-- `load` sets the program counters to 0. -/
  pc : s.pc = fun _ => 0
  /-- The CPUs are at the head of their loops, without a process. -/
  cpu : s.cpu = fun _ => ⟨.head, none, 0, 0⟩
  /-- The loader is at the head of its loop. -/
  ld : s.ld = ⟨.head, 0, 0⟩
  /-- No process has finished. -/
  finished : s.finished = 0
  /-- No instruction was executed. -/
  executed : s.executed = fun _ => []

/-- The state in which the threads start, with zero-initialised queues. -/
def fresh (m : ℕ) : OsState m where
  sched := Sched.fresh
  time := 0
  done := false
  pc _ := 0
  cpu _ := ⟨.head, none, 0, 0⟩
  ld := ⟨.head, 0, 0⟩
  finished := 0
  executed _ := []

lemma initial_fresh (m : ℕ) : (fresh m).Initial :=
  ⟨Sched.initial_fresh, rfl, rfl, rfl, rfl, rfl, rfl, rfl⟩

/-- Every thread that is not detached has called `next_slot` at least `calls` times. -/
structure AllCalled (s : OsState m) (calls : ℕ) : Prop where
  /-- The CPUs. -/
  cpu : ∀ c, (s.cpu c).loc ≠ .detached → calls ≤ (s.cpu c).calls
  /-- The loader. -/
  loader : s.ld.loc ≠ .detached → calls ≤ s.ld.calls

/-- The slot barrier: a thread leaves `next_slot` only when every thread that is not detached has
called it as often. -/
def BarrierOk (s : OsState m) : OsAct m → Prop
  | .cpuLeave c => s.AllCalled (s.cpu c).calls
  | .loaderLeave => s.AllCalled s.ld.calls
  | _ => True

end OsState

/-- All interleavings of the CPUs, the loader and the clock. -/
def osSystem (cfg : OsConfig) (m : ℕ) : LTS (OsState m) (OsAct m) where
  start := OsState.Initial
  step := OsState.Step cfg

/-- The interleavings in which the timer keeps the slot barrier. -/
def barrierSystem (cfg : OsConfig) (m : ℕ) : LTS (OsState m) (OsAct m) :=
  (osSystem cfg m).restrict OsState.BarrierOk

end Ossim
