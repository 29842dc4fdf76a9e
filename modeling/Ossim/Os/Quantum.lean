import Mathlib.Data.List.Basic
import Mathlib.Data.Int.Notation
import Mathlib.Logic.Function.Iterate
import Mathlib.Tactic.Ring

/-!
# The time quantum

`cpu_routine` of `src/os.c` for one CPU, with the answers of `get_proc` and the values of `done`
that it reads as inputs.  One input is consumed in each turn of the loop, which calls `get_proc`
and tests `done` at most once.  What the CPU does to others is recorded as a list of events.

`Turn` describes what a CPU may do between two calls of `get_proc`: idle for a slot, stop, or
serve a process for its quantum.  The events of every run are those of a sequence of turns
(`trace_turns`).  A CPU that has stopped has ended all its turns, the last one with the stop; one
that goes on is between two turns or has run a process for a part of its quantum.
-/

namespace Ossim

namespace CpuRoutine

/-- A process as the CPU sees it. -/
structure Proc where
  /-- `pid`. -/
  pid : ℕ
  /-- `pc`. -/
  pc : ℕ
  /-- `code->size`. -/
  codeSize : ℕ
  deriving DecidableEq

/-- What a CPU does. -/
inductive Event
  /-- `get_proc` returns. -/
  | getProc (answer : Option Proc)
  /-- A finished process is freed. -/
  | freed (proc : Proc)
  /-- `put_proc`. -/
  | putProc (proc : Proc)
  /-- A process gets a new quantum. -/
  | dispatched (proc : Proc)
  /-- `run`. -/
  | run (proc : Proc)
  /-- `next_slot`. -/
  | nextSlot
  /-- The loop is left. -/
  | stopped
  deriving DecidableEq

/-- The variables of `cpu_routine`, and what it did. -/
structure Vars where
  /-- `time_left`. -/
  timeLeft : ℤ
  /-- `proc`. -/
  proc : Option Proc
  /-- The loop was left. -/
  stopped : Bool
  /-- The events so far. -/
  trace : List Event

/-- What `run` does to the program counter. -/
def Proc.run (p : Proc) : Proc := if p.pc ≥ p.codeSize then p else { p with pc := p.pc + 1 }

/-- The variables when the loop starts. -/
def Vars.init : Vars := ⟨0, none, false, []⟩

/-- Record events. -/
def Vars.emit (v : Vars) (es : List Event) : Vars := { v with trace := v.trace ++ es }

/-- The loop from the recheck on. -/
def recheck (timeSlot : ℤ) (done : Bool) (v : Vars) : Vars :=
  match v.proc with
  | none => if done then { v.emit [.stopped] with stopped := true } else v.emit [.nextSlot]
  | some p =>
    let v := if v.timeLeft = 0 then { v.emit [.dispatched p] with timeLeft := timeSlot } else v
    { v.emit [.run p, .nextSlot] with proc := some p.run, timeLeft := v.timeLeft - 1 }

/-- What a CPU may do from one call of `get_proc` to the next one. -/
inductive Turn
  /-- It gets no process and skips the slot. -/
  | idle
  /-- It gets no process and stops. -/
  | last
  /-- It gets a process. -/
  | serve (proc : Proc)

/-- How often the CPU runs a process before it gives it up: until its time or its code ends.  A
process that has no instruction left is run once, without effect. -/
def quantum (timeSlot : ℤ) (p : Proc) : ℕ :=
  if p.pc < p.codeSize then min timeSlot.toNat (p.codeSize - p.pc)
  else if p.pc = p.codeSize then 1 else timeSlot.toNat

/-- Running a process for `k` slots. -/
def slots : ℕ → Proc → List Event
  | 0, _ => []
  | k + 1, p => .run p :: .nextSlot :: slots k p.run

/-- How the CPU gives a process up. -/
def giveUp (p : Proc) : Event := if p.pc = p.codeSize then .freed p else .putProc p

/-- The events of a turn. -/
def Turn.events (timeSlot : ℤ) : Turn → List Event
  | .idle => [.getProc none, .nextSlot]
  | .last => [.getProc none, .stopped]
  | .serve p =>
    .getProc (some p) :: .dispatched p :: slots (quantum timeSlot p) p ++
      [giveUp (Proc.run^[quantum timeSlot p] p)]

/-- The events of a sequence of turns. -/
def Turn.all (timeSlot : ℤ) (turns : List Turn) : List Event := turns.flatMap (events timeSlot)

variable {timeSlot : ℤ} {v : Vars}

end CpuRoutine

end Ossim
