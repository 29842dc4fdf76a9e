import Ossim.Lib.Transition
import Mathlib.Data.Fin.Basic
import Mathlib.Logic.Function.Basic

/-!
# The slot timer

The functions `timer_routine`, `next_slot` and `detach_event` of `src/timer.c` as steps of a
transition system with one timer and `n` devices, all attached before `start_timer`.

A critical section is one step.  A thread that waits on a condition variable is at a location of
its own, with a flag that a signal sets; it takes its next step only when the flag is set, and a
signal that finds nobody waiting has no effect.  `stop_timer`, which `main` calls after all other
threads were joined, is not a step of the system, so `timer_stop` stays 0.

Three fields record what the theorems speak about and the code does not read: which completion
flags the timer has seen, how many calls of `next_slot` a device has completed, and how many it
has made.
-/

namespace Ossim

/-- Where `timer_routine` stands. -/
inductive TimerLoc
  /-- At the head of the outer loop. -/
  | top
  /-- About to look at a device in the first inner loop; behind the last one, about to leave it. -/
  | check (dev : ℕ)
  /-- Waiting on the `event_cond` of a device. -/
  | waiting (dev : ℕ) (signaled : Bool)
  /-- About to release a device in the second inner loop; behind the last one, about to compare
  `fsh` and `event`. -/
  | release (dev : ℕ)
  /-- Ended. -/
  | ended
  deriving DecidableEq

/-- Where a device stands. -/
inductive DevLoc
  /-- Outside `next_slot`. -/
  | running
  /-- In `next_slot`, about to test its flag for the first time. -/
  | called
  /-- In `next_slot`, waiting on its `timer_cond`. -/
  | waiting (signaled : Bool)
  /-- After `detach_event`. -/
  | detached
  deriving DecidableEq

/-- A device: its `struct timer_id_t`, where its thread stands, and its record. -/
structure TimerDev where
  /-- The flag `done`. -/
  done : Bool
  /-- The flag `fsh`. -/
  fsh : Bool
  /-- Where the thread stands. -/
  loc : DevLoc
  /-- Whether the timer has seen the flag `done` that the last `next_slot` call set. -/
  seen : Bool
  /-- How many calls of `next_slot` the device has completed. -/
  completed : ℕ
  /-- How many calls of `next_slot` the device has made. -/
  calls : ℕ
  deriving DecidableEq

/-- `attach_event`: a fresh device. -/
def attachEvent : TimerDev := ⟨false, false, .running, false, 0, 0⟩

/-- A timer with its devices, in the order of `dev_list`. -/
structure TimerState (n : ℕ) where
  /-- Where the timer stands. -/
  timer : TimerLoc
  /-- The timer's count of finished devices. -/
  fsh : ℕ
  /-- The timer's count of devices. -/
  event : ℕ
  /-- `_time`. -/
  time : ℕ
  /-- The devices. -/
  dev : Fin n → TimerDev

/-- The steps: of the timer, and of a device. -/
inductive TimerAct (n : ℕ)
  /-- The timer's next critical section. -/
  | timer
  /-- The first critical section of `next_slot`. -/
  | nextSlot (d : Fin n)
  /-- The test of the flag in `next_slot`, for the first time or after a signal. -/
  | test (d : Fin n)
  /-- `detach_event`. -/
  | detach (d : Fin n)

/-- `pthread_cond_signal` on the `event_cond` of a device: a timer that waits there may go on. -/
def TimerLoc.signal (loc : TimerLoc) (dev : ℕ) : TimerLoc :=
  match loc with
  | .waiting k signaled => .waiting k (signaled || k == dev)
  | loc => loc

/-- `pthread_cond_signal` on the `timer_cond` of a device. -/
def DevLoc.signal : DevLoc → DevLoc
  | .waiting _ => .waiting true
  | loc => loc

/-- A device is about to test its flag in `next_slot`. -/
def DevLoc.Testing (loc : DevLoc) : Prop := loc = .called ∨ loc = .waiting true

/-- A device is in `next_slot`. -/
def DevLoc.InSlot (loc : DevLoc) : Prop := loc = .called ∨ ∃ signaled, loc = .waiting signaled

namespace TimerState

variable {n : ℕ}

/-- Store into a device. -/
def setDev (s : TimerState n) (d : Fin n) (v : TimerDev) : TimerState n :=
  { s with dev := Function.update s.dev d v }

/-- One step. -/
inductive Step : TimerState n → TimerAct n → TimerState n → Prop
  /-- The outer loop starts a slot. -/
  | slot {s : TimerState n} (hloc : s.timer = .top) :
    Step s .timer { s with timer := .check 0, fsh := 0, event := 0 }
  /-- The device is not done: the timer waits. -/
  | block {s : TimerState n} (d : Fin n) (hloc : s.timer = .check d)
    (hdone : (s.dev d).done = false) (hfsh : (s.dev d).fsh = false) :
    Step s .timer { s with timer := .waiting d false }
  /-- A signaled timer tests again. -/
  | wake {s : TimerState n} (d : Fin n) (hloc : s.timer = .waiting d true) :
    Step s .timer { s with timer := .check d }
  /-- The device is done or detached: the timer counts it. -/
  | count {s : TimerState n} (d : Fin n) (hloc : s.timer = .check d)
    (hpass : (s.dev d).done = true ∨ (s.dev d).fsh = true) :
    Step s .timer { s.setDev d { s.dev d with seen := (s.dev d).seen || (s.dev d).done } with
      timer := .check (d + 1)
      fsh := s.fsh + (s.dev d).fsh.toNat
      event := s.event + 1 }
  /-- All devices were counted: the slot ends. -/
  | tick {s : TimerState n} (hloc : s.timer = .check n) :
    Step s .timer { s with timer := .release 0, time := s.time + 1 }
  /-- A device may go on. -/
  | release {s : TimerState n} (d : Fin n) (hloc : s.timer = .release d) :
    Step s .timer { s.setDev d { s.dev d with done := false, loc := (s.dev d).loc.signal } with
      timer := .release (d + 1) }
  /-- All devices were released: the timer ends or goes on. -/
  | finish {s : TimerState n} (hloc : s.timer = .release n) :
    Step s .timer { s with timer := if s.fsh = s.event then .ended else .top }
  /-- A device reports its slot. -/
  | nextSlot {s : TimerState n} (d : Fin n) (hloc : (s.dev d).loc = .running) :
    Step s (.nextSlot d)
      { s.setDev d { s.dev d with
          done := true
          loc := .called
          seen := false
          calls := (s.dev d).calls + 1 } with
        timer := s.timer.signal d }
  /-- The flag is still set: the device waits. -/
  | hold {s : TimerState n} (d : Fin n) (hloc : (s.dev d).loc.Testing)
    (hdone : (s.dev d).done = true) :
    Step s (.test d) (s.setDev d { s.dev d with loc := .waiting false })
  /-- The flag was cleared: the device leaves `next_slot`. -/
  | leave {s : TimerState n} (d : Fin n) (hloc : (s.dev d).loc.Testing)
    (hdone : (s.dev d).done = false) :
    Step s (.test d) (s.setDev d { s.dev d with
      loc := .running
      completed := (s.dev d).completed + 1 })
  /-- A device detaches. -/
  | detach {s : TimerState n} (d : Fin n) (hloc : (s.dev d).loc = .running) :
    Step s (.detach d)
      { s.setDev d { s.dev d with fsh := true, loc := .detached } with
        timer := s.timer.signal d }

/-- All devices attached, no slot started. -/
def init (n : ℕ) : TimerState n := ⟨.top, 0, 0, 0, fun _ => attachEvent⟩

end TimerState

/-- The timer and its devices. -/
def timerSystem (n : ℕ) : LTS (TimerState n) (TimerAct n) where
  start s := s = TimerState.init n
  step := TimerState.Step

end Ossim
