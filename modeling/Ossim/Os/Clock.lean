import Ossim.Os.Arrival
import Ossim.Os.Progress
import Ossim.Timer.LockStep
import Mathlib.Order.Fin.Basic

/-!
# The threads on the slot timer

The threads of `src/os.c` and the timer of `src/timer.c` together.  `main` attaches the CPUs in
order and the loader behind them, and `attach_event` puts a new device at the head of `dev_list`,
so the loader is the first device and the CPUs follow from the last one to the first one.

A thread that calls or leaves `next_slot`, or detaches, takes a step together with its device; the
clock advances when the timer increases `_time`; all other steps are steps of a thread or of the
timer alone.  `clocked_refines` says that the threads then keep the slot barrier and the clock of
the loader, which `barrierSystem` and `OsState.ClockOk` only assume.  So what was proved of these
runs holds with the timer as it is written, and the slots are those of `_time`
(`executed_in_time`).  Threads and timer never wait for each other in a circle
(`Clocked.exists_step`).
-/

namespace Ossim

/-- Where a thread stands towards the timer. -/
inductive Place
  /-- Outside `next_slot`. -/
  | outside
  /-- In `next_slot`. -/
  | inSlot
  /-- After `detach_event`. -/
  | detached
  deriving DecidableEq

/-- What the timer and the threads agree on for a thread. -/
structure SlotView where
  /-- Where it stands. -/
  place : Place
  /-- How often it has called `next_slot`. -/
  calls : ℕ

/-- What a critical section of a device does to the devices. -/
def SlotView.after {n : ℕ} (v : Fin n → SlotView) : TimerAct n → Fin n → SlotView
  | .timer => v
  | .nextSlot d => Function.update v d ⟨.inSlot, (v d).calls + 1⟩
  | .test d => Function.update v d ⟨.outside, (v d).calls⟩
  | .detach d => Function.update v d ⟨.detached, (v d).calls⟩

/-- How far the clock advances when the timer ends a slot. -/
def TimerAct.ticks {n : ℕ} : TimerAct n → ℕ
  | .timer => 1
  | _ => 0

/-! ## The devices of the timer -/

/-- The place of a device. -/
def DevLoc.place : DevLoc → Place
  | .running => .outside
  | .called => .inSlot
  | .waiting _ => .inSlot
  | .detached => .detached

@[simp] lemma DevLoc.place_signal (loc : DevLoc) : loc.signal.place = loc.place := by
  cases loc <;> rfl

lemma DevLoc.place_eq_outside {loc : DevLoc} : loc.place = .outside ↔ loc = .running := by
  cases loc <;> simp [DevLoc.place]

lemma DevLoc.place_eq_detached {loc : DevLoc} : loc.place = .detached ↔ loc = .detached := by
  cases loc <;> simp [DevLoc.place]

lemma DevLoc.place_eq_inSlot {loc : DevLoc} : loc.place = .inSlot ↔ loc.InSlot := by
  cases loc <;> simp [DevLoc.place, DevLoc.InSlot]

namespace TimerState

variable {n : ℕ} {t t' : TimerState n} {e : TimerAct n}

/-- What the timer knows of the threads. -/
def view (t : TimerState n) : Fin n → SlotView := fun d => ⟨(t.dev d).loc.place, (t.dev d).calls⟩

/-- A step ends a slot, or begins or ends a call of a device. -/
def Shows (t t' : TimerState n) : TimerAct n → Prop
  | .timer => t'.time ≠ t.time
  | .nextSlot _ => True
  | .test d => (t'.dev d).loc = .running
  | .detach _ => True

/-- Storing a device changes what is known of it alone. -/
lemma view_setDev (t : TimerState n) (d : Fin n) (v : TimerDev) :
    (t.setDev d v).view = Function.update t.view d ⟨v.loc.place, v.calls⟩ := by
  funext k
  unfold view
  rw [dev_setDev]
  by_cases hk : k = d
  · subst hk
    simp
  · simp [hk]

/-- What a step of the timer or of a device shows to the threads. -/
lemma view_of_step (ht : Step t e t') :
    (Shows t t' e → t'.view = SlotView.after t.view e ∧
      t'.time = t.time + e.ticks) ∧
    (¬ Shows t t' e → t'.view = t.view ∧ t'.time = t.time) := by
  have hsame : ∀ (d : Fin n) (v : TimerDev), v.loc.place = (t.dev d).loc.place →
      v.calls = (t.dev d).calls → (t.setDev d v).view = t.view := by
    intro d v hplace hcalls
    rw [view_setDev, hplace, hcalls]
    exact Function.update_eq_self d t.view
  cases ht with
  | slot | block | wake | finish => exact ⟨fun h => absurd rfl h, fun _ => ⟨rfl, rfl⟩⟩
  | count d => exact ⟨fun h => absurd rfl h, fun _ => ⟨hsame d _ rfl rfl, rfl⟩⟩
  | tick => exact ⟨fun _ => ⟨rfl, rfl⟩, fun h => absurd (Nat.succ_ne_self _) h⟩
  | release d =>
    exact ⟨fun h => absurd rfl h, fun _ => ⟨hsame d _ (DevLoc.place_signal _) rfl, rfl⟩⟩
  | nextSlot d => exact ⟨fun _ => ⟨view_setDev t d _, rfl⟩, fun h => absurd trivial h⟩
  | hold d hloc =>
    refine ⟨fun h => ?_, fun _ => ⟨hsame d _ ?_ rfl, rfl⟩⟩
    · simp [Shows] at h
    · exact (DevLoc.place_eq_inSlot.mpr hloc.inSlot).symm
  | leave d => exact ⟨fun _ => ⟨view_setDev t d _, rfl⟩, fun h => absurd (by simp [Shows]) h⟩
  | detach d => exact ⟨fun _ => ⟨view_setDev t d _, rfl⟩, fun h => absurd trivial h⟩

end TimerState

/-! ## The threads -/

/-- The place of a CPU. -/
def CpuLoc.place : CpuLoc → Place
  | .inSlot => .inSlot
  | .detached => .detached
  | _ => .outside

/-- The place of the loader. -/
def LdLoc.place : LdLoc → Place
  | .inSlot _ => .inSlot
  | .detached => .detached
  | _ => .outside

/-- The device of a CPU. -/
def cpuDev {m : ℕ} (c : Fin m) : Fin (m + 1) := c.rev.succ

/-- The device of the loader. -/
def ldDev {m : ℕ} : Fin (m + 1) := 0

namespace OsState

variable {m : ℕ} {cfg : OsConfig} {s s' : OsState m} {a : OsAct m}

/-- What the threads know of themselves. -/
def view (s : OsState m) : Fin (m + 1) → SlotView :=
  Fin.cases ⟨s.ld.loc.place, s.ld.calls⟩
    fun i => ⟨(s.cpu i.rev).loc.place, (s.cpu i.rev).calls⟩

/-- The function of the timer that a step of a thread enters or leaves. -/
def event (s : OsState m) : OsAct m → Option (TimerAct (m + 1))
  | .cpu c =>
    match (s.cpu c).loc with
    | .enterSlot => some (.nextSlot (cpuDev c))
    | .stopped => some (.detach (cpuDev c))
    | _ => none
  | .cpuLeave c => some (.test (cpuDev c))
  | .loader =>
    match s.ld.loc with
    | .enterSlot _ => some (.nextSlot ldDev)
    | .detach => some (.detach ldDev)
    | _ => none
  | .loaderLeave => some (.test ldDev)
  | .tick => some .timer

@[simp] lemma view_cpuDev (s : OsState m) (c : Fin m) :
    s.view (cpuDev c) = ⟨(s.cpu c).loc.place, (s.cpu c).calls⟩ := by
  simp [view, cpuDev]

@[simp] lemma view_ldDev (s : OsState m) : s.view ldDev = ⟨s.ld.loc.place, s.ld.calls⟩ := rfl

/-- A device belongs to the loader or to a CPU. -/
lemma eq_ldDev_or_cpuDev (d : Fin (m + 1)) : d = ldDev ∨ ∃ c, d = cpuDev c := by
  refine Fin.cases (.inl rfl) (fun i => .inr ⟨i.rev, ?_⟩) d
  simp [cpuDev]

/-- Storing a CPU changes what is known of it alone. -/
lemma view_setCpu (s : OsState m) (c : Fin m) (v : Cpu) :
    (s.setCpu c v).view = Function.update s.view (cpuDev c) ⟨v.loc.place, v.calls⟩ := by
  funext d
  rcases eq_ldDev_or_cpuDev d with rfl | ⟨e, rfl⟩
  · rw [Function.update_of_ne (by simp [ldDev, cpuDev, Fin.ext_iff])]
    rfl
  · rw [view_cpuDev, cpu_setCpu]
    by_cases he : e = c
    · subst he
      simp
    · rw [if_neg he, Function.update_of_ne, view_cpuDev]
      simpa [cpuDev] using he

/-- Storing the loader changes what is known of it alone. -/
lemma view_setLd (s : OsState m) (v : Loader) :
    OsState.view { s with ld := v } = Function.update s.view ldDev ⟨v.loc.place, v.calls⟩ := by
  funext d
  rcases eq_ldDev_or_cpuDev d with rfl | ⟨e, rfl⟩
  · simp
  · rw [Function.update_of_ne (by simp [ldDev, cpuDev, Fin.ext_iff])]
    simp

/-- What a step of a thread shows to the timer. -/
lemma view_of_step (ht : Step cfg s a s') :
    s'.view = (s.event a).elim s.view (SlotView.after s.view) ∧
      s'.time = s.time + (s.event a).elim 0 TimerAct.ticks := by
  have hcpu : ∀ (c : Fin m) (v : Cpu), v.loc.place = (s.cpu c).loc.place →
      v.calls = (s.cpu c).calls → (s.setCpu c v).view = s.view := by
    intro c v hplace hcalls
    rw [view_setCpu, hplace, hcalls, ← view_cpuDev, Function.update_eq_self]
  have hld : ∀ v : Loader, v.loc.place = s.ld.loc.place → v.calls = s.ld.calls →
      OsState.view { s with ld := v } = s.view := by
    intro v hplace hcalls
    rw [view_setLd, hplace, hcalls, ← view_ldDev, Function.update_eq_self]
  cases ht with
  | call c hloc =>
    simp only [event, hloc, Option.elim]
    exact ⟨(view_setCpu s c _).trans (by simp [SlotView.after, CpuLoc.place]), rfl⟩
  | leave c hloc =>
    exact ⟨(view_setCpu s c _).trans (by simp [event, SlotView.after, CpuLoc.place]), rfl⟩
  | detach c hloc =>
    simp only [event, hloc, Option.elim]
    exact ⟨(view_setCpu s c _).trans (by simp [SlotView.after, CpuLoc.place]), rfl⟩
  | ldCall outer hloc =>
    simp only [event, hloc, Option.elim]
    exact ⟨(view_setLd s _).trans (by simp [SlotView.after, LdLoc.place]), rfl⟩
  | ldLeave outer hloc =>
    refine ⟨(view_setLd s _).trans ?_, rfl⟩
    cases outer <;> simp [event, SlotView.after, LdLoc.place]
  | ldDetach hloc =>
    simp only [event, hloc, Option.elim]
    exact ⟨(view_setLd s _).trans (by simp [SlotView.after, LdLoc.place]), rfl⟩
  | tick => exact ⟨rfl, rfl⟩
  | noProc c hloc | free c p hloc | put c p hloc | keep c p hloc | getFinished c hloc
  | getPut c hloc | stop c hloc | skip c hloc | dispatch c p hloc | runEnd c p hloc
  | fetch c p hloc | exec c p ins hloc =>
    simp only [event, hloc, Option.elim]
    exact ⟨hcpu c _ (by rw [hloc]; rfl) rfl, rfl⟩
  | getFirst c hloc =>
    simp only [event, hloc, Option.elim]
    refine ⟨hcpu c _ ?_ rfl, rfl⟩
    rw [hloc]
    dsimp only
    split <;> rfl
  | load hloc | loaded hloc | early hloc | due hloc | setDone hloc | add hloc =>
    simp only [event, hloc, Option.elim]
    exact ⟨hld _ (by rw [hloc]; rfl) rfl, rfl⟩

end OsState

/-! ## Threads and timer together -/

/-- The threads and the timer. -/
structure Clocked (m : ℕ) where
  /-- The threads. -/
  os : OsState m
  /-- The timer with the device of each thread. -/
  timer : TimerState (m + 1)

/-- Who takes a step. -/
inductive ClockedAct (m : ℕ)
  /-- A thread, outside the functions of the timer. -/
  | thread (a : OsAct m)
  /-- A thread together with its device, or the clock together with the timer. -/
  | both (a : OsAct m) (e : TimerAct (m + 1))
  /-- The timer, or a device that goes on waiting. -/
  | timer (e : TimerAct (m + 1))

/-- All interleavings of the CPUs, the loader and `timer_routine`. -/
def clockedSystem (cfg : OsConfig) (m : ℕ) : LTS (Clocked m) (ClockedAct m) where
  start s := s.os.Initial ∧ s.timer = .init (m + 1)
  step s x s' :=
    match x with
    | .thread a => s.os.event a = none ∧ OsState.Step cfg s.os a s'.os ∧ s'.timer = s.timer
    | .both a e => s.os.event a = some e ∧ OsState.Step cfg s.os a s'.os ∧
        TimerState.Step s.timer e s'.timer ∧ TimerState.Shows s.timer s'.timer e
    | .timer e => TimerState.Step s.timer e s'.timer ∧ ¬ TimerState.Shows s.timer s'.timer e ∧
        s'.os = s.os

namespace Clocked

variable {m : ℕ} {cfg : OsConfig} {s s' : Clocked m}

/-- Threads and timer agree on the place of every thread and on the time. -/
structure Coupled (s : Clocked m) : Prop where
  /-- The timer has come here on its own steps. -/
  timer : (timerSystem (m + 1)).Reachable s.timer
  /-- They agree on the threads. -/
  view : s.os.view = s.timer.view
  /-- They agree on the time. -/
  time : s.os.time = s.timer.time

lemma coupled_of_start (h : (clockedSystem cfg m).start s) : s.Coupled := by
  obtain ⟨hos, htimer⟩ := h
  refine ⟨.start htimer, ?_, ?_⟩
  · funext d
    rw [htimer]
    rcases OsState.eq_ldDev_or_cpuDev d with rfl | ⟨c, rfl⟩
    · rw [OsState.view_ldDev, hos.ld]
      rfl
    · rw [OsState.view_cpuDev, hos.cpu]
      rfl
  · rw [hos.time, htimer]
    rfl

/-- Every step keeps the agreement. -/
lemma Coupled.step (h : s.Coupled) {x : ClockedAct m} (ht : (clockedSystem cfg m).step s x s') :
    s'.Coupled := by
  cases x with
  | thread a =>
    obtain ⟨hevent, hos, htimer⟩ := ht
    obtain ⟨hview, htime⟩ := OsState.view_of_step hos
    rw [hevent] at hview htime
    exact ⟨htimer ▸ h.timer, by rw [hview, htimer]; exact h.view,
      by rw [htime, htimer]; exact h.time⟩
  | both a e =>
    obtain ⟨hevent, hos, htimer, hshows⟩ := ht
    obtain ⟨hview, htime⟩ := OsState.view_of_step hos
    obtain ⟨hview', htime'⟩ := (TimerState.view_of_step htimer).1 hshows
    rw [hevent] at hview htime
    refine ⟨h.timer.step htimer, ?_, ?_⟩
    · rw [hview, hview', ← h.view]
      rfl
    · rw [htime, htime', ← h.time]
      rfl
  | timer e =>
    obtain ⟨htimer, hshows, hos⟩ := ht
    obtain ⟨hview, htime⟩ := (TimerState.view_of_step htimer).2 hshows
    exact ⟨h.timer.step htimer, by rw [hos, hview]; exact h.view, by rw [hos, htime]; exact h.time⟩

lemma coupled_of_reachable (hs : (clockedSystem cfg m).Reachable s) : s.Coupled :=
  hs.invariant (fun _ h => coupled_of_start h) fun _ _ _ _ h ht => h.step ht

namespace Coupled

lemma cpu_place (h : s.Coupled) (c : Fin m) :
    (s.timer.dev (cpuDev c)).loc.place = (s.os.cpu c).loc.place := by
  have hview := congrFun h.view (cpuDev c)
  rw [OsState.view_cpuDev] at hview
  exact (congrArg SlotView.place hview).symm

lemma cpu_calls (h : s.Coupled) (c : Fin m) :
    (s.timer.dev (cpuDev c)).calls = (s.os.cpu c).calls := by
  have hview := congrFun h.view (cpuDev c)
  rw [OsState.view_cpuDev] at hview
  exact (congrArg SlotView.calls hview).symm

lemma ld_place (h : s.Coupled) : (s.timer.dev ldDev).loc.place = s.os.ld.loc.place :=
  (congrArg SlotView.place (congrFun h.view ldDev)).symm

lemma ld_calls (h : s.Coupled) : (s.timer.dev ldDev).calls = s.os.ld.calls :=
  (congrArg SlotView.calls (congrFun h.view ldDev)).symm

lemma cpu_detached (h : s.Coupled) {c : Fin m} :
    (s.timer.dev (cpuDev c)).loc = .detached ↔ (s.os.cpu c).loc = .detached := by
  rw [← DevLoc.place_eq_detached, h.cpu_place]
  cases (s.os.cpu c).loc <;> simp [CpuLoc.place]

lemma ld_detached (h : s.Coupled) :
    (s.timer.dev ldDev).loc = .detached ↔ s.os.ld.loc = .detached := by
  rw [← DevLoc.place_eq_detached, h.ld_place]
  cases s.os.ld.loc <;> simp [LdLoc.place]

/-- What all devices that are not detached have called, all threads have. -/
lemma allCalled (h : s.Coupled) {n : ℕ}
    (hall : ∀ d, (s.timer.dev d).loc ≠ .detached → n ≤ (s.timer.dev d).calls) :
    s.os.AllCalled n where
  cpu c hdet := by
    rw [← h.cpu_calls]
    exact hall _ (mt h.cpu_detached.mp hdet)
  loader hdet := by
    rw [← h.ld_calls]
    exact hall _ (mt h.ld_detached.mp hdet)

/-- A device that is not detached has called `next_slot` in every slot that has passed. -/
lemma time_le_calls (h : s.Coupled) {d : Fin (m + 1)} (hd : (s.timer.dev d).loc ≠ .detached) :
    s.timer.time ≤ (s.timer.dev d).calls := by
  have hok := (TimerState.ok_of_reachable h.timer).dev d
  have hcalls := hok.calls
  by_cases hrunning : (s.timer.dev d).loc = .running
  · have := (hok.running hrunning).2
    omega
  · rw [if_neg (by simp [hrunning, hd])] at hcalls
    have hin := DevLoc.inSlot_iff.mpr ⟨hrunning, hd⟩
    by_cases hdue : s.timer.timer.Due d
    · have hcounted := (hok.counted hdue (hok.fsh_of_inSlot hin)).2.2.2
      have hlate : s.timer.timer.late ≤ 1 := by cases s.timer.timer <;> simp [TimerLoc.late]
      omega
    · have hslot := hok.inSlot hdue hin
      split at hslot <;> omega

/-- A thread leaves `next_slot` when all others have called it as often. -/
lemma barrierOk (h : s.Coupled) {t' : TimerState (m + 1)} {d : Fin (m + 1)}
    (ht : TimerState.Step s.timer (.test d) t') (hleave : (t'.dev d).loc = .running) :
    s.os.AllCalled (s.timer.dev d).calls :=
  h.allCalled fun _ he => TimerState.calls_le_of_leave h.timer ht hleave he

/-- The loader leaves `next_slot` in the slot of its last call. -/
lemma time_of_leave (h : s.Coupled) {t' : TimerState (m + 1)} {d : Fin (m + 1)}
    (ht : TimerState.Step s.timer (.test d) t') (hleave : (t'.dev d).loc = .running) :
    s.timer.time = (s.timer.dev d).calls := by
  have hok' := (TimerState.ok_of_reachable (h.timer.step ht)).dev d
  have hcompleted := (hok'.running hleave).2
  have hcalls := hok'.calls
  obtain ⟨hview, htime⟩ := (TimerState.view_of_step ht).1 hleave
  have hsame : (t'.dev d).calls = (s.timer.dev d).calls := by
    have := congrArg SlotView.calls (congrFun hview d)
    simpa [TimerState.view, SlotView.after] using this
  simp only [hleave, true_or, if_true] at hcalls
  simp only [TimerAct.ticks] at htime
  omega

/-- When a slot ends, the loader waits for it or has detached. -/
lemma clockOk_tick (h : s.Coupled) {t' : TimerState (m + 1)}
    (ht : TimerState.Step s.timer .timer t') (htick : t'.time ≠ s.timer.time) :
    s.os.ClockOk .tick := by
  have hloc := (TimerState.time_of_step ht).resolve_left htick
  have hok := (TimerState.ok_of_reachable h.timer).dev ldDev
  rw [hloc] at hok
  by_cases hdet : (s.timer.dev ldDev).loc = .detached
  · exact .inr (h.ld_detached.mp hdet)
  · have hfsh : (s.timer.dev ldDev).fsh = false := by
      rw [Bool.eq_false_iff]
      exact fun hfsh => hdet (hok.detached.mpr hfsh)
    obtain ⟨-, -, hin, hcompleted⟩ := hok.counted (Nat.succ_pos m) hfsh
    have hcalls := hok.calls
    rw [if_neg (by have := DevLoc.inSlot_iff.mp hin; tauto), h.ld_calls] at hcalls
    refine .inl ⟨?_, ?_⟩
    · have hplace := h.ld_place
      rw [DevLoc.place_eq_inSlot.mpr hin] at hplace
      cases hld : s.os.ld.loc with
      | inSlot outer => exact ⟨outer, hld⟩
      | _ => simp [hld, LdLoc.place] at hplace
    · rw [h.time]
      simp only [TimerLoc.late] at hcompleted
      omega

end Coupled

/-! ## The threads keep the slot barrier -/

/-- The runs that the other results about the threads speak about: they keep the slot barrier and
the clock of the loader. -/
abbrev slotSystem (cfg : OsConfig) (m : ℕ) : LTS (OsState m) (OsAct m) :=
  (osSystem cfg m).restrict fun s a => s.BarrierOk a ∧ s.ClockOk a

lemma slot_reachable (hs : (clockedSystem cfg m).Reachable s) :
    (slotSystem cfg m).Reachable s.os := by
  refine hs.invariant (I := fun s => (slotSystem cfg m).Reachable s.os) ?_ ?_
  · rintro s ⟨hinit, -⟩
    exact .start hinit
  intro s x s' hreach hos ht
  have h := coupled_of_reachable hreach
  cases x with
  | thread a =>
    obtain ⟨hevent, hstep, -⟩ := ht
    refine hos.step ⟨hstep, ?_⟩
    cases a with
    | cpu c => exact ⟨trivial, trivial⟩
    | loader => exact ⟨trivial, trivial⟩
    | cpuLeave c | loaderLeave | tick => cases hevent
  | both a e =>
    obtain ⟨hevent, hstep, htimer, hshows⟩ := ht
    refine hos.step ⟨hstep, ?_⟩
    cases a with
    | cpu c => exact ⟨trivial, trivial⟩
    | loader => exact ⟨trivial, trivial⟩
    | cpuLeave c =>
      obtain rfl := Option.some.inj hevent
      refine ⟨?_, trivial⟩
      show s.os.AllCalled (s.os.cpu c).calls
      rw [← h.cpu_calls]
      exact h.barrierOk htimer hshows
    | loaderLeave =>
      obtain rfl := Option.some.inj hevent
      refine ⟨?_, ?_⟩
      · show s.os.AllCalled s.os.ld.calls
        rw [← h.ld_calls]
        exact h.barrierOk htimer hshows
      · show s.os.time = s.os.ld.calls
        rw [h.time, ← h.ld_calls]
        exact h.time_of_leave htimer hshows
    | tick =>
      obtain rfl := Option.some.inj hevent
      exact ⟨trivial, h.clockOk_tick htimer hshows⟩
  | timer e =>
    obtain ⟨-, -, hsame⟩ := ht
    rw [hsame]
    exact hos

lemma thread_step (hs : (clockedSystem cfg m).Reachable s) {a : OsAct m} {os : OsState m}
    (ht : OsState.Step cfg s.os a os) (hevent : s.os.event a = none) :
    (clockedSystem cfg m).Reachable ⟨os, s.timer⟩ :=
  hs.step (a := .thread a) ⟨hevent, ht, rfl⟩

lemma both_step (hs : (clockedSystem cfg m).Reachable s) {a : OsAct m} {e : TimerAct (m + 1)}
    {os : OsState m} {timer : TimerState (m + 1)} (ht : OsState.Step cfg s.os a os)
    (hevent : s.os.event a = some e) (htimer : TimerState.Step s.timer e timer)
    (hshows : TimerState.Shows s.timer timer e) :
    (clockedSystem cfg m).Reachable ⟨os, timer⟩ :=
  hs.step (a := .both a e) ⟨hevent, ht, htimer, hshows⟩

lemma timer_step (hs : (clockedSystem cfg m).Reachable s) {e : TimerAct (m + 1)}
    {timer : TimerState (m + 1)} (htimer : TimerState.Step s.timer e timer)
    (hshows : ¬ TimerState.Shows s.timer timer e) :
    (clockedSystem cfg m).Reachable ⟨s.os, timer⟩ :=
  hs.step (a := .timer e) ⟨htimer, hshows, rfl⟩

/-- One process of one instruction on one CPU, two slots long; then all threads have detached. -/
lemma exists_two_slots : ∃ s : Clocked 1, (clockedSystem .single 1).Reachable s ∧
    s.timer.time = 2 ∧ ∀ d, (s.timer.dev d).loc = .detached := by
  have h₀ : (clockedSystem .single 1).Reachable ⟨.fresh 1, .init 2⟩ :=
    .start ⟨OsState.initial_fresh 1, rfl⟩
  -- the loader adds the process
  have h₁ := thread_step h₀ (.load rfl (by decide)) rfl
  have h₂ := thread_step h₁ (.due rfl (by decide)) rfl
  have h₃ := thread_step h₂ (.add rfl) rfl
  have h₄ := both_step h₃ (.ldCall true rfl) rfl (.nextSlot ldDev rfl) trivial
  -- the CPU runs it
  have h₅ := thread_step h₄ (.noProc 0 rfl rfl) rfl
  have h₆ := thread_step h₅ (.getFirst 0 rfl) rfl
  have h₇ := thread_step h₆ (.dispatch 0 0 (by decide +kernel) (by decide +kernel))
    (by decide +kernel)
  have h₈ := thread_step h₇ (.fetch 0 0 rfl (by decide +kernel) (by decide +kernel)) rfl
  have h₉ := thread_step h₈ (.exec 0 0 0 rfl (by decide +kernel)) rfl
  have h₁₀ := both_step h₉ (.call 0 rfl) rfl (.nextSlot (cpuDev 0) rfl) trivial
  -- the timer ends the first slot
  have h₁₁ := timer_step h₁₀ (.slot rfl) (fun h => h rfl)
  have h₁₂ := timer_step h₁₁ (.count 0 rfl (.inl rfl)) (fun h => h rfl)
  have h₁₃ := timer_step h₁₂ (.count 1 rfl (.inl rfl)) (fun h => h rfl)
  have h₁₄ := both_step h₁₃ .tick rfl (.tick rfl) (Nat.succ_ne_self _)
  have h₁₅ := timer_step h₁₄ (.release 0 rfl) (fun h => h rfl)
  have h₁₆ := timer_step h₁₅ (.release 1 rfl) (fun h => h rfl)
  have h₁₇ := timer_step h₁₆ (.finish rfl) (fun h => h rfl)
  have h₁₈ := both_step h₁₇ (.ldLeave true rfl) rfl (.leave ldDev (.inl rfl) rfl) rfl
  have h₁₉ := both_step h₁₈ (.leave 0 rfl) rfl (.leave (cpuDev 0) (.inl rfl) rfl) rfl
  -- loader and CPU finish
  have h₂₀ := thread_step h₁₉ (.loaded rfl (by decide)) rfl
  have h₂₁ := thread_step h₂₀ (.setDone rfl) rfl
  have h₂₂ := both_step h₂₁ (.ldDetach rfl) rfl (.detach ldDev rfl) trivial
  have h₂₃ := thread_step h₂₂ (.free 0 0 rfl (by decide +kernel) (by decide +kernel)) rfl
  have h₂₄ := thread_step h₂₃ (.getFinished 0 rfl) rfl
  have h₂₅ := thread_step h₂₄ (.stop 0 rfl (by decide +kernel) rfl) rfl
  have h₂₆ := both_step h₂₅ (.detach 0 rfl) rfl (.detach (cpuDev 0) rfl) trivial
  -- the timer ends the second slot
  have h₂₇ := timer_step h₂₆ (.slot rfl) (fun h => h rfl)
  have h₂₈ := timer_step h₂₇ (.count 0 rfl (.inr rfl)) (fun h => h rfl)
  have h₂₉ := timer_step h₂₈ (.count 1 rfl (.inr rfl)) (fun h => h rfl)
  have h₃₀ := both_step h₂₉ .tick rfl (.tick rfl) (Nat.succ_ne_self _)
  exact ⟨_, h₃₀, rfl, by decide⟩

/-- The threads on the timer keep the slot barrier and the clock of the loader, and a CPU that is
not in `next_slot` has called it once for each slot that has passed. -/
theorem clocked_refines (hs : (clockedSystem cfg m).Reachable s) :
    (slotSystem cfg m).Reachable s.os ∧ s.os.time = s.timer.time ∧
      ∀ c, (s.os.cpu c).loc ≠ .inSlot → (s.os.cpu c).loc ≠ .detached →
        (s.os.cpu c).calls = s.timer.time := by
  have h := coupled_of_reachable hs
  refine ⟨slot_reachable hs, h.time, fun c hin hdet => ?_⟩
  have hrunning : (s.timer.dev (cpuDev c)).loc = .running := by
    rw [← DevLoc.place_eq_outside, h.cpu_place]
    cases hloc : (s.os.cpu c).loc <;> simp_all [CpuLoc.place]
  have hok := (TimerState.ok_of_reachable h.timer).dev (cpuDev c)
  have hcalls := hok.calls
  have hcompleted := (hok.running hrunning).2
  rw [if_pos (.inl hrunning), h.cpu_calls] at hcalls
  omega

/-- There the run of the threads is one of these, two slots long. -/
theorem clocked_refines_two_slots : ∃ s : Clocked 1, (slotSystem .single 1).Reachable s.os ∧
    s.os.time = 2 := by
  obtain ⟨s, hs, htime, -⟩ := exists_two_slots
  obtain ⟨hslot, hsame, -⟩ := clocked_refines hs
  exact ⟨s, hslot, hsame.trans htime⟩

/-! ## The last slot of the processes -/

/-- The loader's calls when it is through. -/
lemma calls_of_through {s : OsState m} (hs : (slotSystem cfg m).Reachable s)
    (hld : s.ld.loc = .finish ∨ s.ld.loc = .detach ∨ s.ld.loc = .detached) :
    s.ld.calls = ready cfg.startTime cfg.numProcesses := by
  have hall : s.OnTime cfg ∧ s.Loading cfg ∧
      (s.ld.loc = .finish ∨ s.ld.loc = .detach ∨ s.ld.loc = .detached →
        s.ld.calls = ready cfg.startTime cfg.numProcesses) := by
    refine hs.invariant_restrict (I := fun s => s.OnTime cfg ∧ s.Loading cfg ∧
      (s.ld.loc = .finish ∨ s.ld.loc = .detach ∨ s.ld.loc = .detached →
        s.ld.calls = ready cfg.startTime cfg.numProcesses)) ?_ ?_
    · intro s h
      exact ⟨OsState.onTime_of_initial h, OsState.loading_of_initial h, by simp [h.ld]⟩
    · rintro s a s' ⟨htime, hload, hcalls⟩ ht ⟨-, hok⟩
      refine ⟨htime.step ht hok, hload.step ht, ?_⟩
      cases ht with
      | loaded hloc hi =>
        intro _
        unfold OsState.OnTime at htime
        rw [hloc, le_antisymm hload.le hi] at htime
        exact htime.1.symm.trans htime.2
      | setDone hloc => exact fun _ => hcalls (.inl hloc)
      | ldDetach hloc => exact fun _ => hcalls (.inr (.inl hloc))
      | load hloc | early hloc | due hloc | add hloc | ldCall outer hloc => simp
      | ldLeave outer hloc => cases outer <;> simp
      | _ => exact hcalls
  exact hall.2.2 hld

lemma ready_strictMono (startTime : ℕ → ℕ) : StrictMono (ready startTime) := by
  apply strictMono_nat_of_lt_succ
  intro i
  exact Nat.lt_succ_of_le (ready_le_arrival i)

/-- In the slot behind the last arrival, the loader has added all processes. -/
lemma loaded_of_ready_le {s : OsState m} (hs : (slotSystem cfg m).Reachable s)
    (htime : ready cfg.startTime cfg.numProcesses ≤ s.time) :
    s.ld.i = cfg.numProcesses ∧ s.loaderCalls = ready cfg.startTime cfg.numProcesses := by
  have honTime : s.OnTime cfg := hs.invariant_restrict (I := fun s => s.OnTime cfg)
    (fun s h => OsState.onTime_of_initial h) fun s a s' h ht hok => h.step ht hok.2
  have hload : s.Loading cfg := OsState.loading_of_reachable hs.of_restrict
  have hmono := ready_strictMono cfg.startTime
  -- a process that is still to be added arrives before that slot
  have hlate : ∀ time, s.ld.i < cfg.numProcesses → time ≤ arrival cfg.startTime s.ld.i →
      time < ready cfg.startTime cfg.numProcesses := by
    intro time hi hle
    have hnext : ready cfg.startTime (s.ld.i + 1) ≤ ready cfg.startTime cfg.numProcesses :=
      hmono.monotone hi
    rw [ready] at hnext
    omega
  have hall : ∀ time, time ≤ ready cfg.startTime s.ld.i → s.time ≤ time →
      s.ld.i = cfg.numProcesses := by
    intro time hle htime'
    refine le_antisymm hload.le (hmono.le_iff_le.mp ?_)
    omega
  have hthrough := calls_of_through hs
  unfold OsState.OnTime at honTime
  cases hloc : s.ld.loc with
  | head =>
    rw [hloc] at honTime
    have hi := hall _ honTime.2.le le_rfl
    refine ⟨hi, ?_⟩
    rw [← hi, ← honTime.2, honTime.1]
    simp [OsState.loaderCalls, hloc]
  | wait =>
    rw [hloc] at honTime
    have := hlate _ (hload.loading (.inl hloc)) honTime.2.2
    omega
  | add =>
    rw [hloc] at honTime
    have := hlate _ (hload.loading (.inr (.inl hloc))) honTime.2.le
    omega
  | enterSlot outer =>
    rw [hloc] at honTime
    cases outer with
    | false =>
      have := hlate _ (hload.loading (.inr (.inr (.inl hloc)))) honTime.2.2.le
      omega
    | true =>
      have hle := hmono.monotone hload.le
      have := honTime.2
      omega
  | inSlot outer =>
    rw [hloc] at honTime
    cases outer with
    | false =>
      have := hlate _ (hload.loading (.inr (.inr (.inr hloc)))) (honTime.1.trans honTime.2.2)
      omega
    | true =>
      have hi := hall _ honTime.2.le honTime.1
      refine ⟨hi, ?_⟩
      rw [← hi, ← honTime.2]
      simp [OsState.loaderCalls, hloc]
  | finish =>
    exact ⟨hload.loaded (.inl hloc), by simp [OsState.loaderCalls, hloc, hthrough (.inl hloc)]⟩
  | detach =>
    exact ⟨hload.loaded (.inr (.inl hloc)),
      by simp [OsState.loaderCalls, hloc, hthrough (.inr (.inl hloc))]⟩
  | detached =>
    exact ⟨hload.loaded (.inr (.inr hloc)),
      by simp [OsState.loaderCalls, hloc, hthrough (.inr (.inr hloc))]⟩

lemma barrier_reachable {s : OsState m} (hs : (slotSystem cfg m).Reachable s) :
    (barrierSystem cfg m).Reachable s := by
  refine LTS.Reachable.mono (T := slotSystem cfg m) ?_ ?_ hs
  · exact fun t ht => ht
  · exact fun t a t' ht => ⟨ht.1, ht.2.1⟩

/-- Behind the last arrival, every process is done after as many slots as there is work. -/
lemma pc_of_time_le (hm : 0 < m) (hfits : cfg.Fits) (hs : (clockedSystem cfg m).Reachable s)
    (htime : ready cfg.startTime cfg.numProcesses + cfg.totalWork ≤ s.timer.time) {p : ℕ}
    (hp : p < cfg.numProcesses) : s.os.pc p = cfg.codeSize p := by
  have h := coupled_of_reachable hs
  have hslot := slot_reachable hs
  have hle : ready cfg.startTime cfg.numProcesses ≤ s.os.time := by
    rw [h.time]
    omega
  obtain ⟨hi, hcalls⟩ := loaded_of_ready_le hslot hle
  have hall : s.os.AllCalled (s.os.loaderCalls + cfg.totalWork) :=
    h.allCalled fun d hd => by
      have := h.time_le_calls hd
      omega
  exact OsState.pc_of_allCalled hm hfits (barrier_reachable hslot) hi hall hp

/-- What was executed is in order and up to the program counter. -/
lemma executed_eq (hs : (clockedSystem cfg m).Reachable s) (p : ℕ) :
    s.os.executed p = List.range (s.os.pc p) :=
  (OsState.owned_of_reachable (slot_reachable hs).of_restrict).executed p

/-- With the timer as it is written, every process has executed all its instructions, each once and
in order, when as many slots have passed behind the last arrival as there is work. -/
theorem executed_in_time (hm : 0 < m) (hfits : cfg.Fits) (hs : (clockedSystem cfg m).Reachable s)
    (htime : ready cfg.startTime cfg.numProcesses + cfg.totalWork ≤ s.timer.time) {p : ℕ}
    (hp : p < cfg.numProcesses) : s.os.executed p = List.range (cfg.codeSize p) := by
  rw [executed_eq hs, pc_of_time_le hm hfits hs htime hp]

/-- There the process has executed its instruction. -/
theorem executed_in_time_two_slots : ∃ s : Clocked 1, s.timer.time = 2 ∧ s.os.executed 0 = [0] := by
  obtain ⟨s, hs, htime, -⟩ := exists_two_slots
  have hfits : OsConfig.single.Fits := fun _ =>
    (Finset.card_filter_le _ _).trans (by decide)
  have hslots : ready OsConfig.single.startTime OsConfig.single.numProcesses +
      OsConfig.single.totalWork ≤ s.timer.time := by
    rw [htime]
    decide
  exact ⟨s, htime, executed_in_time Nat.one_pos hfits hs hslots (by decide)⟩

/-! ## Threads and timer do not get stuck -/

end Clocked

namespace OsState

variable {m : ℕ} {cfg : OsConfig} {s s' : OsState m} {a : OsAct m}

/-- A CPU that is about to run has a process. -/
def Armed (s : OsState m) : Prop := ∀ c, (s.cpu c).loc = .run → (s.cpu c).proc ≠ none

lemma Armed.step (h : s.Armed) (ht : Step cfg s a s') : s'.Armed := by
  cases ht with
  | dispatch c p hloc hproc =>
    exact forall_setCpu (P := fun v => v.loc = .run → v.proc ≠ none) (fun _ => by simp [hproc]) h
  | getFirst c hloc =>
    refine forall_setCpu (P := fun v => v.loc = .run → v.proc ≠ none) (fun hrun => ?_) h
    dsimp only at hrun
    split at hrun <;> cases hrun
  | noProc c | free c p | put c p | keep c p | getFinished c | getPut c | stop c | skip c
  | runEnd c p | fetch c p | exec c p ins | call c | leave c | detach c =>
    exact forall_setCpu (P := fun v => v.loc = .run → v.proc ≠ none) (by simp) h
  | _ => exact h

lemma armed_of_reachable (hs : (osSystem cfg m).Reachable s) : s.Armed := by
  refine hs.invariant (fun t ht c hloc => ?_) fun _ _ _ _ h ht => h.step ht
  simp [ht.cpu] at hloc

/-- A CPU outside `next_slot` can go on. -/
lemma cpu_can_step (cfg : OsConfig) (howned : s.Owned) (harmed : s.Armed) {c : Fin m}
    (hplace : (s.cpu c).loc.place = .outside) : ∃ s', Step cfg s (.cpu c) s' := by
  cases hloc : (s.cpu c).loc with
  | head =>
    cases hproc : (s.cpu c).proc with
    | none => exact ⟨_, .noProc c hloc hproc⟩
    | some p =>
      by_cases hpc : s.pc p = cfg.codeSize p
      · exact ⟨_, .free c p hloc hproc hpc⟩
      · by_cases htime : (s.cpu c).timeLeft = 0
        · exact ⟨_, .put c p hloc hproc hpc htime⟩
        · exact ⟨_, .keep c p hloc hproc hpc htime⟩
  | getFirst => exact ⟨_, .getFirst c hloc⟩
  | getFinished => exact ⟨_, .getFinished c hloc⟩
  | getPut => exact ⟨_, .getPut c hloc⟩
  | recheck =>
    cases hproc : (s.cpu c).proc with
    | none =>
      cases hdone : s.done with
      | true => exact ⟨_, .stop c hloc hproc hdone⟩
      | false => exact ⟨_, .skip c hloc hproc hdone⟩
    | some p => exact ⟨_, .dispatch c p hloc hproc⟩
  | run =>
    obtain ⟨p, hproc⟩ := Option.ne_none_iff_exists'.mp (harmed c hloc)
    by_cases hpc : s.pc p < cfg.codeSize p
    · exact ⟨_, .fetch c p hloc hproc hpc⟩
    · exact ⟨_, .runEnd c p hloc hproc (not_lt.mp hpc)⟩
  | exec ins =>
    obtain ⟨p, hproc, -⟩ := howned.fetched c ins hloc
    exact ⟨_, .exec c p ins hloc hproc⟩
  | enterSlot => exact ⟨_, .call c hloc⟩
  | stopped => exact ⟨_, .detach c hloc⟩
  | inSlot => simp [hloc, CpuLoc.place] at hplace
  | detached => simp [hloc, CpuLoc.place] at hplace

/-- The loader outside `next_slot` can go on. -/
lemma loader_can_step (cfg : OsConfig) (hplace : s.ld.loc.place = .outside) :
    ∃ s', Step cfg s .loader s' := by
  cases hloc : s.ld.loc with
  | head =>
    by_cases hi : s.ld.i < cfg.numProcesses
    · exact ⟨_, .load hloc hi⟩
    · exact ⟨_, .loaded hloc (not_lt.mp hi)⟩
  | wait =>
    by_cases htime : s.time < cfg.startTime s.ld.i
    · exact ⟨_, .early hloc htime⟩
    · exact ⟨_, .due hloc (not_lt.mp htime)⟩
  | add => exact ⟨_, .add hloc⟩
  | enterSlot outer => exact ⟨_, .ldCall outer hloc⟩
  | finish => exact ⟨_, .setDone hloc⟩
  | detach => exact ⟨_, .ldDetach hloc⟩
  | inSlot outer => simp [hloc, LdLoc.place] at hplace
  | detached => simp [hloc, LdLoc.place] at hplace

/-- What a thread enters is a function of its own device, which it may enter while it is outside
`next_slot`. -/
lemma event_thread {d : Fin (m + 1)} (ha : a = .loader ∧ d = ldDev ∨ ∃ c, a = .cpu c ∧ d = cpuDev c)
    {e : TimerAct (m + 1)} (he : s.event a = some e) : e = .nextSlot d ∨ e = .detach d := by
  rcases ha with ⟨rfl, rfl⟩ | ⟨c, rfl, rfl⟩
  · unfold event at he
    dsimp only at he
    split at he
    · exact .inl (Option.some.inj he).symm
    · exact .inr (Option.some.inj he).symm
    · cases he
  · unfold event at he
    dsimp only at he
    split at he
    · exact .inl (Option.some.inj he).symm
    · exact .inr (Option.some.inj he).symm
    · cases he

end OsState

namespace Clocked

variable {m : ℕ} {cfg : OsConfig} {s s' : Clocked m}

/-- A thread that can go on outside `next_slot` takes its device along. -/
lemma exists_step_of_running {a : OsAct m} {d : Fin (m + 1)} {os : OsState m}
    (ha : a = .loader ∧ d = ldDev ∨ ∃ c, a = .cpu c ∧ d = cpuDev c)
    (hd : (s.timer.dev d).loc = .running) (ht : OsState.Step cfg s.os a os) :
    ∃ x s', (clockedSystem cfg m).step s x s' := by
  cases hevent : s.os.event a with
  | none => exact ⟨.thread a, ⟨os, s.timer⟩, hevent, ht, rfl⟩
  | some e =>
    rcases OsState.event_thread ha hevent with rfl | rfl
    · exact ⟨.both a _, ⟨os, _⟩, hevent, ht, .nextSlot d hd, trivial⟩
    · exact ⟨.both a _, ⟨os, _⟩, hevent, ht, .detach d hd, trivial⟩

/-- A timer that can go on takes the clock along when it ends a slot. -/
lemma exists_step_of_timer {t' : TimerState (m + 1)} (ht : TimerState.Step s.timer .timer t') :
    ∃ x s', (clockedSystem cfg m).step s x s' := by
  by_cases hshows : TimerState.Shows s.timer t' .timer
  · exact ⟨.both .tick .timer, ⟨_, t'⟩, rfl, .tick, ht, hshows⟩
  · exact ⟨.timer .timer, ⟨s.os, t'⟩, ht, hshows, rfl⟩

/-- A device that leaves `next_slot` takes its thread along. -/
lemma exists_step_of_leave (h : s.Coupled) {d : Fin (m + 1)} (hd : (s.timer.dev d).loc.Testing)
    (hdone : (s.timer.dev d).done = false) : ∃ x s', (clockedSystem cfg m).step s x s' := by
  have ht := TimerState.Step.leave d hd hdone
  have hplace := DevLoc.place_eq_inSlot.mpr hd.inSlot
  rcases OsState.eq_ldDev_or_cpuDev d with rfl | ⟨c, rfl⟩
  · rw [h.ld_place] at hplace
    cases hloc : s.os.ld.loc with
    | inSlot outer =>
      exact ⟨.both .loaderLeave _, ⟨_, _⟩, rfl, .ldLeave outer hloc, ht,
        by simp [TimerState.Shows]⟩
    | _ => simp [hloc, LdLoc.place] at hplace
  · rw [h.cpu_place] at hplace
    cases hloc : (s.os.cpu c).loc with
    | inSlot =>
      exact ⟨.both (.cpuLeave c) _, ⟨_, _⟩, rfl, .leave c hloc, ht, by simp [TimerState.Shows]⟩
    | _ => simp [hloc, CpuLoc.place] at hplace

/-- As long as some thread has not detached, threads and timer do not all wait for each other. -/
lemma exists_step (hs : (clockedSystem cfg m).Reachable s)
    (hrun : (∃ c, (s.os.cpu c).loc ≠ .detached) ∨ s.os.ld.loc ≠ .detached) :
    ∃ x s', (clockedSystem cfg m).step s x s' := by
  have h := coupled_of_reachable hs
  have hok := TimerState.ok_of_reachable h.timer
  have hos := (slot_reachable hs).of_restrict
  by_cases hblocked : ∃ d : Fin (m + 1), s.timer.timer = .waiting d false
  · -- the thread that the timer waits for can go on
    obtain ⟨d, hd⟩ := hblocked
    obtain ⟨hdone, hfsh⟩ := hok.blocked d hd
    have hgone : (s.timer.dev d).loc ≠ .detached := by
      intro hgone
      exact absurd ((hok.dev d).detached.mp hgone) (by simp [hfsh])
    by_cases hrunning : (s.timer.dev d).loc = .running
    · have hplace := DevLoc.place_eq_outside.mpr hrunning
      rcases OsState.eq_ldDev_or_cpuDev d with rfl | ⟨c, rfl⟩
      · rw [h.ld_place] at hplace
        obtain ⟨os, ht⟩ := OsState.loader_can_step cfg hplace
        exact exists_step_of_running (.inl ⟨rfl, rfl⟩) hrunning ht
      · rw [h.cpu_place] at hplace
        obtain ⟨os, ht⟩ := OsState.cpu_can_step cfg (OsState.owned_of_reachable hos)
          (OsState.armed_of_reachable hos) hplace
        exact exists_step_of_running (.inr ⟨c, rfl, rfl⟩) hrunning ht
    · refine exists_step_of_leave h (d := d) ?_ hdone
      rcases DevLoc.inSlot_iff.mpr ⟨hrunning, hgone⟩ with hcalled | ⟨signaled, hwait⟩
      · exact .inl hcalled
      · cases signaled with
        | true => exact .inr hwait
        | false => exact absurd ((hok.dev d).asleep hwait) (by simp [hdone])
  · have hended : s.timer.timer ≠ .ended := by
      intro hended
      have hall := hok.count
      rw [hended] at hall
      have hdet : ∀ d, (s.timer.dev d).loc = .detached := fun d => (hok.dev d).detached.mpr (hall d)
      rcases hrun with ⟨c, hc⟩ | hld
      · exact hc (h.cpu_detached.mp (hdet _))
      · exact hld (h.ld_detached.mp (hdet _))
    obtain ⟨t', ht⟩ := TimerState.timer_can_step hok hended fun d hd => hblocked ⟨d, hd⟩
    exact exists_step_of_timer ht

end Clocked

end Ossim
