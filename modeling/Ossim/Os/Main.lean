import Ossim.Os.Clock

/-!
# The end of the simulation

`main` starts the timer, the CPUs and the loader, joins the CPUs in order and then the loader, and
calls `stop_timer`: it sets `timer_stop`, joins the timer and frees the nodes of `dev_list`.

Until `main` has returned, something can always take a step, and once all threads have detached only
a bounded number of steps is left (`returns_of_detached`).  When a node is freed, nothing else runs
any more, and each node is freed once (`freed_alone`).  When `main` returns, all work is done
(`executed_of_returned`).
-/

namespace Ossim

/-! ## A timer whose devices have all detached -/

namespace TimerState

variable {n : ℕ} {t t' : TimerState n} {e : TimerAct n}

/-- All devices have detached. -/
def Quiet (t : TimerState n) : Prop := ∀ d, (t.dev d).loc = .detached

/-- The steps of the slot that the timer begins if it has not counted all devices as finished. -/
def again (t : TimerState n) : ℕ := if t.fsh = t.event then 0 else 2 * n + 3

/-- How many steps the timer takes at most when all devices have detached. -/
def ahead (t : TimerState n) : ℕ :=
  match t.timer with
  | .top => 2 * n + 3
  | .check k => (n - k) + (n + 2) + t.again
  | .waiting k _ => (n - k) + (n + 3) + t.again
  | .release k => (n - k) + 1 + t.again
  | .ended => 0

lemma ahead_le (t : TimerState n) : t.ahead ≤ 4 * n + 6 := by
  have hagain : t.again ≤ 2 * n + 3 := by
    unfold again
    split <;> omega
  unfold ahead
  split <;> omega

/-- Storing a detached device leaves all devices detached. -/
lemma Quiet.setDev (h : t.Quiet) {d : Fin n} {v : TimerDev} (hv : v.loc = .detached) :
    (t.setDev d v).Quiet := by
  intro k
  rw [dev_setDev]
  split
  · exact hv
  · exact h k

/-- Only the timer takes steps then, and each one brings it closer to its end. -/
lemma Quiet.step (h : t.Quiet) (hok : t.Ok) (ht : Step t e t') :
    e = .timer ∧ t'.Quiet ∧ t'.ahead < t.ahead := by
  have hfsh : ∀ d, (t.dev d).fsh = true := fun d => (hok.dev d).detached.mp (h d)
  have hcount := hok.count
  have htesting : ∀ d, ¬ (t.dev d).loc.Testing := fun d hd => by
    simpa [h d, DevLoc.InSlot] using hd.inSlot
  cases ht with
  | slot hloc =>
    refine ⟨rfl, h, ?_⟩
    simp only [ahead, hloc, again, if_true]
    omega
  | block d hloc hdone hclear => exact absurd (hfsh d) (by simp [hclear])
  | wake d hloc =>
    refine ⟨rfl, h, ?_⟩
    simp only [ahead, hloc, again]
    omega
  | count d hloc hpass =>
    refine ⟨rfl, h.setDev (h d), ?_⟩
    have hlt := d.isLt
    simp only [ahead, hloc, again, hfsh d, Bool.toNat_true, Nat.add_right_cancel_iff]
    omega
  | tick hloc =>
    refine ⟨rfl, h, ?_⟩
    simp only [ahead, hloc, again]
    omega
  | release d hloc =>
    refine ⟨rfl, h.setDev (by simp [h d, DevLoc.signal]), ?_⟩
    have hlt := d.isLt
    simp only [ahead, hloc]
    show n - (d.val + 1) + 1 + t.again < n - d.val + 1 + t.again
    omega
  | finish hloc =>
    refine ⟨rfl, h, ?_⟩
    by_cases hall : t.fsh = t.event
    · simp [ahead, hloc, hall]
    · simp [ahead, hloc, again, hall]
  | nextSlot d hloc | detach d hloc => cases (h d).symm.trans hloc
  | hold d hloc | leave d hloc => exact absurd hloc (htesting d)

/-- A device that has detached stays so. -/
lemma detached_of_step (ht : Step t e t') {d : Fin n} (hd : (t.dev d).loc = .detached) :
    (t'.dev d).loc = .detached := by
  have hset : ∀ (k : Fin n) (v : TimerDev), (d = k → v.loc = .detached) →
      ((t.setDev k v).dev d).loc = .detached := by
    intro k v hv
    rw [dev_setDev]
    split
    · next hk => exact hv hk
    · exact hd
  have htesting : ¬ (t.dev d).loc.Testing := fun h => by
    simpa [hd, DevLoc.InSlot] using h.inSlot
  cases ht with
  | slot | block | wake | tick | finish => exact hd
  | count k => exact hset k _ fun hk => hk ▸ hd
  | release k => exact hset k _ fun hk => by simp [← hk, hd, DevLoc.signal]
  | nextSlot k hloc =>
    refine hset k _ fun hk => ?_
    cases hd.symm.trans (hk ▸ hloc)
  | hold k hloc | leave k hloc => exact hset k _ fun hk => absurd (hk ▸ hloc) htesting
  | detach k => exact hset k _ fun _ => rfl

/-- An ended timer takes no step. -/
lemma not_step_of_ended (hended : t.timer = .ended) : ¬ Step t .timer t' := by
  intro ht
  cases ht with
  | slot hloc | block d hloc | wake d hloc | count d hloc | tick hloc | release d hloc
  | finish hloc => cases hended.symm.trans hloc

/-- A timer that stops at the head of its loop when all devices have detached. -/
lemma Ok.stop (h : t.Ok) (hq : t.Quiet) (hloc : t.timer = .top) :
    TimerState.Ok { t with timer := .ended } where
  dev d := by
    have hd := h.dev d
    rw [hloc] at hd
    exact hd
  count d := (h.dev d).detached.mp (hq d)
  blocked d hw := by cases hw

end TimerState

/-! ## Threads that have all detached -/

namespace Clocked

variable {m : ℕ} {cfg : OsConfig} {s s' : Clocked m} {x : ClockedAct m}

/-- All threads and their devices have detached. -/
structure Quiet (s : Clocked m) : Prop where
  /-- The devices. -/
  timer : s.timer.Quiet
  /-- The CPUs. -/
  cpu : ∀ c, (s.os.cpu c).loc = .detached
  /-- The loader. -/
  ld : s.os.ld.loc = .detached

/-- A thread has detached when its device has. -/
lemma Coupled.quiet (h : s.Coupled) (hq : s.timer.Quiet) : s.Quiet :=
  ⟨hq, fun _ => h.cpu_detached.mp (hq _), h.ld_detached.mp (hq _)⟩

/-- A device has detached when its thread has. -/
lemma Coupled.quiet_timer (h : s.Coupled) (hcpu : ∀ c, (s.os.cpu c).loc = .detached)
    (hld : s.os.ld.loc = .detached) : s.timer.Quiet := by
  intro d
  rcases OsState.eq_ldDev_or_cpuDev d with rfl | ⟨c, rfl⟩
  · exact h.ld_detached.mpr hld
  · exact h.cpu_detached.mpr (hcpu c)

/-- No thread takes a step then, and the clock goes on. -/
lemma Quiet.os_step (h : s.Quiet) {a : OsAct m} {os : OsState m}
    (ht : OsState.Step cfg s.os a os) :
    a = .tick ∧ os = { s.os with time := s.os.time + 1 } := by
  cases ht with
  | tick => exact ⟨rfl, rfl⟩
  | load hloc | loaded hloc | early hloc | due hloc | add hloc | ldCall outer hloc
  | ldLeave outer hloc | setDone hloc | ldDetach hloc => cases h.ld.symm.trans hloc
  | noProc c hloc | getFirst c hloc | free c p hloc | getFinished c hloc | put c p hloc
  | getPut c hloc | keep c p hloc | stop c hloc | skip c hloc | dispatch c p hloc
  | runEnd c p hloc | fetch c p hloc | exec c p ins hloc | call c hloc | leave c hloc
  | detach c hloc => cases (h.cpu c).symm.trans hloc

/-- Only the timer takes steps then, and each one brings it closer to its end. -/
lemma Quiet.step (h : s.Quiet) (hok : s.timer.Ok) (ht : (clockedSystem cfg m).step s x s') :
    s'.Quiet ∧ TimerState.Step s.timer .timer s'.timer ∧ s'.timer.ahead < s.timer.ahead ∧
      (s'.os = s.os ∨ OsState.Step cfg s.os .tick s'.os) := by
  cases x with
  | thread a =>
    obtain ⟨hevent, hos, -⟩ := ht
    obtain ⟨rfl, -⟩ := h.os_step hos
    cases hevent
  | both a e =>
    obtain ⟨-, hos, htimer, -⟩ := ht
    obtain ⟨rfl, hq, hlt⟩ := h.timer.step hok htimer
    obtain ⟨rfl, hsame⟩ := h.os_step hos
    rw [hsame] at hos
    exact ⟨⟨hq, by rw [hsame]; exact h.cpu, by rw [hsame]; exact h.ld⟩, htimer, hlt,
      .inr (hsame ▸ hos)⟩
  | timer e =>
    obtain ⟨htimer, -, hsame⟩ := ht
    obtain ⟨rfl, hq, hlt⟩ := h.timer.step hok htimer
    exact ⟨⟨hq, by rw [hsame]; exact h.cpu, by rw [hsame]; exact h.ld⟩, htimer, hlt, .inl hsame⟩

end Clocked

/-! ## `main` -/

/-- Where `main` stands, when the threads run. -/
inductive MainLoc
  /-- Joining the threads: that many devices from the first one on belong to threads that are still
  to be joined, the last one of them next.  Behind them, about to set `timer_stop`. -/
  | join (left : ℕ)
  /-- In `stop_timer`, joining the timer. -/
  | joinTimer
  /-- In `stop_timer`, at the head of the loop over `dev_list`. -/
  | free
  /-- Returned. -/
  | returned
  deriving DecidableEq

/-- The threads, the timer and `main`. -/
structure Simulation (m : ℕ) where
  /-- The threads and the timer. -/
  clocked : Clocked m
  /-- `timer_stop`. -/
  timerStop : Bool
  /-- Where `main` stands. -/
  main : MainLoc
  /-- The nodes that `dev_list` leads to. -/
  devList : List (Fin (m + 1))
  /-- The nodes that were freed, in this order. -/
  freed : List (Fin (m + 1))

/-- Who takes a step. -/
inductive SimulationAct (m : ℕ)
  /-- A thread or the timer. -/
  | run (x : ClockedAct m)
  /-- The timer, which finds `timer_stop` set. -/
  | quit
  /-- `main`. -/
  | main

namespace Simulation

variable {m : ℕ} {cfg : OsConfig} {s s' : Simulation m}

/-- One step.  A thread has ended, so that it can be joined, when it has detached. -/
inductive Step (cfg : OsConfig) : Simulation m → SimulationAct m → Simulation m → Prop
  /-- A thread or the timer goes on; the timer begins a slot only while `timer_stop` is 0. -/
  | run {s : Simulation m} {x : ClockedAct m} {clocked : Clocked m}
    (ht : (clockedSystem cfg m).step s.clocked x clocked)
    (hgo : s.clocked.timer.timer = .top → x = .timer .timer → s.timerStop = false) :
    Step cfg s (.run x) { s with clocked := clocked }
  /-- The timer leaves its loop. -/
  | quit {s : Simulation m} (hloc : s.clocked.timer.timer = .top) (hstop : s.timerStop = true) :
    Step cfg s .quit { s with
      clocked := ⟨s.clocked.os, { s.clocked.timer with timer := .ended }⟩ }
  /-- A thread is joined. -/
  | join {s : Simulation m} (d : Fin (m + 1)) (hloc : s.main = .join (d + 1))
    (hended : (s.clocked.timer.dev d).loc = .detached) :
    Step cfg s .main { s with main := .join d }
  /-- `stop_timer` tells the timer to stop. -/
  | stop {s : Simulation m} (hloc : s.main = .join 0) :
    Step cfg s .main { s with timerStop := true, main := .joinTimer }
  /-- The timer is joined. -/
  | joinTimer {s : Simulation m} (hloc : s.main = .joinTimer)
    (hended : s.clocked.timer.timer = .ended) : Step cfg s .main { s with main := .free }
  /-- The first node is taken off the list and freed. -/
  | free {s : Simulation m} {d : Fin (m + 1)} {rest : List (Fin (m + 1))} (hloc : s.main = .free)
    (hlist : s.devList = d :: rest) :
    Step cfg s .main { s with devList := rest, freed := s.freed ++ [d] }
  /-- The list is empty: `stop_timer` returns, and so does `main`. -/
  | ret {s : Simulation m} (hloc : s.main = .free) (hlist : s.devList = []) :
    Step cfg s .main { s with main := .returned }

end Simulation

/-- All interleavings of the CPUs, the loader, `timer_routine` and `main`. -/
def simulation (cfg : OsConfig) (m : ℕ) : LTS (Simulation m) (SimulationAct m) where
  start s := (clockedSystem cfg m).start s.clocked ∧ s.timerStop = false ∧
    s.main = .join (m + 1) ∧ s.devList = List.finRange (m + 1) ∧ s.freed = []
  step := Simulation.Step cfg

namespace Simulation

variable {m : ℕ} {cfg : OsConfig} {s s' : Simulation m} {a : SimulationAct m}

/-! ## What the place of `main` says -/

/-- What holds at each place of `main`. -/
def MainOk (s : Simulation m) : Prop :=
  match s.main with
  | .join left => s.timerStop = false ∧ s.freed = [] ∧ left ≤ m + 1 ∧
      ∀ d : Fin (m + 1), left ≤ d → (s.clocked.timer.dev d).loc = .detached
  | .joinTimer => s.timerStop = true ∧ s.freed = []
  | .free => s.timerStop = true ∧ s.clocked.timer.timer = .ended
  | .returned => s.timerStop = true ∧ s.clocked.timer.timer = .ended ∧ s.devList = []

/-- The invariant: until `timer_stop` is set the threads and the timer run as if there were no
`main`, and from then on only the timer is left. -/
structure Sound (cfg : OsConfig) (s : Simulation m) : Prop where
  /-- The invariant of the timer. -/
  ok : s.clocked.timer.Ok
  /-- The threads have kept the slot barrier. -/
  os : (Clocked.slotSystem cfg m).Reachable s.clocked.os
  /-- Before `timer_stop` is set. -/
  early : s.timerStop = false → (clockedSystem cfg m).Reachable s.clocked
  /-- Behind it. -/
  late : s.timerStop = true → s.clocked.Quiet
  /-- `main`. -/
  main : s.MainOk
  /-- A node is in the list or was freed. -/
  nodes : s.freed ++ s.devList = List.finRange (m + 1)

lemma sound_of_start (h : (simulation cfg m).start s) : s.Sound cfg := by
  obtain ⟨hstart, hstop, hmain, hlist, hfreed⟩ := h
  have hs : (clockedSystem cfg m).Reachable s.clocked := .start hstart
  refine ⟨TimerState.ok_of_reachable (Clocked.coupled_of_reachable hs).timer,
    Clocked.slot_reachable hs, fun _ => hs, fun h => ?_, ?_, ?_⟩
  · cases hstop.symm.trans h
  · rw [MainOk, hmain]
    exact ⟨hstop, hfreed, le_rfl, fun d hd => absurd d.isLt (not_lt.mpr hd)⟩
  · rw [hfreed, hlist, List.nil_append]

/-- A step of a thread or of the timer. -/
lemma Sound.run (h : s.Sound cfg) {x : ClockedAct m} {clocked : Clocked m}
    (ht : (clockedSystem cfg m).step s.clocked x clocked) :
    Sound cfg { s with clocked := clocked } := by
  have hmain := h.main
  rcases Bool.eq_false_or_eq_true s.timerStop with hstop | hstop
  · have hq := h.late hstop
    obtain ⟨hq', htimer, -, hos⟩ := hq.step h.ok ht
    refine ⟨h.ok.step htimer, ?_, fun hset => ?_, fun _ => hq', ?_, h.nodes⟩
    · rcases hos with hos | hos
      · rw [hos]
        exact h.os
      · exact h.os.step ⟨hos, trivial, .inr hq.ld⟩
    · cases hstop.symm.trans hset
    · unfold MainOk at hmain ⊢
      dsimp only
      split at hmain
      · exact absurd (hstop.symm.trans hmain.1) (by decide)
      · exact hmain
      · exact absurd htimer (TimerState.not_step_of_ended hmain.2)
      · exact absurd htimer (TimerState.not_step_of_ended hmain.2.1)
  · have hs := (h.early hstop).step ht
    refine ⟨TimerState.ok_of_reachable (Clocked.coupled_of_reachable hs).timer,
      Clocked.slot_reachable hs, fun _ => hs, fun hset => ?_, ?_, h.nodes⟩
    · cases hstop.symm.trans hset
    · unfold MainOk at hmain ⊢
      dsimp only
      split at hmain
      · obtain ⟨-, hfreed, hle, hjoined⟩ := hmain
        refine ⟨hstop, hfreed, hle, fun d hd => ?_⟩
        cases x with
        | thread a => exact ht.2.2 ▸ hjoined d hd
        | both a e => exact TimerState.detached_of_step ht.2.2.1 (hjoined d hd)
        | timer e => exact TimerState.detached_of_step ht.1 (hjoined d hd)
      all_goals exact absurd (hstop.symm.trans hmain.1) (by decide)

/-- Every step keeps the invariant. -/
lemma Sound.step (h : s.Sound cfg) (ht : Step cfg s a s') : s'.Sound cfg := by
  have hmain := h.main
  cases ht with
  | run ht => exact h.run ht
  | quit hloc hstop =>
    have hq := h.late hstop
    refine ⟨h.ok.stop hq.timer hloc, h.os, fun hset => ?_, fun _ => ⟨hq.timer, hq.cpu, hq.ld⟩, ?_,
      h.nodes⟩
    · cases hstop.symm.trans hset
    · unfold MainOk at hmain ⊢
      dsimp only
      split at hmain
      · exact absurd (hstop.symm.trans hmain.1) (by decide)
      · exact hmain
      · exact ⟨hstop, rfl⟩
      · exact ⟨hstop, rfl, hmain.2.2⟩
  | join d hloc hended =>
    rw [MainOk, hloc] at hmain
    obtain ⟨hstop, hfreed, hle, hjoined⟩ := hmain
    refine ⟨h.ok, h.os, h.early, h.late, ⟨hstop, hfreed, by omega, fun k hk => ?_⟩, h.nodes⟩
    rcases Nat.eq_or_lt_of_le hk with heq | hlt
    · obtain rfl : d = k := Fin.ext heq
      exact hended
    · exact hjoined k hlt
  | stop hloc =>
    rw [MainOk, hloc] at hmain
    obtain ⟨hstop, hfreed, -, hjoined⟩ := hmain
    have hq : s.clocked.Quiet :=
      (Clocked.coupled_of_reachable (h.early hstop)).quiet fun d => hjoined d (Nat.zero_le _)
    refine ⟨h.ok, h.os, fun hset => ?_, fun _ => hq, ⟨rfl, hfreed⟩, h.nodes⟩
    cases hset
  | joinTimer hloc hended =>
    rw [MainOk, hloc] at hmain
    exact ⟨h.ok, h.os, h.early, h.late, ⟨hmain.1, hended⟩, h.nodes⟩
  | free hloc hlist =>
    rw [MainOk, hloc] at hmain
    refine ⟨h.ok, h.os, h.early, h.late, ?_, ?_⟩
    · rw [MainOk, hloc]
      exact hmain
    · rw [List.append_assoc, List.singleton_append, ← hlist]
      exact h.nodes
  | ret hloc hlist =>
    rw [MainOk, hloc] at hmain
    exact ⟨h.ok, h.os, h.early, h.late, ⟨hmain.1, hmain.2, hlist⟩, h.nodes⟩

lemma sound_of_reachable (hs : (simulation cfg m).Reachable s) : s.Sound cfg :=
  hs.invariant (fun _ h => sound_of_start h) fun _ _ _ _ h ht => h.step ht

/-! ## The way to the return of `main` -/

/-- How many steps are left at most when all threads have detached. -/
def ahead (s : Simulation m) : ℕ :=
  s.clocked.timer.ahead +
    match s.main with
    | .join left => left + 3 + s.devList.length
    | .joinTimer => 2 + s.devList.length
    | .free => 1 + s.devList.length
    | .returned => 0

lemma Sound.ahead_le (h : s.Sound cfg) : s.ahead ≤ 6 * m + 15 := by
  have htimer := s.clocked.timer.ahead_le
  have hnodes := congrArg List.length h.nodes
  have hmain := h.main
  rw [List.length_append, List.length_finRange] at hnodes
  unfold MainOk at hmain
  unfold ahead
  split at hmain
  · have hle := hmain.2.2.1
    omega
  all_goals omega

/-- Every step brings `main` closer to its return. -/
lemma Sound.ahead_lt (h : s.Sound cfg) (hq : s.clocked.Quiet) (ht : Step cfg s a s') :
    s'.clocked.Quiet ∧ s'.ahead < s.ahead := by
  cases ht with
  | run ht =>
    obtain ⟨hq', -, hlt, -⟩ := hq.step h.ok ht
    exact ⟨hq', Nat.add_lt_add_right hlt _⟩
  | quit hloc hstop =>
    refine ⟨⟨hq.timer, hq.cpu, hq.ld⟩, Nat.add_lt_add_right ?_ _⟩
    simp [TimerState.ahead, hloc]
  | join d hloc | stop hloc | joinTimer hloc | ret hloc =>
    refine ⟨hq, Nat.add_lt_add_left ?_ _⟩
    rw [hloc]
    dsimp only
    omega
  | free hloc hlist =>
    refine ⟨hq, Nat.add_lt_add_left ?_ _⟩
    rw [hloc, hlist]
    simp

/-- Until `main` has returned, some thread, the timer or `main` can take a step. -/
lemma Sound.exists_step (h : s.Sound cfg) (hreturned : s.main ≠ .returned) :
    ∃ a s', Step cfg s a s' := by
  have hmain := h.main
  unfold MainOk at hmain
  cases hloc : s.main with
  | join left =>
    rw [hloc] at hmain
    obtain ⟨hstop, -, hle, hjoined⟩ := hmain
    have hrun : ∀ {x clocked}, (clockedSystem cfg m).step s.clocked x clocked →
        ∃ a s', Step cfg s a s' := fun ht => ⟨_, _, .run ht fun _ _ => hstop⟩
    have hs := h.early hstop
    by_cases hleft : (∃ c, (s.clocked.os.cpu c).loc ≠ .detached) ∨ s.clocked.os.ld.loc ≠ .detached
    · obtain ⟨x, clocked, ht⟩ := Clocked.exists_step hs hleft
      exact hrun ht
    · -- all threads can be joined
      simp only [not_or, not_exists, not_not] at hleft
      have hq := (Clocked.coupled_of_reachable hs).quiet_timer hleft.1 hleft.2
      match left, hle with
      | 0, _ => exact ⟨_, _, .stop hloc⟩
      | k + 1, hle => exact ⟨_, _, .join ⟨k, hle⟩ hloc (hq _)⟩
  | joinTimer =>
    rw [hloc] at hmain
    have hq := h.late hmain.1
    by_cases hended : s.clocked.timer.timer = .ended
    · exact ⟨_, _, .joinTimer hloc hended⟩
    by_cases htop : s.clocked.timer.timer = .top
    · exact ⟨_, _, .quit htop hmain.1⟩
    -- the timer is inside a slot, which it finishes
    have hblocked : ∀ d : Fin (m + 1), s.clocked.timer.timer ≠ .waiting d false := by
      intro d hd
      have hfsh := (h.ok.dev d).detached.mp (hq.timer d)
      exact absurd ((h.ok.blocked d hd).2) (by simp [hfsh])
    obtain ⟨t', ht⟩ := TimerState.timer_can_step h.ok hended hblocked
    obtain ⟨x, clocked, hstep⟩ : ∃ x clocked, (clockedSystem cfg m).step s.clocked x clocked :=
      Clocked.exists_step_of_timer ht
    exact ⟨_, _, .run hstep fun h => absurd h htop⟩
  | free =>
    match hlist : s.devList with
    | [] => exact ⟨_, _, .ret hloc hlist⟩
    | d :: rest => exact ⟨_, _, .free hloc hlist⟩
  | returned => exact absurd hloc hreturned

/-- When `main` has returned, only the timer was left, and it has ended. -/
lemma Sound.of_returned (h : s.Sound cfg) (hreturned : s.main = .returned) :
    s.clocked.Quiet ∧ s.clocked.timer.timer = .ended ∧ s.devList = [] := by
  have hmain := h.main
  rw [MainOk, hreturned] at hmain
  exact ⟨h.late hmain.1, hmain.2⟩

/-- When all threads have detached, some run ends in the return of `main`. -/
lemma Sound.exists_returned (h : s.Sound cfg) (hq : s.clocked.Quiet) :
    ∃ as s', (simulation cfg m).Path s as s' ∧ s'.main = .returned := by
  induction hn : s.ahead using Nat.strong_induction_on generalizing s with
  | _ n ih =>
    by_cases hreturned : s.main = .returned
    · exact ⟨[], s, .nil s, hreturned⟩
    · obtain ⟨a, t, ht⟩ := h.exists_step hreturned
      obtain ⟨hq', hlt⟩ := h.ahead_lt hq ht
      obtain ⟨as, s', hp, hs'⟩ := ih t.ahead (hn ▸ hlt) (h.step ht) hq' rfl
      exact ⟨a :: as, s', .cons ht hp, hs'⟩

/-- A run of the threads and the timer while `main` waits for the first CPU. -/
lemma reachable_of_clocked {clocked : Clocked m} (h : (clockedSystem cfg m).Reachable clocked) :
    (simulation cfg m).Reachable
      ⟨clocked, false, .join (m + 1), List.finRange (m + 1), []⟩ := by
  induction h with
  | start h => exact .start ⟨h, rfl, rfl, rfl, rfl⟩
  | step _ ht ih => exact ih.step (.run ht fun _ _ => rfl)

/-- One process of one instruction on one CPU: all threads have detached, and `main` waits. -/
lemma exists_detached : ∃ s : Simulation 1, (simulation .single 1).Reachable s ∧
    s.main = .join 2 ∧ s.clocked.Quiet := by
  obtain ⟨clocked, hs, -, hdet⟩ := Clocked.exists_two_slots
  exact ⟨_, reachable_of_clocked hs, rfl, (Clocked.coupled_of_reachable hs).quiet hdet⟩

/-- Then `main` returns. -/
lemma exists_returned_one_cpu : ∃ s : Simulation 1, (simulation .single 1).Reachable s ∧
    s.main = .returned ∧ s.freed ≠ [] := by
  obtain ⟨s, hs, -, hq⟩ := exists_detached
  obtain ⟨as, s', hp, hreturned⟩ := (sound_of_reachable hs).exists_returned hq
  have hs' := hp.reachable hs
  have hnodes := (sound_of_reachable hs').nodes
  rw [((sound_of_reachable hs').of_returned hreturned).2.2, List.append_nil] at hnodes
  exact ⟨s', hs', hreturned, by simp [hnodes]⟩

/-- Until `main` has returned, some thread, the timer or `main` can take a step; and once all
threads have detached, however they are scheduled there are at most `6 * m + 15` steps left. -/
theorem returns_of_detached (hs : (simulation cfg m).Reachable s) :
    (s.main ≠ .returned → ∃ a s', Step cfg s a s') ∧
      ((∀ c, (s.clocked.os.cpu c).loc = .detached) → s.clocked.os.ld.loc = .detached →
        ∀ as s', (simulation cfg m).Path s as s' → as.length ≤ 6 * m + 15) := by
  have h := sound_of_reachable hs
  refine ⟨h.exists_step, fun hcpu hld as s' hp => ?_⟩
  have hq : s.clocked.Quiet := by
    rcases Bool.eq_false_or_eq_true s.timerStop with hstop | hstop
    · exact h.late hstop
    · have hcoupled := Clocked.coupled_of_reachable (h.early hstop)
      exact ⟨hcoupled.quiet_timer hcpu hld, hcpu, hld⟩
  have hlen := hp.length_le (I := fun s => s.Sound cfg ∧ s.clocked.Quiet) ahead
    (fun t a t' hI ht => ⟨⟨hI.1.step ht, (hI.1.ahead_lt hI.2 ht).1⟩, (hI.1.ahead_lt hI.2 ht).2⟩)
    ⟨h, hq⟩
  have hle := h.ahead_le
  omega

/-- All threads of one CPU have detached. -/
theorem returns_of_detached_one_cpu : ∃ s : Simulation 1, s.main ≠ .returned ∧
    (∃ a s', Step .single s a s') ∧
      ∀ as s', (simulation .single 1).Path s as s' → as.length ≤ 21 := by
  obtain ⟨s, hs, hmain, hq⟩ := exists_detached
  have hreturned : s.main ≠ .returned := by simp [hmain]
  obtain ⟨hstep, hrun⟩ := returns_of_detached hs
  exact ⟨s, hreturned, hstep hreturned, hrun hq.cpu hq.ld⟩

/-! ## Nothing else runs when nodes are freed -/

/-- A node that `stop_timer` frees is a node of `dev_list`, and each is freed once; and when one was
freed, only `main` takes steps, so no thread and no timer uses it any more. -/
theorem freed_alone (hs : (simulation cfg m).Reachable s) :
    s.freed ++ s.devList = List.finRange (m + 1) ∧
      (s.freed ≠ [] → ∀ a s', Step cfg s a s' → a = .main) := by
  have h := sound_of_reachable hs
  refine ⟨h.nodes, fun hfreed a s' ht => ?_⟩
  obtain ⟨hstop, hended⟩ : s.timerStop = true ∧ s.clocked.timer.timer = .ended := by
    have hmain := h.main
    unfold MainOk at hmain
    split at hmain
    · exact absurd hmain.2.1 hfreed
    · exact absurd hmain.2 hfreed
    · exact hmain
    · exact ⟨hmain.1, hmain.2.1⟩
  cases ht with
  | run ht => exact absurd ((h.late hstop).step h.ok ht).2.1 (TimerState.not_step_of_ended hended)
  | quit hloc => cases hended.symm.trans hloc
  | _ => rfl

/-- The two nodes of one CPU and the loader were freed. -/
theorem freed_alone_one_cpu : ∃ s : Simulation 1, s.freed ≠ [] ∧
    ∀ a s', Step .single s a s' → a = .main := by
  obtain ⟨s, hs, -, hfreed⟩ := exists_returned_one_cpu
  exact ⟨s, hfreed, (freed_alone hs).2 hfreed⟩

/-! ## What was done when `main` returns -/

/-- When all threads have detached, every process has executed its instructions. -/
lemma Sound.executed_of_quiet (h : s.Sound cfg) (hq : s.clocked.Quiet) (hm : 0 < m)
    (hfits : cfg.Fits) : s.clocked.os.ld.i = cfg.numProcesses ∧
      ∀ p < cfg.numProcesses, s.clocked.os.executed p = List.range (cfg.codeSize p) := by
  have hinv := OsState.barrierInv_of_reachable hm hfits (Clocked.barrier_reachable h.os)
  have hi : s.clocked.os.ld.i = cfg.numProcesses := hinv.loading.loaded (.inr (.inr hq.ld))
  refine ⟨hi, fun p hp => ?_⟩
  rw [hinv.owned.executed p, hinv.kept.done p]
  rw [hinv.finished_of_left hm fun c => .inr (hq.cpu c), hi]
  exact Multiset.mem_range.mpr hp

/-- Every process has executed its instructions when as many slots have passed behind the last
arrival as there is work, and when `main` has returned. -/
lemma executed_of_done (hm : 0 < m) (hfits : cfg.Fits) (hs : (simulation cfg m).Reachable s)
    (hdone : ready cfg.startTime cfg.numProcesses + cfg.totalWork ≤ s.clocked.timer.time ∨
      s.main = .returned) {p : ℕ} (hp : p < cfg.numProcesses) :
    s.clocked.os.executed p = List.range (cfg.codeSize p) := by
  have h := sound_of_reachable hs
  rcases Bool.eq_false_or_eq_true s.timerStop with hstop | hstop
  · exact (h.executed_of_quiet (h.late hstop) hm hfits).2 p hp
  · rcases hdone with htime | hreturned
    · rw [Clocked.executed_eq (h.early hstop),
        Clocked.pc_of_time_le hm hfits (h.early hstop) htime hp]
    · exact (h.executed_of_quiet (h.of_returned hreturned).1 hm hfits).2 p hp

/-- When `main` returns, all processes have been loaded and each one has executed all its
instructions, each once and in order; all threads and the timer have ended, and every node of
`dev_list` was freed once. -/
theorem executed_of_returned (hm : 0 < m) (hfits : cfg.Fits) (hs : (simulation cfg m).Reachable s)
    (hreturned : s.main = .returned) :
    s.clocked.os.ld.i = cfg.numProcesses ∧
      (∀ p < cfg.numProcesses, s.clocked.os.executed p = List.range (cfg.codeSize p)) ∧
      (∀ c, (s.clocked.os.cpu c).loc = .detached) ∧ s.clocked.os.ld.loc = .detached ∧
      s.clocked.timer.timer = .ended ∧ s.freed = List.finRange (m + 1) := by
  have h := sound_of_reachable hs
  obtain ⟨hq, hended, hlist⟩ := h.of_returned hreturned
  obtain ⟨hi, hexecuted⟩ := h.executed_of_quiet hq hm hfits
  have hnodes := h.nodes
  rw [hlist, List.append_nil] at hnodes
  exact ⟨hi, hexecuted, hq.cpu, hq.ld, hended, hnodes⟩

/-- One CPU has executed the instruction of the only process. -/
theorem executed_of_returned_one_cpu : ∃ s : Simulation 1, s.main = .returned ∧
    s.clocked.os.executed 0 = [0] := by
  have hfits : OsConfig.single.Fits := fun _ =>
    (Finset.card_filter_le _ _).trans (by decide)
  obtain ⟨s, hs, hreturned, -⟩ := exists_returned_one_cpu
  exact ⟨s, hreturned, (executed_of_returned Nat.one_pos hfits hs hreturned).2.1 0 (by decide)⟩

end Simulation

end Ossim
