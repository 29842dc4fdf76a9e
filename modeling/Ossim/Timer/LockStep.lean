import Ossim.Timer.Model

/-!
# Time slots as a barrier

The invariant that ties the timer's place in its two loops to the place of every device.  In the
first loop the devices behind the timer, in the second loop those ahead of it, are due: the timer
has seen their completion flag and has not released them, so they sit in `next_slot` with the
flag still set.  All others run in the current slot, or have reported it, or are released and
about to leave.

From the invariant follow that running devices are in the same slot, that no completion flag is
lost, that the timer ends only when all devices have detached, that no wake-up is lost, and that
the barrier cannot get stuck.
-/

namespace Ossim

/-! ## One device -/

/-- What holds of a device: `due` says that the timer has counted and not released it, `late` is
1 when `_time` was already increased for this slot. -/
structure TimerDev.Ok (due : Prop) (late time : ℕ) (v : TimerDev) : Prop where
  /-- A device is detached when its flag says so. -/
  detached : v.loc = .detached ↔ v.fsh = true
  /-- A due device waits for its release. -/
  counted : due → v.fsh = false →
    v.done = true ∧ v.seen = true ∧ v.loc.InSlot ∧ v.completed + late = time
  /-- A running device is in the current slot and has not reported it. -/
  running : v.loc = .running → v.done = false ∧ v.completed = time
  /-- A device in `next_slot` has reported the current slot, or was released from the last one. -/
  inSlot : ¬ due → v.loc.InSlot → v.completed + (if v.done then 0 else 1) = time
  /-- A device that waits without a signal has its flag still set. -/
  asleep : v.loc = .waiting false → v.done = true
  /-- A detached device has no completion flag set. -/
  gone : v.loc = .detached → v.done = false
  /-- Calls of `next_slot` are completed, or one is going on. -/
  calls : v.calls = v.completed + (if v.loc = .running ∨ v.loc = .detached then 0 else 1)

lemma DevLoc.inSlot_iff {loc : DevLoc} : loc.InSlot ↔ loc ≠ .running ∧ loc ≠ .detached := by
  cases loc <;> simp [DevLoc.InSlot]

lemma DevLoc.Testing.inSlot {loc : DevLoc} (h : loc.Testing) : loc.InSlot := by
  rcases h with rfl | rfl
  · exact .inl rfl
  · exact .inr ⟨true, rfl⟩

@[simp] lemma DevLoc.inSlot_signal {loc : DevLoc} : loc.signal.InSlot ↔ loc.InSlot := by
  cases loc <;> simp [DevLoc.InSlot, DevLoc.signal]

namespace TimerDev.Ok

variable {due : Prop} {late time : ℕ} {v : TimerDev}

lemma fsh_of_inSlot (h : v.Ok due late time) (hin : v.loc.InSlot) : v.fsh = false := by
  rw [Bool.eq_false_iff]
  exact fun hfsh => (DevLoc.inSlot_iff.mp hin).2 (h.detached.mpr hfsh)

/-- A running device is not due. -/
lemma not_due (h : v.Ok due late time) (hloc : v.loc = .running) : ¬ due := by
  intro hdue
  have hfsh : v.fsh = false := by
    rw [Bool.eq_false_iff]
    intro hfsh
    rw [h.detached.mpr hfsh] at hloc
    cases hloc
  exact (DevLoc.inSlot_iff.mp (h.counted hdue hfsh).2.2.1).1 hloc

/-- The start of a device. -/
lemma attach (h : ¬ due) : attachEvent.Ok due 0 0 := by
  constructor <;> simp [attachEvent, DevLoc.InSlot, h]

/-- The timer counts the device. -/
lemma count (h : v.Ok False 0 time) (hpass : v.done = true ∨ v.fsh = true) :
    TimerDev.Ok True 0 time { v with seen := v.seen || v.done } where
  detached := h.detached
  counted _ hfsh := by
    have hdone : v.done = true := hpass.resolve_right (by simpa using hfsh)
    have hloc : v.loc ≠ .running := fun hloc => by simp [(h.running hloc).1] at hdone
    have hin : v.loc.InSlot := DevLoc.inSlot_iff.mpr ⟨hloc, fun hd => by
      simp [h.detached.mp hd] at hfsh⟩
    have hcompleted := h.inSlot (by simp) hin
    rw [if_pos hdone] at hcompleted
    exact ⟨hdone, by simp [hdone], hin, hcompleted⟩
  running := h.running
  inSlot hdue := absurd trivial hdue
  asleep := h.asleep
  gone := h.gone
  calls := h.calls

/-- The slot ends. -/
lemma tick (h : v.Ok True 0 time) : v.Ok True 1 (time + 1) where
  detached := h.detached
  counted hdue hfsh := by
    obtain ⟨hdone, hseen, hin, hcompleted⟩ := h.counted hdue hfsh
    exact ⟨hdone, hseen, hin, by omega⟩
  running hloc := absurd trivial (h.not_due hloc)
  inSlot hdue := absurd trivial hdue
  asleep := h.asleep
  gone := h.gone
  calls := h.calls

/-- The timer releases the device. -/
lemma release (h : v.Ok True 1 time) :
    TimerDev.Ok False 1 time { v with done := false, loc := v.loc.signal } where
  detached := by
    rw [← h.detached]
    cases v.loc <;> simp [DevLoc.signal]
  counted hdue := hdue.elim
  running hloc := by
    have hrunning : v.loc = .running := by
      revert hloc
      cases v.loc <;> simp [DevLoc.signal]
    exact absurd trivial (h.not_due hrunning)
  inSlot _ hin := by
    have hin := DevLoc.inSlot_signal.mp hin
    exact (h.counted trivial (h.fsh_of_inSlot hin)).2.2.2
  asleep hloc := by
    revert hloc
    cases v.loc <;> simp [DevLoc.signal]
  gone _ := rfl
  calls := by
    rw [h.calls]
    cases v.loc <;> simp [DevLoc.signal]

/-- When no device is due, it does not matter whether the slot has ended. -/
lemma late_irrel {late' : ℕ} (h : v.Ok False late time) : v.Ok False late' time :=
  ⟨h.detached, fun hdue => hdue.elim, h.running, h.inSlot, h.asleep, h.gone, h.calls⟩

/-- The device reports its slot. -/
lemma nextSlot (h : v.Ok due late time) (hloc : v.loc = .running) :
    TimerDev.Ok due late time { v with
      done := true
      loc := .called
      seen := false
      calls := v.calls + 1 } where
  detached := by
    rw [← h.detached, hloc]
    simp
  counted hdue := absurd hdue (h.not_due hloc)
  running hrunning := by cases hrunning
  inSlot _ _ := (h.running hloc).2
  asleep _ := rfl
  gone hgone := by cases hgone
  calls := by simp [h.calls, hloc]

/-- The device waits. -/
lemma hold (h : v.Ok due late time) (hloc : v.loc.Testing) (hdone : v.done = true) :
    TimerDev.Ok due late time { v with loc := .waiting false } where
  detached := by
    have hfsh := h.fsh_of_inSlot hloc.inSlot
    simp [hfsh]
  counted hdue hfsh := by
    obtain ⟨-, hseen, -, hcompleted⟩ := h.counted hdue hfsh
    exact ⟨hdone, hseen, .inr ⟨false, rfl⟩, hcompleted⟩
  running hrunning := by cases hrunning
  inSlot hdue _ := h.inSlot hdue hloc.inSlot
  asleep _ := hdone
  gone hgone := by cases hgone
  calls := by
    have hin := DevLoc.inSlot_iff.mp hloc.inSlot
    simp [h.calls, hin.1, hin.2]

/-- The device leaves `next_slot`. -/
lemma leave (h : v.Ok due late time) (hloc : v.loc.Testing) (hdone : v.done = false) :
    TimerDev.Ok due late time { v with loc := .running, completed := v.completed + 1 } := by
  have hfsh := h.fsh_of_inSlot hloc.inSlot
  have hdue : ¬ due := by
    intro hdue
    simp [(h.counted hdue hfsh).1] at hdone
  have hcompleted := h.inSlot hdue hloc.inSlot
  have hin := DevLoc.inSlot_iff.mp hloc.inSlot
  rw [hdone] at hcompleted
  exact ⟨by simp [hfsh], fun hd => absurd hd hdue, fun _ => ⟨hdone, hcompleted⟩,
    fun _ hrunning => (by simp [DevLoc.InSlot] at hrunning), fun hw => (by cases hw),
    fun hgone => (by cases hgone), by simp [h.calls, hin.1, hin.2]⟩

/-- The device detaches. -/
lemma detach (h : v.Ok due late time) (hloc : v.loc = .running) :
    TimerDev.Ok due late time { v with fsh := true, loc := .detached } where
  detached := by simp
  counted hdue := absurd hdue (h.not_due hloc)
  running hrunning := by cases hrunning
  inSlot _ hin := by simp [DevLoc.InSlot] at hin
  asleep hw := by cases hw
  gone _ := (h.running hloc).1
  calls := by simp [h.calls, hloc]

/-- A device that the step does not touch. -/
lemma congr {due' : Prop} (h : v.Ok due late time) (hdue : due ↔ due') : v.Ok due' late time :=
  propext hdue ▸ h

end TimerDev.Ok

/-! ## The timer and all devices -/

/-- The timer has counted the device in this slot and has not released it. -/
def TimerLoc.Due (loc : TimerLoc) (dev : ℕ) : Prop :=
  match loc with
  | .check k => dev < k
  | .waiting k _ => dev < k
  | .release k => k ≤ dev
  | _ => False

/-- 1 when `_time` was already increased for the slot whose devices are due. -/
def TimerLoc.late : TimerLoc → ℕ
  | .release _ => 1
  | _ => 0

@[simp] lemma TimerLoc.due_signal (loc : TimerLoc) (dev d : ℕ) :
    (loc.signal d).Due dev ↔ loc.Due dev := by
  cases loc <;> simp [TimerLoc.signal, TimerLoc.Due]

@[simp] lemma TimerLoc.late_signal (loc : TimerLoc) (d : ℕ) : (loc.signal d).late = loc.late := by
  cases loc <;> rfl

namespace TimerState

variable {n : ℕ}

/-- The timer has counted the first `k` devices: `fsh` equals `k` only if all are detached. -/
structure Counted (fsh event : ℕ) (dev : Fin n → TimerDev) (k : ℕ) : Prop where
  /-- There are that many devices. -/
  le : k ≤ n
  /-- `event` counts devices. -/
  event : event = k
  /-- `fsh` counts some of them. -/
  fsh_le : fsh ≤ k
  /-- When it counts all of them, all are detached. -/
  all : fsh = k → ∀ d : Fin n, d.val < k → (dev d).fsh = true

/-- What the timer's place says about its counts. -/
def CountOk (loc : TimerLoc) (fsh event : ℕ) (dev : Fin n → TimerDev) : Prop :=
  match loc with
  | .top => True
  | .check k => Counted fsh event dev k
  | .waiting k _ => k < n ∧ Counted fsh event dev k
  | .release k => k ≤ n ∧ (fsh = event → ∀ d, (dev d).fsh = true)
  | .ended => ∀ d, (dev d).fsh = true

/-- More devices may detach, and a signal may reach the timer. -/
lemma CountOk.mono {loc : TimerLoc} {fsh event : ℕ} {dev dev' : Fin n → TimerDev}
    (h : CountOk loc fsh event dev) (hfsh : ∀ d, (dev d).fsh = true → (dev' d).fsh = true) :
    CountOk loc fsh event dev' := by
  cases loc with
  | top => trivial
  | check k => exact ⟨h.le, h.event, h.fsh_le, fun he d hd => hfsh d (h.all he d hd)⟩
  | waiting k signaled =>
    exact ⟨h.1, h.2.le, h.2.event, h.2.fsh_le, fun he d hd => hfsh d (h.2.all he d hd)⟩
  | release k => exact ⟨h.1, fun he d => hfsh d (h.2 he d)⟩
  | ended => exact fun d => hfsh d (h d)

lemma CountOk.signal {loc : TimerLoc} {fsh event : ℕ} {dev : Fin n → TimerDev}
    (h : CountOk loc fsh event dev) (k : ℕ) : CountOk (loc.signal k) fsh event dev := by
  cases loc <;> exact h

/-- The barrier invariant. -/
structure Ok (s : TimerState n) : Prop where
  /-- Each device is where the timer's place says. -/
  dev : ∀ d, (s.dev d).Ok (s.timer.Due d) s.timer.late s.time
  /-- The counts are right. -/
  count : CountOk s.timer s.fsh s.event s.dev
  /-- A timer that waits without a signal waits for a device that neither is done nor is
  detached. -/
  blocked : ∀ d : Fin n, s.timer = .waiting d false →
    (s.dev d).done = false ∧ (s.dev d).fsh = false

lemma ok_init (n : ℕ) : (init n).Ok where
  dev _ := .attach id
  count := trivial
  blocked _ h := by cases h

/-- A device that a step stores into is as its own lemma says, all others are as before. -/
lemma setDev_ok {s : TimerState n} {d : Fin n} {v : TimerDev} {late time : ℕ} (due : Fin n → Prop)
    (hself : v.Ok (due d) late time) (hother : ∀ e, e ≠ d → (s.dev e).Ok (due e) late time)
    (e : Fin n) : ((s.setDev d v).dev e).Ok (due e) late time := by
  by_cases he : e = d
  · subst he
    simpa [setDev] using hself
  · simpa [setDev, he] using hother e he

@[simp] lemma dev_setDev (s : TimerState n) (d e : Fin n) (v : TimerDev) :
    (s.setDev d v).dev e = if e = d then v else s.dev e := by
  by_cases he : e = d
  · subst he
    simp [setDev]
  · simp [setDev, he]

/-- A timer that waits without a signal after a device signaled waits for another device. -/
lemma blocked_signal {loc : TimerLoc} {d e : Fin n} (h : loc.signal d = .waiting e false) :
    loc = .waiting e false ∧ e ≠ d := by
  cases loc <;> simp only [TimerLoc.signal, TimerLoc.waiting.injEq, reduceCtorEq] at h
  obtain ⟨rfl, h⟩ := h
  simp only [Bool.or_eq_false_iff, beq_eq_false_iff_ne] at h
  exact ⟨by rw [h.1], fun he => h.2 (by rw [he])⟩

/-- A step of a device that keeps the flags of the others keeps the invariant, if it signals the
timer or keeps its own flags. -/
lemma Ok.of_signal {s : TimerState n} (h : s.Ok) {d : Fin n} {v : TimerDev}
    (hv : v.Ok (s.timer.Due d) s.timer.late s.time)
    (hfsh : (s.dev d).fsh = true → v.fsh = true) :
    Ok { s.setDev d v with timer := s.timer.signal d } where
  dev e := by
    have he := setDev_ok (s := s) (fun e => s.timer.Due e) hv (fun e _ => h.dev e) e
    simp only [TimerLoc.late_signal]
    exact he.congr (TimerLoc.due_signal s.timer e d).symm
  count := by
    refine (h.count.mono fun e he => ?_).signal d
    show ((s.setDev d v).dev e).fsh = true
    rw [dev_setDev]
    split
    · next heq =>
      subst heq
      exact hfsh he
    · exact he
  blocked e hw := by
    obtain ⟨hw, hne⟩ := blocked_signal hw
    show ((s.setDev d v).dev e).done = false ∧ ((s.setDev d v).dev e).fsh = false
    rw [dev_setDev, if_neg hne]
    exact h.blocked e hw

/-- A step of a device that changes no flag keeps the invariant. -/
lemma Ok.of_quiet {s : TimerState n} (h : s.Ok) {d : Fin n} {v : TimerDev}
    (hv : v.Ok (s.timer.Due d) s.timer.late s.time)
    (hdone : v.done = (s.dev d).done) (hfsh : v.fsh = (s.dev d).fsh) : Ok (s.setDev d v) where
  dev e := setDev_ok (s := s) (fun e => s.timer.Due e) hv (fun e _ => h.dev e) e
  count := by
    refine h.count.mono fun e he => ?_
    rw [dev_setDev]
    split
    · next heq =>
      subst heq
      rwa [hfsh]
    · exact he
  blocked e hw := by
    rw [dev_setDev]
    split
    · next heq =>
      subst heq
      rw [hdone, hfsh]
      exact h.blocked e hw
    · exact h.blocked e hw

/-- Every step keeps the invariant. -/
lemma Ok.step {s s' : TimerState n} {a : TimerAct n} (h : s.Ok) (ht : Step s a s') : s'.Ok := by
  have hcount := h.count
  have hdev := h.dev
  cases ht with
  | slot hloc =>
    rw [hloc] at hdev
    exact ⟨fun d => (hdev d).congr (by simp [TimerLoc.Due]),
      ⟨Nat.zero_le n, rfl, le_rfl, fun _ d hd => absurd hd (by simp)⟩, fun d hw => by cases hw⟩
  | block d hloc hdone hfsh =>
    rw [hloc] at hcount hdev
    refine ⟨hdev, ⟨d.isLt, hcount⟩, fun e hw => ?_⟩
    obtain rfl : d = e := Fin.ext (by simpa using hw)
    exact ⟨hdone, hfsh⟩
  | wake d hloc =>
    rw [hloc] at hcount hdev
    exact ⟨hdev, hcount.2, fun e hw => by cases hw⟩
  | count d hloc hpass =>
    rw [hloc] at hcount hdev
    refine ⟨fun e => setDev_ok (fun e => e.val < d.val + 1) ?_ (fun e he => ?_) e, ?_,
      fun e hw => by cases hw⟩
    · have hd := ((hdev d).congr (show _ ↔ False by simp [TimerLoc.Due])).count hpass
      exact hd.congr (by simp)
    · have hne : e.val ≠ d.val := fun heq => he (Fin.ext heq)
      exact (hdev e).congr (by simp only [TimerLoc.Due]; omega)
    · have hfsh : ∀ e, ((s.setDev d { s.dev d with
          seen := (s.dev d).seen || (s.dev d).done }).dev e).fsh = (s.dev e).fsh := by
        intro e
        rw [dev_setDev]
        split
        · next heq => rw [heq]
        · rfl
      have hle := Bool.toNat_le (s.dev d).fsh
      have hcounted := hcount.fsh_le
      refine ⟨d.isLt, congrArg (· + 1) hcount.event, Nat.add_le_add hcounted hle, ?_⟩
      intro heq e he
      have heq : s.fsh + (s.dev d).fsh.toNat = d.val + 1 := heq
      rw [hfsh]
      rcases Nat.lt_succ_iff_lt_or_eq.mp he with hlt | heq'
      · exact hcount.all (by omega) e hlt
      · rw [Fin.ext heq', ← Bool.toNat_eq_one]
        omega
  | tick hloc =>
    rw [hloc] at hcount hdev
    refine ⟨fun d => ?_, ⟨Nat.zero_le n, fun heq d => ?_⟩, fun e hw => by cases hw⟩
    · have hd := ((hdev d).congr (show _ ↔ True by simp [TimerLoc.Due])).tick
      exact hd.congr (by simp [TimerLoc.Due])
    · exact hcount.all (heq.trans hcount.event) d d.isLt
  | release d hloc =>
    rw [hloc] at hcount hdev
    refine ⟨fun e => setDev_ok (fun e => d.val + 1 ≤ e.val) ?_ (fun e he => ?_) e,
      ⟨d.isLt, fun heq e => ?_⟩, fun e hw => by cases hw⟩
    · have hd := ((hdev d).congr (show _ ↔ True by simp [TimerLoc.Due])).release
      exact hd.congr (by simp)
    · have hne : e.val ≠ d.val := fun heq => he (Fin.ext heq)
      exact (hdev e).congr (by simp only [TimerLoc.Due]; omega)
    · have he := hcount.2 heq e
      show ((s.setDev d _).dev e).fsh = true
      rw [dev_setDev]
      split
      · next heq =>
        subst heq
        exact he
      · exact he
  | finish hloc =>
    rw [hloc] at hcount hdev
    have hfree : ∀ d, (s.dev d).Ok False 0 s.time := fun d =>
      ((hdev d).congr (by simp [TimerLoc.Due])).late_irrel
    by_cases hall : s.fsh = s.event
    · simp only [if_pos hall]
      exact ⟨hfree, hcount.2 hall, fun e hw => by cases hw⟩
    · simp only [if_neg hall]
      exact ⟨hfree, trivial, fun e hw => by cases hw⟩
  | nextSlot d hloc => exact h.of_signal ((hdev d).nextSlot hloc) id
  | hold d hloc hdone => exact h.of_quiet ((hdev d).hold hloc hdone) rfl rfl
  | leave d hloc hdone => exact h.of_quiet ((hdev d).leave hloc hdone) rfl rfl
  | detach d hloc => exact h.of_signal ((hdev d).detach hloc) fun _ => rfl

lemma ok_of_reachable {s : TimerState n} (hs : (timerSystem n).Reachable s) : s.Ok :=
  hs.invariant (fun _ hs => hs ▸ ok_init n) fun _ _ _ _ h ht => h.step ht

/-! ## Lock step -/

/-- Time slots are a lock-step barrier. -/
structure LockStep (s : TimerState n) : Prop where
  /-- A running device has completed as many calls of `next_slot` as there were slots. -/
  slot : ∀ d, (s.dev d).loc = .running → (s.dev d).completed = s.time
  /-- Two running devices are in the same slot. -/
  same : ∀ d e, (s.dev d).loc = .running → (s.dev e).loc = .running →
    (s.dev d).completed = (s.dev e).completed
  /-- The time stays while a device runs. -/
  constant : ∀ a s', Step s a s' → ∀ d, (s.dev d).loc = .running → s'.time = s.time
  /-- A completion flag is cleared only after the timer has seen it. -/
  seen : ∀ a s', Step s a s' → ∀ d, (s.dev d).done = true → (s'.dev d).done = false →
    (s.dev d).seen = true
  /-- A completion flag is not set a second time before it was cleared. -/
  clear : ∀ d s', Step s (.nextSlot d) s' → (s.dev d).done = false
  /-- The timer ends only when all devices have detached. -/
  ended : s.timer = .ended → ∀ d, (s.dev d).loc = .detached

/-- Every step but the end of a slot keeps the time. -/
lemma time_of_step {s s' : TimerState n} {a : TimerAct n} (ht : Step s a s') :
    s'.time = s.time ∨ s.timer = .check n := by
  cases ht with
  | tick hloc => exact .inr hloc
  | _ => exact .inl rfl

/-- Storing a device with the same flag clears no flag. -/
lemma not_clear_setDev {s : TimerState n} {d e : Fin n} {v : TimerDev}
    (hv : (s.dev e).done = true → v.done = true) (hdone : (s.dev d).done = true) :
    ((s.setDev e v).dev d).done ≠ false := by
  rw [dev_setDev]
  split
  · next heq =>
    subst heq
    simp [hv hdone]
  · simp [hdone]

/-- Only the release of a device clears its flag. -/
lemma done_of_step {s s' : TimerState n} {a : TimerAct n} (ht : Step s a s') {d : Fin n}
    (hdone : (s.dev d).done = true) (hclear : (s'.dev d).done = false) : s.timer = .release d := by
  cases ht with
  | slot hloc | block e hloc | wake e hloc | tick hloc | finish hloc =>
    exact absurd (hdone.symm.trans hclear) (by simp)
  | count e hloc | hold e hloc | leave e hloc | detach e hloc =>
    exact absurd hclear (not_clear_setDev id hdone)
  | nextSlot e hloc => exact absurd hclear (not_clear_setDev (fun _ => rfl) hdone)
  | release e hloc =>
    by_cases he : d = e
    · rw [he, hloc]
    · have hsame : ((s.setDev e _).dev d).done = false := hclear
      rw [dev_setDev, if_neg he, hdone] at hsame
      cases hsame

/-- Time slots are a lock-step barrier. -/
theorem slots_lock_step {s : TimerState n} (hs : (timerSystem n).Reachable s) : LockStep s := by
  have h := ok_of_reachable hs
  have hslot : ∀ d, (s.dev d).loc = .running → (s.dev d).completed = s.time :=
    fun d hd => ((h.dev d).running hd).2
  refine ⟨hslot, fun d e hd he => ?_, fun a s' ht d hd => ?_, fun a s' ht d hdone hclear => ?_,
    fun d s' ht => ?_, fun hended d => ?_⟩
  · rw [hslot d hd, hslot e he]
  · refine (time_of_step ht).resolve_right fun hloc => (h.dev d).not_due hd ?_
    simp [hloc, TimerLoc.Due]
  · have hloc := done_of_step ht hdone hclear
    have hdue : s.timer.Due d := by simp [hloc, TimerLoc.Due]
    have hfsh : (s.dev d).fsh = false := by
      rw [Bool.eq_false_iff]
      intro hfsh
      have hgone := (h.dev d).gone ((h.dev d).detached.mpr hfsh)
      exact absurd (hdone.symm.trans hgone) (by simp)
    exact ((h.dev d).counted hdue hfsh).2.1
  · cases ht with
    | nextSlot _ hloc => exact ((h.dev d).running hloc).1
  · have hall := h.count
    rw [hended] at hall
    exact (h.dev d).detached.mpr (hall d)

/-- A device that went through one slot. -/
lemma exists_second_slot : ∃ s : TimerState 1, (timerSystem 1).Reachable s ∧ s.time = 1 ∧
    (s.dev 0).loc = .running := by
  have h₀ : (timerSystem 1).Reachable (init 1) := .start rfl
  -- the timer waits for the device
  have h₁ := h₀.step (.slot rfl)
  have h₂ := h₁.step (.block 0 rfl rfl rfl)
  have h₃ := h₂.step (.nextSlot 0 rfl)
  have h₄ := h₃.step (.hold 0 (.inl rfl) rfl)
  have h₅ := h₄.step (.wake 0 rfl)
  have h₆ := h₅.step (.count 0 rfl (.inl rfl))
  have h₇ := h₆.step (.tick rfl)
  -- the device waits for the timer
  have h₈ := h₇.step (.release 0 rfl)
  have h₉ := h₈.step (.leave 0 (.inr rfl) rfl)
  exact ⟨_, h₉, rfl, rfl⟩

/-- There the device has completed as many calls as slots have passed. -/
theorem slots_lock_step_second_slot : ∃ s : TimerState 1, s.time = 1 ∧
    (s.dev 0).loc = .running ∧ LockStep s := by
  obtain ⟨s, hs, htime, hloc⟩ := exists_second_slot
  exact ⟨s, htime, hloc, slots_lock_step hs⟩

/-- The barrier that the devices rely on: a device leaves `next_slot` only when every device that
is not detached has made as many calls of `next_slot`. -/
theorem calls_le_of_leave {s s' : TimerState n} (hs : (timerSystem n).Reachable s) {d : Fin n}
    (ht : Step s (.test d) s') (hleave : (s'.dev d).loc = .running) {e : Fin n}
    (he : (s.dev e).loc ≠ .detached) : (s.dev d).calls ≤ (s.dev e).calls := by
  have h := ok_of_reachable hs
  cases ht with
  | hold _ hloc hdone =>
    rw [dev_setDev, if_pos rfl] at hleave
    cases hleave
  | leave _ hloc hdone =>
    have hin := hloc.inSlot
    have hdue : ¬ s.timer.Due d := by
      intro hdue
      have hcounted := (h.dev d).counted hdue ((h.dev d).fsh_of_inSlot hin)
      exact absurd (hdone.symm.trans hcounted.1) (by simp)
    have hcompleted := (h.dev d).inSlot hdue hin
    have hcalls := (h.dev d).calls
    have hecalls := (h.dev e).calls
    rw [hdone] at hcompleted
    rw [if_neg (by have := DevLoc.inSlot_iff.mp hin; tauto)] at hcalls
    by_cases hrunning : (s.dev e).loc = .running
    · have := ((h.dev e).running hrunning).2
      simp only [hrunning, true_or, if_true] at hecalls
      simp only [Bool.false_eq_true, if_false] at hcompleted
      omega
    · have hein := DevLoc.inSlot_iff.mpr ⟨hrunning, he⟩
      simp only [hrunning, he, or_self, if_false] at hecalls
      simp only [Bool.false_eq_true, if_false] at hcompleted
      by_cases hedue : s.timer.Due e
      · have := ((h.dev e).counted hedue ((h.dev e).fsh_of_inSlot hein)).2.2.2
        have hlate : s.timer.late ≤ 1 := by cases s.timer <;> simp [TimerLoc.late]
        omega
      · have := (h.dev e).inSlot hedue hein
        split at this <;> omega

/-! ## Progress -/

/-- No wake-up is lost: a thread that waits without a signal waits for something that has not
happened yet. -/
structure NoLostWakeUp (s : TimerState n) : Prop where
  /-- The timer waits for a device that is neither done nor detached. -/
  timer : ∀ d : Fin n, s.timer = .waiting d false →
    (s.dev d).done = false ∧ (s.dev d).fsh = false
  /-- A device waits for its flag to be cleared. -/
  dev : ∀ d, (s.dev d).loc = .waiting false → (s.dev d).done = true

/-- The timer can take a step unless it has ended or waits without a signal. -/
lemma timer_can_step {s : TimerState n} (h : s.Ok) (hended : s.timer ≠ .ended)
    (hblocked : ∀ d : Fin n, s.timer ≠ .waiting d false) : ∃ s', Step s .timer s' := by
  have hcount := h.count
  cases hloc : s.timer with
  | top => exact ⟨_, .slot hloc⟩
  | check k =>
    rw [hloc] at hcount
    rcases eq_or_lt_of_le hcount.le with rfl | hlt
    · exact ⟨_, .tick hloc⟩
    · by_cases hpass : (s.dev ⟨k, hlt⟩).done = true ∨ (s.dev ⟨k, hlt⟩).fsh = true
      · exact ⟨_, .count ⟨k, hlt⟩ hloc hpass⟩
      · rw [not_or, Bool.not_eq_true, Bool.not_eq_true] at hpass
        exact ⟨_, .block ⟨k, hlt⟩ hloc hpass.1 hpass.2⟩
  | waiting k signaled =>
    rw [hloc] at hcount
    cases signaled with
    | true => exact ⟨_, .wake ⟨k, hcount.1⟩ hloc⟩
    | false => exact absurd hloc (hblocked ⟨k, hcount.1⟩)
  | release k =>
    rw [hloc] at hcount
    rcases eq_or_lt_of_le hcount.1 with rfl | hlt
    · exact ⟨_, .finish hloc⟩
    · exact ⟨_, .release ⟨k, hlt⟩ hloc⟩
  | ended => exact absurd hloc hended

/-- A device that is about to test its flag can take a step. -/
lemma device_can_step {s : TimerState n} {d : Fin n} (h : (s.dev d).loc.Testing) :
    ∃ s', Step s (.test d) s' := by
  cases hdone : (s.dev d).done with
  | true => exact ⟨_, .hold d h hdone⟩
  | false => exact ⟨_, .leave d h hdone⟩

/-- The slot barrier cannot get stuck: no wake-up is lost, and while not every device has
detached and none is running, the timer or a device in `next_slot` can take a step. -/
theorem barrier_not_stuck {s : TimerState n} (hs : (timerSystem n).Reachable s) :
    NoLostWakeUp s ∧
    ((∃ d, (s.dev d).loc ≠ .detached) → (∀ d, (s.dev d).loc ≠ .running) →
      ∃ a s', Step s a s' ∧ (a = .timer ∨ ∃ d, a = .test d)) := by
  have h := ok_of_reachable hs
  refine ⟨⟨h.blocked, fun d => (h.dev d).asleep⟩, fun ⟨d, hd⟩ hidle => ?_⟩
  by_cases hblocked : ∃ e : Fin n, s.timer = .waiting e false
  · -- the device the timer waits for is in `next_slot` with its flag cleared
    obtain ⟨e, he⟩ := hblocked
    obtain ⟨hdone, hfsh⟩ := h.blocked e he
    have hgone : (s.dev e).loc ≠ .detached := by
      intro hgone
      exact absurd ((h.dev e).detached.mp hgone) (by simp [hfsh])
    have htesting : (s.dev e).loc.Testing := by
      rcases DevLoc.inSlot_iff.mpr ⟨hidle e, hgone⟩ with hcalled | ⟨signaled, hwait⟩
      · exact .inl hcalled
      · cases signaled with
        | true => exact .inr hwait
        | false => exact absurd ((h.dev e).asleep hwait) (by simp [hdone])
    obtain ⟨s', hs'⟩ := device_can_step htesting
    exact ⟨_, s', hs', .inr ⟨e, rfl⟩⟩
  · have hended : s.timer ≠ .ended := by
      intro hended
      have hall := h.count
      rw [hended] at hall
      exact hd ((h.dev d).detached.mpr (hall d))
    obtain ⟨s', hs'⟩ := timer_can_step h hended fun e he => hblocked ⟨e, he⟩
    exact ⟨_, s', hs', .inl rfl⟩

/-- The timer has counted the first of two devices, and both wait for it. -/
lemma exists_all_waiting : ∃ s : TimerState 2, (timerSystem 2).Reachable s ∧
    ∀ d, (s.dev d).loc = .waiting false := by
  have h₀ : (timerSystem 2).Reachable (init 2) := .start rfl
  have h₁ := h₀.step (.nextSlot 0 rfl)
  have h₂ := h₁.step (.hold 0 (.inl rfl) rfl)
  have h₃ := h₂.step (.slot rfl)
  have h₄ := h₃.step (.count 0 rfl (.inl rfl))
  have h₅ := h₄.step (.block 1 rfl rfl rfl)
  have h₆ := h₅.step (.nextSlot 1 rfl)
  have h₇ := h₆.step (.hold 1 (.inl rfl) rfl)
  exact ⟨_, h₇, by decide⟩

/-- There the barrier is not stuck. -/
theorem barrier_not_stuck_all_waiting : ∃ s : TimerState 2,
    (∀ d, (s.dev d).loc = .waiting false) ∧ NoLostWakeUp s ∧
    ∃ a s', Step s a s' ∧ (a = .timer ∨ ∃ d, a = .test d) := by
  obtain ⟨s, hs, hwait⟩ := exists_all_waiting
  obtain ⟨hwake, hstep⟩ := barrier_not_stuck hs
  exact ⟨s, hwait, hwake, hstep ⟨0, by simp [hwait]⟩ fun d => by simp [hwait]⟩

end TimerState

end Ossim
