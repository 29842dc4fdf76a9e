import Ossim.Lib.Transition
import Ossim.Sched.Mlq

/-!
# Runs of the scheduler

Sequences of `add_proc`, `put_proc` and `get_proc` calls after `init_scheduler`.  Each call holds
`queue_lock` throughout, so the calls of several threads are such a sequence.

The first part counts processes: what was handed over was returned, is queued, or was dropped by
`enqueue` because its level was full.  The second part counts slots: how many processes of one
level come in a row while another level waits.
-/

namespace Ossim

/-- A call of the scheduler. -/
inductive SchedCall (α : Type*)
  | addProc (proc : α)
  | putProc (proc : α)
  | getProc

variable {α : Type*}

namespace Sched

/-- All processes in the ready queues. -/
def queued (s : Sched α) : Multiset α := ∑ prio, (s.level prio : Multiset α)

/-- A scheduler that differs at one level, where it has `m` more processes. -/
lemma queued_of_level {s s' : Sched α} (prio : Prio) {m : Multiset α}
    (hother : ∀ q, q ≠ prio → s'.level q = s.level q)
    (hlevel : (s'.level prio : Multiset α) = m + s.level prio) :
    s'.queued = m + s.queued := by
  unfold queued
  rw [← Finset.add_sum_erase _ _ (Finset.mem_univ prio), hlevel,
    ← Finset.add_sum_erase _ (fun q => (s.level q : Multiset α)) (Finset.mem_univ prio), add_assoc]
  congr 2
  refine Finset.sum_congr rfl fun q hq => ?_
  rw [hother q (Finset.ne_of_mem_erase hq)]

/-- A process handed over is queued, unless its level is full. -/
lemma queued_putMlqProc (prio : α → Prio) (s : Sched α) (proc : α) :
    (s.putMlqProc prio proc).queued =
      if (s.level (prio proc)).length < maxQueueSize then proc ::ₘ s.queued else s.queued := by
  split
  · next hlt =>
    rw [← Multiset.singleton_add]
    refine queued_of_level (prio proc) (fun q hq => ?_) ?_
    · simp [level_putMlqProc, hq]
    · rw [level_putMlqProc, if_pos ⟨rfl, hlt⟩, ← Multiset.coe_add, add_comm]
      rfl
  · next hfull =>
    have hsame : ∀ q, (s.putMlqProc prio proc).level q = s.level q := by
      intro q
      rw [level_putMlqProc, if_neg]
      rintro ⟨rfl, hlt⟩
      exact hfull hlt
    simp [queued, hsame]

/-- A process handed out leaves the queues. -/
lemma queued_afterServe {s : Sched α} {prio : Prio} {x : α} {xs : List α}
    (h : s.level prio = x :: xs) (slots : ℕ) :
    s.queued = x ::ₘ (s.afterServe prio slots).queued := by
  rw [← Multiset.singleton_add]
  refine queued_of_level prio (fun q hq => ?_) ?_
  · rw [level_afterServe h, if_neg hq]
  · rw [level_afterServe h, if_pos rfl, h]
    rfl

/-- The processes of one level are among those of all levels. -/
lemma exists_queued_eq_level_add (s : Sched α) (prio : Prio) :
    ∃ rest, s.queued = (s.level prio : Multiset α) + rest :=
  ⟨_, (Finset.add_sum_erase _ (fun q => (s.level q : Multiset α)) (Finset.mem_univ prio)).symm⟩

lemma queued_eq_zero {s : Sched α} (h : ∀ prio, s.level prio = []) : s.queued = 0 := by
  simp [queued, h]

/-- `get_mlq_proc` takes one process out of the queues, or finds them empty. -/
lemma queued_getMlqProc (s : Sched α) :
    (∃ x, s.getMlqProc.1 = some x ∧ s.queued = x ::ₘ s.getMlqProc.2.queued) ∨
    (s.getMlqProc.1 = none ∧ s.queued = 0 ∧ s.getMlqProc.2.queued = 0) := by
  rcases s.getMlqProc_cases with ⟨x, xs, -, hlevel, hget⟩ | ⟨p, x, xs, -, hlevel, -, hget⟩ |
    ⟨hempty, hget⟩
  · exact .inl ⟨x, by rw [hget], by rw [hget]; exact queued_afterServe hlevel _⟩
  · exact .inl ⟨x, by rw [hget], by rw [hget]; exact queued_afterServe hlevel _⟩
  · exact .inr ⟨by rw [hget], queued_eq_zero hempty, by rw [hget]; exact queued_eq_zero hempty⟩

/-- `get_mlq_proc` adds nothing to a level. -/
lemma mem_level_of_getMlqProc {s : Sched α} {prio : Prio} {x : α}
    (h : x ∈ s.getMlqProc.2.level prio) : x ∈ s.level prio := by
  have hserve : ∀ p y ys slots, s.level p = y :: ys →
      x ∈ (s.afterServe p slots).level prio → x ∈ s.level prio := by
    intro p y ys slots hlevel hx
    rw [level_afterServe hlevel] at hx
    split at hx
    · next hp => simp [hp, hlevel, hx]
    · exact hx
  rcases s.getMlqProc_cases with ⟨y, ys, -, hlevel, hget⟩ | ⟨p, y, ys, -, hlevel, -, hget⟩ |
    ⟨-, hget⟩
  · rw [hget] at h
    exact hserve _ y ys _ hlevel h
  · rw [hget] at h
    exact hserve p y ys _ hlevel h
  · rw [hget] at h
    exact h

end Sched

/-! ## Conservation -/

/-- A scheduler with an account of the processes that passed through it. -/
structure SchedLedger (α : Type*) where
  /-- The scheduler. -/
  sched : Sched α
  /-- What was passed to `add_proc` and `put_proc`. -/
  handed : Multiset α
  /-- What `get_proc` returned. -/
  returned : Multiset α
  /-- What was handed over when its level held `MAX_QUEUE_SIZE` processes. -/
  dropped : Multiset α

namespace SchedLedger

/-- Hand a process over. -/
def hand (prio : α → Prio) (w : SchedLedger α) (proc : α) : SchedLedger α where
  sched := w.sched.putMlqProc prio proc
  handed := proc ::ₘ w.handed
  returned := w.returned
  dropped :=
    if (w.sched.level (prio proc)).length < maxQueueSize then w.dropped else proc ::ₘ w.dropped

/-- The account after a call. -/
def call (prio : α → Prio) (w : SchedLedger α) : SchedCall α → SchedLedger α
  | .addProc proc => w.hand prio proc
  | .putProc proc => w.hand prio proc
  | .getProc =>
    { w with
      sched := w.sched.getMlqProc.2
      returned := w.sched.getMlqProc.1.elim w.returned fun proc => proc ::ₘ w.returned }

/-- The calls of the scheduler in any order, after `init_scheduler`. -/
def system (prio : α → Prio) : LTS (SchedLedger α) (SchedCall α) where
  start w := w.sched.Initial ∧ w.handed = 0 ∧ w.returned = 0 ∧ w.dropped = 0
  step w k w' := w' = w.call prio k

/-- Every process handed over was returned, is queued, or was dropped. -/
def Balanced (w : SchedLedger α) : Prop := w.handed = w.returned + w.sched.queued + w.dropped

lemma balanced_hand {w : SchedLedger α} (h : w.Balanced) (prio : α → Prio) (proc : α) :
    (w.hand prio proc).Balanced := by
  unfold Balanced hand at *
  simp only [Sched.queued_putMlqProc, h]
  split <;> simp

lemma balanced_call {w : SchedLedger α} (h : w.Balanced) (prio : α → Prio) (k : SchedCall α) :
    (w.call prio k).Balanced := by
  cases k with
  | addProc proc => exact balanced_hand h prio proc
  | putProc proc => exact balanced_hand h prio proc
  | getProc =>
    unfold Balanced call at *
    rcases w.sched.queued_getMlqProc with ⟨x, hget, hqueued⟩ | ⟨hget, hqueued, hafter⟩
    · simp [h, hget, hqueued]
    · simp [h, hget, hqueued, hafter]

/-- The processes handed to `add_proc` and `put_proc` are those returned by `get_proc`, those in
the ready queues, and those that came when their level was full. -/
theorem handed_eq {prio : α → Prio} {w : SchedLedger α} (hw : (system prio).Reachable w) :
    w.handed = w.returned + w.sched.queued + w.dropped := by
  refine hw.invariant (I := Balanced) (fun w h => ?_) fun w k w' _ h ht => ?_
  · obtain ⟨⟨s₀, -, -, hs⟩, hhanded, hreturned, hdropped⟩ := h
    simp [Balanced, hhanded, hreturned, hdropped, hs, Sched.queued]
  · rw [ht]
    exact balanced_call h prio k

/-- An account with a fresh scheduler. -/
def fresh : SchedLedger α := ⟨Sched.fresh, 0, 0, 0⟩

/-- Of eleven processes of one level the last one is dropped; then the first one is returned and
comes back. -/
theorem handed_eq_full_level : ∃ w : SchedLedger (Fin 11),
    (system fun _ => 0).Reachable w ∧ w.handed.card = 12 ∧ w.returned = {0} ∧
    w.sched.queued.card = 10 ∧ w.dropped = {10} ∧
    w.handed = w.returned + w.sched.queued + w.dropped := by
  obtain ⟨w, hw, hP⟩ := LTS.exists_reachable_of_exec (T := system fun _ : Fin 11 => 0)
    (fun w k => some (w.call (fun _ => 0) k))
    (fun w k w' h => (Option.some.inj h).symm)
    (fun w => (w.handed.card = 12) && (w.returned = {0}) && (w.sched.queued.card = 10) &&
      (w.dropped = {10}))
    ((List.finRange 11).map .addProc ++ [.getProc, .putProc 0])
    (s := fresh) ⟨Sched.initial_fresh, rfl, rfl, rfl⟩ (by decide +kernel)
  simp only [Bool.and_eq_true, decide_eq_true_eq] at hP
  obtain ⟨⟨⟨hhanded, hreturned⟩, hqueued⟩, hdropped⟩ := hP
  exact ⟨w, hw, hhanded, hreturned, hqueued, hdropped, handed_eq hw⟩

/-- The eleventh process of one level is neither returned nor queued. -/
theorem handed_ne_eleven :
    ¬ ∀ w : SchedLedger Unit, (system fun _ => 0).Reachable w →
      w.handed = w.returned + w.sched.queued := by
  intro h
  obtain ⟨w, hw, hP⟩ := LTS.exists_reachable_of_exec (T := system fun _ : Unit => 0)
    (fun w k => some (w.call (fun _ => 0) k))
    (fun w k w' h => (Option.some.inj h).symm)
    (fun w => (w.handed.card = 11) && (w.returned = 0) && (w.sched.queued.card = 10))
    (List.replicate 11 (.addProc ()))
    (s := fresh) ⟨Sched.initial_fresh, rfl, rfl, rfl⟩ (by decide +kernel)
  simp only [Bool.and_eq_true, decide_eq_true_eq] at hP
  have hcard := congrArg Multiset.card (h w hw)
  rw [Multiset.card_add, hP.1.1, hP.1.2, hP.2] at hcard
  exact absurd hcard (by decide)

end SchedLedger

/-! ## Slots -/

namespace Sched

/-- Some other level than `p` has a process. -/
def OtherWaits (s : Sched α) (p : Prio) : Prop := ∃ q, q ≠ p ∧ s.level q ≠ []

instance (s : Sched α) (p : Prio) : Decidable (s.OtherWaits p) :=
  inferInstanceAs (Decidable (∃ q, q ≠ p ∧ s.level q ≠ []))

end Sched

/-- A scheduler with, for each level, how many processes of this level the last `get_proc` calls
returned in a row while some other level had a process. -/
structure SlotRun (α : Type*) where
  /-- The scheduler. -/
  sched : Sched α
  /-- The lengths of the rows. -/
  row : Prio → ℕ

namespace SlotRun

/-- The rows after a process of level `p` was returned. -/
def served (w : SlotRun α) (p : Prio) : Prio → ℕ := fun q =>
  if q = p ∧ w.sched.OtherWaits p then w.row q + 1 else 0

/-- The scheduler and the rows after a call. -/
def call (prio : α → Prio) (w : SlotRun α) : SchedCall α → SlotRun α
  | .addProc proc => { w with sched := w.sched.putMlqProc prio proc }
  | .putProc proc => { w with sched := w.sched.putMlqProc prio proc }
  | .getProc =>
    { sched := w.sched.getMlqProc.2
      row := w.sched.getMlqProc.1.elim w.row fun proc => w.served (prio proc) }

/-- The calls of the scheduler in any order, after `init_scheduler`. -/
def system (prio : α → Prio) : LTS (SlotRun α) (SchedCall α) where
  start w := w.sched.Initial ∧ w.row = fun _ => 0
  step w k w' := w' = w.call prio k

/-- The condition on a `get_proc` call: it does not find that the current level has used its
slots and has the first process, while a level behind it also has one. -/
def SlotOk (w : SlotRun α) (k : SchedCall α) : Prop :=
  match k with
  | .getProc => ¬ (w.sched.slotLeft = 0 ∧ w.sched.level w.sched.currPrio ≠ [] ∧
      (∀ q, q < w.sched.currPrio → w.sched.level q = []) ∧
      ∃ q, w.sched.currPrio < q ∧ w.sched.level q ≠ [])
  | _ => True

/-- The invariant of the runs that keep the slot budget. -/
structure Budgeted (prio : α → Prio) (w : SlotRun α) : Prop where
  /-- A level has its priority's processes. -/
  sorted : ∀ p, ∀ x ∈ w.sched.level p, prio x = p
  /-- The current level has at most its slots left. -/
  slots : w.sched.slotLeft ≤ maxPrio - w.sched.currPrio
  /-- Only the current level has a row; the row and the slots left are within the budget, and the
  other level still waits. -/
  row : ∀ p, 0 < w.row p → p = w.sched.currPrio ∧ w.row p + w.sched.slotLeft ≤ maxPrio - p ∧
    w.sched.OtherWaits p

lemma budgeted_put {prio : α → Prio} {w : SlotRun α} (h : Budgeted prio w) (proc : α) :
    Budgeted prio { w with sched := w.sched.putMlqProc prio proc } where
  sorted p x hx := by
    simp only [Sched.level_putMlqProc] at hx
    split at hx
    · next hp =>
      rcases List.mem_append.mp hx with hx | hx
      · exact h.sorted p x hx
      · rw [List.mem_singleton.mp hx, hp.1]
    · exact h.sorted p x hx
  slots := h.slots
  row p hp := by
    obtain ⟨hcurr, hrow, q, hq, hlevel⟩ := h.row p hp
    refine ⟨hcurr, hrow, q, hq, ?_⟩
    simp only [Sched.level_putMlqProc]
    split
    · simp
    · exact hlevel

/-- Serving a level whose row fits with the slots it has. -/
lemma budgeted_serve {prio : α → Prio} {w : SlotRun α} (h : Budgeted prio w) {p : Prio} {x : α}
    {xs : List α} {slots : ℕ} (hlevel : w.sched.level p = x :: xs) (hpos : 0 < slots)
    (hslots : slots ≤ maxPrio - p) (hrow : w.sched.OtherWaits p → w.row p + slots ≤ maxPrio - p) :
    Budgeted prio { sched := w.sched.afterServe p slots, row := w.served (prio x) } where
  sorted q y hy := by
    simp only [Sched.level_afterServe hlevel] at hy
    split at hy
    · next hq =>
      rw [hq]
      exact h.sorted p y (hlevel ▸ List.mem_cons_of_mem x hy)
    · exact h.sorted q y hy
  slots := by
    show slots - 1 ≤ maxPrio - p
    omega
  row q hq := by
    have hx : prio x = p := h.sorted p x (hlevel ▸ List.mem_cons_self)
    rw [hx] at hq ⊢
    simp only [served] at hq ⊢
    split at hq
    · next hwait =>
      obtain ⟨rfl, hwait⟩ := hwait
      rw [if_pos ⟨rfl, hwait⟩]
      have hfits := hrow hwait
      obtain ⟨r, hr, hrest⟩ := hwait
      refine ⟨rfl, ?_, r, hr, ?_⟩
      · show w.row q + 1 + (slots - 1) ≤ maxPrio - q
        omega
      · rwa [Sched.level_afterServe hlevel, if_neg hr]
    · exact absurd hq (lt_irrefl 0)

/-- A `get_proc` call that meets the condition keeps the budget. -/
lemma budgeted_get {prio : α → Prio} {w : SlotRun α} (h : Budgeted prio w)
    (hok : w.SlotOk .getProc) : Budgeted prio (w.call prio .getProc) := by
  rcases w.sched.getMlqProc_cases with ⟨x, xs, hslot, hlevel, hget⟩ |
    ⟨p, x, xs, hstart, hlevel, hbefore, hget⟩ | ⟨hempty, hget⟩
  · simp only [call, hget, Option.elim]
    refine budgeted_serve h hlevel (by omega) h.slots fun hwait => ?_
    by_cases hrow : 0 < w.row w.sched.currPrio
    · exact (h.row _ hrow).2.1
    · have := h.slots
      omega
  · simp only [call, hget, Option.elim]
    refine budgeted_serve h hlevel (by omega) le_rfl fun hwait => ?_
    by_cases hrow : 0 < w.row p
    · -- the level is served again although it has no slots left: the excluded case
      obtain ⟨rfl, -, q, hq, hrest⟩ := h.row p hrow
      have hne : w.sched.level w.sched.currPrio ≠ [] := by simp [hlevel]
      refine absurd ⟨hstart.resolve_right hne, hne, hbefore, q, ?_, hrest⟩ hok
      by_contra hle
      exact hrest (hbefore q (lt_of_le_of_ne (not_lt.mp hle) hq))
    · omega
  · simp only [call, hget, Option.elim]
    refine ⟨?_, le_rfl, ?_⟩
    · intro p y hy
      exact h.sorted p y hy
    · intro p hrow
      obtain ⟨-, -, q, -, hrest⟩ := h.row p hrow
      exact absurd (hempty q) hrest

lemma budgeted_call {prio : α → Prio} {w : SlotRun α} (h : Budgeted prio w) {k : SchedCall α}
    (hok : w.SlotOk k) : Budgeted prio (w.call prio k) := by
  cases k with
  | addProc proc => exact budgeted_put h proc
  | putProc proc => exact budgeted_put h proc
  | getProc => exact budgeted_get h hok

/-- No level is served more than `MAX_PRIO - p` times in a row while another level waits, in
every run in which no call finds the current level without slots, first, and another level
behind it. -/
theorem row_le_slots {prio : α → Prio} {w : SlotRun α}
    (hw : ((system prio).restrict SlotOk).Reachable w) (p : Prio) : w.row p ≤ maxPrio - p := by
  have hbudget : Budgeted prio w := by
    refine hw.invariant_restrict (I := Budgeted prio) (fun w h => ?_) fun w k w' h ht hok => ?_
    · obtain ⟨⟨s₀, hcurr, hslot, hs⟩, hrow⟩ := h
      refine ⟨?_, ?_, ?_⟩
      · intro p x hx
        simp [hs] at hx
      · rw [hs]
        show s₀.slotLeft ≤ maxPrio - s₀.currPrio
        rw [hcurr, hslot]
        exact le_rfl
      · intro p hp
        simp [hrow] at hp
    · rw [ht]
      exact budgeted_call h hok
  by_cases hrow : 0 < w.row p
  · have := (hbudget.row p hrow).2.1
    omega
  · omega

/-- A run with a fresh scheduler. -/
def fresh : SlotRun α := ⟨Sched.fresh, fun _ => 0⟩

/-- With a process at level 138 and one at level 139, the first call counts one for level 138,
which has two slots. -/
theorem row_le_slots_two_levels :
    (((fresh.call (fun b : Bool => if b then 138 else 139) (.addProc true)).call
      (fun b => if b then 138 else 139) (.addProc false)).call
      (fun b => if b then 138 else 139) .getProc).row 138 ≤ maxPrio - (138 : Prio) := by
  refine @row_le_slots Bool (fun b => if b then 138 else 139) _ (.step (a := .getProc)
    (.step (a := .addProc false) (.step (a := .addProc true)
      (.start ⟨Sched.initial_fresh, rfl⟩) ⟨rfl, trivial⟩) ⟨rfl, trivial⟩) ⟨rfl, ?_⟩) 138
  intro h
  exact absurd h.1 (by decide)

/-- Level 138 has two slots, and is served three times in a row while level 139 waits. -/
theorem row_exceeds_slots :
    ¬ ∀ w : SlotRun (Fin 4), (system fun i => if i < 3 then 138 else 139).Reachable w →
      ∀ p, w.row p ≤ maxPrio - p := by
  intro h
  obtain ⟨w, hw, hP⟩ := LTS.exists_reachable_of_exec
    (T := system fun i : Fin 4 => if i < 3 then 138 else 139)
    (fun w k => some (w.call (fun i => if i < 3 then 138 else 139) k))
    (fun w k w' h => (Option.some.inj h).symm) (P := fun w => w.row 138 = 3)
    [.addProc 0, .addProc 1, .addProc 2, .addProc 3, .getProc, .getProc, .getProc]
    (s := fresh) ⟨Sched.initial_fresh, rfl⟩ (by decide +kernel)
  have hrow := h w hw 138
  rw [of_decide_eq_true hP] at hrow
  exact absurd hrow (by decide)

end SlotRun

end Ossim
