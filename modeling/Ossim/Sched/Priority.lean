import Mathlib.Order.Bounds.Basic
import Ossim.Sched.Runs

/-!
# Priorities

How the levels of the ready queues stand to each other in runs of the scheduler.  A level waits for
a level behind it only as long as that one has slots left from before, so it is passed over a
bounded number of times (`isGreatest_behind`).  From then on, until `get_proc` finds it empty, all
processes come from it or from the levels before it (`prio_le_of_preferred`): as long as they are
put back in time, the levels behind get nothing.  So a process waits for those before it in its
level, for a bounded number of processes from behind, and for all of the levels before it
(`take_returned`).
-/

namespace Ossim

variable {α : Type*}

/-- A scheduler with what the `get_proc` calls did since one of them found a level empty. -/
structure PrioRun (α : Type*) where
  /-- The scheduler. -/
  sched : Sched α
  /-- How many processes they returned from the levels behind this one. -/
  behind : Prio → ℕ
  /-- Whether they returned a process from this level or one before it. -/
  preferred : Prio → Bool

namespace PrioRun

/-- The counts after a process of level `p` was returned. -/
def take (w : PrioRun α) (p : Prio) (sched : Sched α) : PrioRun α where
  sched := sched
  behind q :=
    if w.sched.level q = [] then 0 else if q < p then w.behind q + 1 else w.behind q
  preferred q := decide (w.sched.level q ≠ [] ∧ (p ≤ q ∨ w.preferred q = true))

/-- The scheduler and the counts after a call. -/
def call (prio : α → Prio) (w : PrioRun α) : SchedCall α → PrioRun α
  | .addProc proc => { w with sched := w.sched.putMlqProc prio proc }
  | .putProc proc => { w with sched := w.sched.putMlqProc prio proc }
  | .getProc =>
    match w.sched.getMlqProc with
    | (some proc, sched) => w.take (prio proc) sched
    | (none, sched) => ⟨sched, fun _ => 0, fun _ => false⟩

/-- The calls of the scheduler in any order, after `init_scheduler`. -/
def system (prio : α → Prio) : LTS (PrioRun α) (SchedCall α) where
  start w := w.sched.Initial ∧ (w.behind = fun _ => 0) ∧ w.preferred = fun _ => false
  step w k w' := w' = w.call prio k

/-- The invariant of the runs. -/
structure Ordered (prio : α → Prio) (w : PrioRun α) : Prop where
  /-- A level has its priority's processes. -/
  sorted : ∀ p, ∀ x ∈ w.sched.level p, prio x = p
  /-- The current level has at most its slots left. -/
  slots : w.sched.slotLeft ≤ maxPrio - w.sched.currPrio
  /-- It has used one of them, unless the search was started over. -/
  used : 0 < w.sched.currPrio → w.sched.slotLeft + 1 ≤ maxPrio - w.sched.currPrio
  /-- The scheduler does not go on to a level behind a preferred one. -/
  current : ∀ q, w.preferred q = true → w.sched.currPrio ≤ q
  /-- Processes from behind come from a single level, out of its slots. -/
  passed : ∀ q, 0 < w.behind q → w.preferred q = false →
    q < w.sched.currPrio ∧ w.behind q + w.sched.slotLeft + 1 ≤ maxPrio - w.sched.currPrio
  /-- A level is passed over less often than the next one has slots. -/
  bound : ∀ q : Prio, w.behind q ≤ maxPrio - (q + 2)

variable {prio : α → Prio} {w : PrioRun α}

lemma ordered_put (h : Ordered prio w) (proc : α) :
    Ordered prio { w with sched := w.sched.putMlqProc prio proc } where
  sorted p x hx := by
    simp only [Sched.level_putMlqProc] at hx
    split at hx
    · next hp =>
      rcases List.mem_append.mp hx with hx | hx
      · exact h.sorted p x hx
      · rw [List.mem_singleton.mp hx, hp.1]
    · exact h.sorted p x hx
  slots := h.slots
  used := h.used
  current := h.current
  passed := h.passed
  bound := h.bound

/-- Serving a level behind which there is no process, or on with the slots it has left. -/
lemma ordered_take (h : Ordered prio w) {p : Prio} {x : α} {xs : List α} {slots : ℕ}
    (hlevel : w.sched.level p = x :: xs) (hpos : 0 < slots) (hslots : slots ≤ maxPrio - p)
    (hfirst : (p = w.sched.currPrio ∧ slots = w.sched.slotLeft) ∨
      ∀ q, q < p → w.sched.level q = []) :
    Ordered prio (w.take p (w.sched.afterServe p slots)) := by
  -- a level that has a process is passed over only if the current level goes on
  have hgoes : ∀ q, w.sched.level q ≠ [] → q < p →
      p = w.sched.currPrio ∧ slots = w.sched.slotLeft := fun q hq hlt =>
    hfirst.resolve_right fun hbefore => hq (hbefore q hlt)
  have hpassed : ∀ q, w.sched.level q ≠ [] → q < p →
      w.preferred q = false ∧ w.behind q + slots + 1 ≤ maxPrio - p := by
    intro q hq hlt
    obtain ⟨rfl, rfl⟩ := hgoes q hq hlt
    have hpref : w.preferred q = false := by
      by_contra hpref
      exact absurd (h.current q (by simpa using hpref)) (not_le.mpr hlt)
    refine ⟨hpref, ?_⟩
    by_cases hbehind : 0 < w.behind q
    · exact (h.passed q hbehind hpref).2
    · have hused := h.used (lt_of_le_of_lt (Fin.zero_le q) hlt)
      omega
  refine ⟨fun q y hy => ?_, ?_, fun hp => ?_, fun q hq => ?_, fun q hq hpref => ?_, fun q => ?_⟩
  · simp only [take, Sched.level_afterServe hlevel] at hy
    split at hy
    · next hq =>
      rw [hq]
      exact h.sorted p y (hlevel ▸ List.mem_cons_of_mem x hy)
    · exact h.sorted q y hy
  · show slots - 1 ≤ maxPrio - p
    omega
  · show slots - 1 + 1 ≤ maxPrio - p
    omega
  · show p ≤ q
    obtain ⟨hlevel, hle | hpref⟩ := of_decide_eq_true hq
    · exact hle
    · by_contra hlt
      have hfalse := (hpassed q hlevel (not_le.mp hlt)).1
      rw [hpref] at hfalse
      cases hfalse
  · have hnot := of_decide_eq_false hpref
    simp only [take] at hq ⊢
    split at hq
    · exact absurd hq (lt_irrefl 0)
    · next hlevel =>
      have hlt : q < p := by
        by_contra hle
        exact hnot ⟨hlevel, .inl (not_lt.mp hle)⟩
      have hle := (hpassed q hlevel hlt).2
      rw [if_neg hlevel, if_pos hlt]
      refine ⟨hlt, ?_⟩
      show w.behind q + 1 + (slots - 1) + 1 ≤ maxPrio - p
      omega
  · simp only [take]
    split
    · exact Nat.zero_le _
    · next hlevel =>
      split
      · next hlt =>
        have hle := (hpassed q hlevel hlt).2
        have hlt := Fin.lt_def.mp hlt
        omega
      · exact h.bound q

lemma ordered_call (h : Ordered prio w) (k : SchedCall α) : Ordered prio (w.call prio k) := by
  cases k with
  | addProc proc => exact ordered_put h proc
  | putProc proc => exact ordered_put h proc
  | getProc =>
    rcases w.sched.getMlqProc_cases with ⟨x, xs, hslot, hlevel, hget⟩ |
      ⟨p, x, xs, hstart, hlevel, hbefore, hget⟩ | ⟨hempty, hget⟩
    · have hx : prio x = w.sched.currPrio := h.sorted _ x (hlevel ▸ List.mem_cons_self)
      simp only [call, hget, hx]
      exact ordered_take h hlevel (by omega) h.slots (.inl ⟨rfl, rfl⟩)
    · have hx : prio x = p := h.sorted _ x (hlevel ▸ List.mem_cons_self)
      simp only [call, hget, hx]
      exact ordered_take h hlevel (by omega) le_rfl (.inr hbefore)
    · simp only [call, hget]
      refine ⟨fun p x hx => h.sorted p x hx, le_rfl, fun hpos => ?_, by simp, by simp, by simp⟩
      exact absurd hpos (lt_irrefl _)

lemma ordered_of_reachable (hw : (system prio).Reachable w) : Ordered prio w := by
  refine hw.invariant (I := Ordered prio) (fun w h => ?_) fun w k w' _ h ht => ?_
  · obtain ⟨⟨s₀, hcurr, hslot, hs⟩, hbehind, hpref⟩ := h
    refine ⟨?_, ?_, ?_, ?_, ?_, ?_⟩
    · intro p x hx
      simp [hs] at hx
    · rw [hs]
      show s₀.slotLeft ≤ maxPrio - s₀.currPrio
      rw [hcurr, hslot]
      exact le_rfl
    · rw [hs]
      show 0 < s₀.currPrio → _
      rw [hcurr]
      exact fun hpos => absurd hpos (lt_irrefl _)
    · simp [hpref]
    · simp [hbehind]
    · simp [hbehind]
  · rw [ht]
    exact ordered_call h k

/-- `get_proc` serves the current level. -/
lemma currPrio_of_get (h : Ordered prio w) {x : α} (hget : w.sched.getMlqProc.1 = some x) :
    w.sched.getMlqProc.2.currPrio = prio x := by
  rcases w.sched.getMlqProc_cases with ⟨y, ys, -, hlevel, hy⟩ | ⟨p, y, ys, -, hlevel, -, hy⟩ |
    ⟨-, hy⟩
  · obtain rfl : y = x := by simpa [hy] using hget
    rw [hy, h.sorted _ y (hlevel ▸ List.mem_cons_self)]
    rfl
  · obtain rfl : y = x := by simpa [hy] using hget
    rw [hy, h.sorted _ y (hlevel ▸ List.mem_cons_self)]
    rfl
  · simp [hy] at hget

/-- A call that returns a process. -/
lemma call_get {x : α} (hget : w.sched.getMlqProc.1 = some x) :
    w.call prio .getProc = w.take (prio x) w.sched.getMlqProc.2 := by
  unfold call
  generalize w.sched.getMlqProc = got at hget ⊢
  obtain ⟨proc, sched⟩ := got
  obtain rfl : proc = some x := hget
  rfl

/-- In every run, once a `get_proc` call has returned a process of level `p` or of one before it, no
later call returns a process of a level behind `p`, until one finds level `p` empty. -/
theorem prio_le_of_preferred (hw : (system prio).Reachable w) {p : Prio}
    (hpref : w.preferred p = true) (hlevel : w.sched.level p ≠ []) {x : α}
    (hget : w.sched.getMlqProc.1 = some x) : prio x ≤ p := by
  have h := ordered_of_reachable hw
  have hcurr := (ordered_call h .getProc).current p
  rw [call_get hget] at hcurr
  have hstill : (w.take (prio x) w.sched.getMlqProc.2).preferred p = true :=
    decide_eq_true ⟨hlevel, .inr hpref⟩
  rw [← currPrio_of_get h hget]
  exact hcurr hstill

/-- A process of level 138 is put back while one of level 139 waits. -/
theorem prio_le_of_preferred_two_levels :
    ∃ w, (system fun b : Bool => if b then 138 else 139).Reachable w ∧ w.preferred 138 = true ∧
      w.sched.level 139 ≠ [] ∧ ∃ x, w.sched.getMlqProc.1 = some x ∧
        (if x then 138 else 139 : Prio) ≤ 138 := by
  have hstart : (system fun b : Bool => if b then 138 else 139).start
      ⟨Sched.fresh, fun _ => 0, fun _ => false⟩ := ⟨Sched.initial_fresh, rfl, rfl⟩
  have hw := ((((LTS.Reachable.start hstart).step (a := .addProc true) rfl).step
    (a := .addProc false) rfl).step (a := .getProc) rfl).step (a := .putProc true) rfl
  exact ⟨_, hw, by decide +kernel, by decide +kernel, true, by decide +kernel,
    prio_le_of_preferred hw (by decide +kernel) (by decide +kernel) (by decide +kernel)⟩

/-! ## How often a level is passed over -/

/-- A run in which level `q` is passed over `n` times: one process of the next level `p` is handed
out and put back again and again, and one of level `q` waits. -/
structure Passing (prio : α → Prio) (p q : Prio) (x : α) (n : ℕ) (w : PrioRun α) : Prop where
  /-- The run. -/
  reachable : (system prio).Reachable w
  /-- The next level is served. -/
  current : w.sched.currPrio = p
  /-- It has used one slot before the other process came, and one each time since. -/
  slots : w.sched.slotLeft + (n + 1) = maxPrio - p
  /-- Its process. -/
  level : w.sched.level p = [x]
  /-- The process that waits. -/
  waits : w.sched.level q ≠ []
  /-- The count. -/
  behind : w.behind q = n

lemma Passing.next {p q : Prio} {x : α} {n : ℕ} (hx : prio x = p) (hq : q < p)
    (h : Passing prio p q x n w) (hleft : 0 < w.sched.slotLeft) :
    Passing prio p q x (n + 1) ((w.call prio .getProc).call prio (.putProc x)) := by
  obtain ⟨hreach, rfl, hslots, hlevel, hwaits, hbehind⟩ := h
  have hget : w.sched.getMlqProc =
      (some x, w.sched.afterServe w.sched.currPrio w.sched.slotLeft) := by
    rcases w.sched.getMlqProc_cases with ⟨y, ys, -, hy, hget⟩ | ⟨r, y, ys, hstart, -⟩ | ⟨hempty, -⟩
    · obtain ⟨rfl, -⟩ : x = y ∧ ys = [] := by simpa [hlevel] using hy
      exact hget
    · rcases hstart with hstart | hstart
      · omega
      · simp [hlevel] at hstart
    · simp [hempty] at hlevel
  have hcall : w.call prio .getProc = w.take (prio x) w.sched.getMlqProc.2 :=
    call_get (by rw [hget])
  rw [hget, hx] at hcall
  have hempty :
      (w.sched.afterServe w.sched.currPrio w.sched.slotLeft).level w.sched.currPrio = [] := by
    rw [Sched.level_afterServe hlevel, if_pos rfl]
  refine ⟨(hreach.step rfl).step rfl, ?_, ?_, ?_, ?_, ?_⟩
  all_goals rw [hcall]
  · rfl
  · show w.sched.slotLeft - 1 + (n + 1 + 1) = _
    omega
  · show (Sched.putMlqProc prio _ x).level _ = _
    rw [take, Sched.level_putMlqProc, hempty, if_pos ⟨hx.symm, Nat.zero_lt_succ _⟩]
    rfl
  · show (Sched.putMlqProc prio _ x).level _ ≠ _
    rw [Sched.level_putMlqProc, if_neg (fun hboth => hq.ne (hboth.1.trans hx)), take,
      Sched.level_afterServe hlevel, if_neg hq.ne]
    exact hwaits
  · show (w.take _ _).behind q = n + 1
    simp only [take]
    rw [if_neg hwaits, if_pos hq, hbehind]

/-- A level behind the first one comes to its turn when it has the only process. -/
lemma exists_passing {p q : Prio} {x y : α} (hx : prio x = p) (hy : prio y = q) (hq : q < p) :
    ∃ w, Passing prio p q x 0 w := by
  have hfresh : ∀ r, (Sched.fresh : Sched α).level r = [] := Sched.level_initScheduler _
  have hadded : ∀ r, (Sched.fresh.putMlqProc prio x).level r = if r = p then [x] else [] := by
    intro r
    rw [Sched.level_putMlqProc, hfresh, hx]
    by_cases hr : r = p
    · rw [if_pos ⟨hr, Nat.zero_lt_succ _⟩, if_pos hr]
      rfl
    · rw [if_neg fun h => hr h.1, if_neg hr]
  have hget : (Sched.fresh.putMlqProc prio x).getMlqProc =
      (some x, (Sched.fresh.putMlqProc prio x).afterServe p (maxPrio - p)) := by
    rcases (Sched.fresh.putMlqProc prio x).getMlqProc_cases with ⟨z, zs, -, hz, -⟩ |
      ⟨r, z, zs, -, hz, -, hget⟩ | ⟨hempty, -⟩
    · have hzero : (Sched.fresh.putMlqProc prio x).currPrio ≠ p :=
        (lt_of_le_of_lt (Fin.zero_le q) hq).ne
      rw [hadded, if_neg hzero] at hz
      cases hz
    · rw [hadded] at hz
      split at hz
      · next hr =>
        obtain ⟨rfl, -⟩ : x = z ∧ [] = zs := by simpa using hz
        rw [hget, hr]
      · cases hz
    · simpa [hadded] using hempty p
  have hserved : ∀ r,
      ((Sched.fresh.putMlqProc prio x).afterServe p (maxPrio - p)).level r = [] := by
    intro r
    rw [Sched.level_afterServe (by rw [hadded, if_pos rfl]), hadded]
    split <;> rfl
  have hstart : (system prio).start ⟨Sched.fresh, fun _ => 0, fun _ => false⟩ :=
    ⟨Sched.initial_fresh, rfl, rfl⟩
  have h₁ := (LTS.Reachable.start hstart).step (a := SchedCall.addProc x) rfl
  have h₂ := h₁.step (a := SchedCall.getProc) rfl
  rw [call_get (x := x) (by rw [call, hget])] at h₂
  have h₃ := (h₂.step (a := SchedCall.putProc x) rfl).step (a := SchedCall.addProc y) rfl
  refine ⟨_, h₃, ?_, ?_, ?_, ?_, ?_⟩
  all_goals simp only [call, take, hget]
  · rfl
  · show maxPrio - p - 1 + (0 + 1) = maxPrio - p
    have := p.isLt
    omega
  · rw [Sched.level_putMlqProc, if_neg (fun h => hq.ne' (h.1.trans hy)), Sched.level_putMlqProc,
      hserved, if_pos ⟨hx.symm, Nat.zero_lt_succ _⟩]
    rfl
  · have hother : (((Sched.fresh.putMlqProc prio x).afterServe p
        (maxPrio - p)).putMlqProc prio x).level q = [] := by
      rw [Sched.level_putMlqProc, if_neg (fun h => hq.ne (h.1.trans hx)), hserved]
    rw [Sched.level_putMlqProc, hother, if_pos ⟨hy.symm, Nat.zero_lt_succ _⟩]
    simp
  · refine if_pos ?_
    show (Sched.fresh.putMlqProc prio x).level q = []
    rw [hadded, if_neg hq.ne]

/-- In every run a level is passed over at most `MAX_PRIO - (p + 2)` times between two `get_proc`
calls that find it empty, however many processes there are and whenever they come; and there are
runs in which it is passed over as often as that. -/
theorem isGreatest_behind (hprio : Function.Surjective prio) (p : Prio) :
    IsGreatest {n | ∃ w, (system prio).Reachable w ∧ w.behind p = n} (maxPrio - (p + 2)) := by
  refine ⟨?_, ?_⟩
  · by_cases hp : (p : ℕ) + 2 ≤ maxPrio
    · -- the next level is the one that is served
      have hnext : (p : ℕ) + 1 < maxPrio := by omega
      obtain ⟨x, hx⟩ := hprio ⟨p + 1, hnext⟩
      obtain ⟨y, hy⟩ := hprio p
      have hlt : p < ⟨p + 1, hnext⟩ := Fin.lt_def.mpr (Nat.lt_succ_self p)
      have hrun : ∀ n, n ≤ maxPrio - (p + 2) → ∃ w, Passing prio ⟨p + 1, hnext⟩ p x n w := by
        intro n
        induction n with
        | zero => exact fun _ => exists_passing hx hy hlt
        | succ n ih =>
          intro hn
          obtain ⟨w, hw⟩ := ih (by omega)
          refine ⟨_, hw.next hx hlt ?_⟩
          have hslots : w.sched.slotLeft + (n + 1) = maxPrio - (p + 1) := hw.slots
          omega
      obtain ⟨w, hw⟩ := hrun _ le_rfl
      exact ⟨w, hw.reachable, hw.behind⟩
    · refine ⟨⟨Sched.fresh, fun _ => 0, fun _ => false⟩,
        .start ⟨Sched.initial_fresh, rfl, rfl⟩, ?_⟩
      show 0 = _
      omega
  · rintro n ⟨w, hw, rfl⟩
    exact (ordered_of_reachable hw).bound p

/-- Level 0 is passed over 138 times. -/
theorem isGreatest_behind_first :
    IsGreatest {n | ∃ w, (system (id : Prio → Prio)).Reachable w ∧ w.behind 0 = n} 138 :=
  isGreatest_behind Function.surjective_id 0

/-! ## How long a process waits -/

/-- The processes that the `get_proc` calls among these calls return, in order. -/
def returned (prio : α → Prio) (w : PrioRun α) : List (SchedCall α) → List α
  | [] => []
  | .getProc :: ks => w.sched.getMlqProc.1.toList ++ returned prio (w.call prio .getProc) ks
  | .addProc proc :: ks => returned prio (w.call prio (.addProc proc)) ks
  | .putProc proc :: ks => returned prio (w.call prio (.putProc proc)) ks

/-- While a process waits, `get_proc` returns the head of some level. -/
lemma exists_take (h : Ordered prio w) {p : Prio} (hlevel : w.sched.level p ≠ []) :
    ∃ y ys slots, w.sched.level (prio y) = y :: ys ∧ w.sched.getMlqProc.1 = some y ∧
      w.call prio .getProc = w.take (prio y) (w.sched.afterServe (prio y) slots) := by
  rcases w.sched.getMlqProc_cases with ⟨y, ys, -, hy, hget⟩ | ⟨q, y, ys, -, hy, -, hget⟩ |
    ⟨hempty, -⟩
  · have hprio : prio y = w.sched.currPrio := h.sorted _ y (hy ▸ List.mem_cons_self)
    have hsome : w.sched.getMlqProc.1 = some y := by rw [hget]
    refine ⟨y, ys, w.sched.slotLeft, by rw [hprio, hy], hsome, ?_⟩
    rw [call_get hsome, hget, hprio]
  · have hprio : prio y = q := h.sorted _ y (hy ▸ List.mem_cons_self)
    have hsome : w.sched.getMlqProc.1 = some y := by rw [hget]
    refine ⟨y, ys, maxPrio - q, by rw [hprio, hy], hsome, ?_⟩
    rw [call_get hsome, hget, hprio]
  · exact absurd (hempty p) hlevel

/-- A process is handed over behind those that wait. -/
lemma exists_level_put {s : Sched α} {p : Prio} {ys zs : List α} {x : α} (proc : α)
    (hlevel : s.level p = ys ++ x :: zs) :
    ∃ zs', (s.putMlqProc prio proc).level p = ys ++ x :: zs' := by
  rw [Sched.level_putMlqProc, hlevel]
  split
  · exact ⟨zs ++ [proc], by simp⟩
  · exact ⟨zs, rfl⟩

/-- The argument of `take_returned`: what is left of the bound shrinks with each process that is
returned in the meantime. -/
lemma take_returned_aux (h : Ordered prio w) {p : Prio} {ys zs : List α} {x : α}
    (hlevel : w.sched.level p = ys ++ x :: zs) {ks : List (SchedCall α)}
    (hmany : ys.length + (maxPrio - (p + 2)) <
      w.behind p + (returned prio w ks).countP (p ≤ prio ·)) :
    ((returned prio w ks).filter (prio · = p)).take (ys.length + 1) = ys ++ [x] := by
  induction ks generalizing w ys zs with
  | nil =>
    have hbound := h.bound p
    rw [returned, List.countP_nil] at hmany
    omega
  | cons k ks ih =>
    have hnext := ordered_call h k
    cases k with
    | addProc proc | putProc proc =>
      obtain ⟨zs', hlevel'⟩ : ∃ zs', (w.sched.putMlqProc prio proc).level p = ys ++ x :: zs' :=
        exists_level_put proc hlevel
      exact ih hnext hlevel' hmany
    | getProc =>
      have hwaits : w.sched.level p ≠ [] := by simp [hlevel]
      obtain ⟨y, rest, slots, hy, hget, hcall⟩ := exists_take h hwaits
      rw [returned, hget] at hmany ⊢
      rw [hcall] at hnext hmany ⊢
      simp only [Option.toList_some, List.singleton_append, List.countP_cons,
        List.filter_cons] at hmany ⊢
      have hafter := fun q => Sched.level_afterServe hy slots q
      have hbehind : (w.take (prio y) (w.sched.afterServe (prio y) slots)).behind p =
          if p < prio y then w.behind p + 1 else w.behind p := if_neg hwaits
      rcases lt_trichotomy p (prio y) with hlt | heq | hgt
      · -- from behind: the bound on these shrinks
        have hlevel' := (hafter p).trans (if_neg hlt.ne)
        rw [if_neg (by simp [hlt.ne'])]
        refine ih hnext (hlevel'.trans hlevel) ?_
        rw [hbehind, if_pos hlt]
        rw [if_pos (by simp [hlt.le])] at hmany
        omega
      · have hlevel' := (hafter p).trans (if_pos heq)
        rw [← heq, hlevel] at hy
        rw [if_pos (by simp [heq])]
        rw [if_pos (by simp [heq])] at hmany
        cases ys with
        | nil =>
          obtain ⟨rfl, -⟩ := List.cons.inj hy
          rfl
        | cons y' ys =>
          obtain ⟨rfl, rfl⟩ := List.cons.inj hy
          refine congrArg (y' :: ·) (ih hnext hlevel' ?_)
          rw [hbehind, if_neg (by simp [heq])]
          rw [List.length_cons] at hmany
          omega
      · have hlevel' := (hafter p).trans (if_neg hgt.ne')
        rw [if_neg (by simp [hgt.ne])]
        refine ih hnext (hlevel'.trans hlevel) ?_
        rw [hbehind, if_neg hgt.not_gt]
        rw [if_neg (by simp [hgt])] at hmany
        exact hmany

/-- A process that waits at level `p` behind `ys` is returned at the latest when `get_proc` has
returned more than `ys.length + (MAX_PRIO - (p + 2))` processes of its level or of levels behind it,
however the calls are interleaved: then all of `ys` and the process were returned, in this order,
before any other process of the level. -/
theorem take_returned (hw : (system prio).Reachable w) {p : Prio} {ys zs : List α} {x : α}
    (hlevel : w.sched.level p = ys ++ x :: zs) {ks : List (SchedCall α)}
    (hmany : ys.length + (maxPrio - (p + 2)) < (returned prio w ks).countP (p ≤ prio ·)) :
    ((returned prio w ks).filter (prio · = p)).take (ys.length + 1) = ys ++ [x] :=
  take_returned_aux (ordered_of_reachable hw) hlevel (hmany.trans_le (Nat.le_add_left _ _))

/-- A process of level 137 waits while one of level 138 still has a slot. -/
theorem take_returned_two_levels :
    ∃ w, (system fun b : Bool => if b then 138 else 137).Reachable w ∧
      w.sched.level 137 = [false] ∧
      ((returned (fun b : Bool => if b then 138 else 137) w
        [.getProc, .putProc true, .getProc]).filter
          fun b => (if b then 138 else 137 : Prio) = 137).take 1 = [false] := by
  have hstart : (system fun b : Bool => if b then 138 else 137).start
      ⟨Sched.fresh, fun _ => 0, fun _ => false⟩ := ⟨Sched.initial_fresh, rfl, rfl⟩
  have hrun := ((((LTS.Reachable.start hstart).step (a := .addProc true) rfl).step
    (a := .getProc) rfl).step (a := .putProc true) rfl).step (a := .addProc false) rfl
  obtain ⟨w, hw, hlevel, hmany⟩ : ∃ w, (system fun b : Bool => if b then 138 else 137).Reachable w ∧
      w.sched.level 137 = [] ++ false :: [] ∧
      ([] : List Bool).length + (maxPrio - (((137 : Prio) : ℕ) + 2)) <
        (returned (fun b : Bool => if b then 138 else 137) w
          [.getProc, .putProc true, .getProc]).countP
            fun b => 137 ≤ (if b then 138 else 137 : Prio) :=
    ⟨_, hrun, by decide +kernel, by decide +kernel⟩
  exact ⟨w, hw, hlevel, take_returned hw hlevel hmany⟩

end PrioRun

end Ossim
