import Ossim.Sched.Queue
import Mathlib.Algebra.BigOperators.Group.Finset.Basic
import Mathlib.Data.Fintype.Basic

/-!
# The multi-level queue scheduler

The functions of `src/sched.c` that the simulation calls.  A scheduler is an array of ready
queues, one for each priority, with the pair `curr_prio`, `slot_left` that says which level is
served and for how many more slots.

`getMlqProc_cases` is the specification of `get_mlq_proc`: it serves the current level while
that level has slots and processes, otherwise it starts over and serves the first level that has
a process, and it returns no process only if all queues are empty.
-/

namespace Ossim

/-- `MAX_PRIO`. -/
abbrev maxPrio : ℕ := 140

/-- A priority, `0 .. MAX_PRIO - 1`. -/
abbrev Prio := Fin maxPrio

/-- The static variables of `sched.c` that the multi-level queue uses. -/
structure Sched (α : Type*) where
  /-- The ready queues. -/
  mlqReadyQueue : Prio → Queue α
  /-- The level that is served. -/
  currPrio : Prio
  /-- How many more processes this level may hand out. -/
  slotLeft : ℕ

namespace Sched

variable {α : Type*}

/-- `init_scheduler`: only the fill counts are assigned. -/
def initScheduler (s : Sched α) : Sched α :=
  { s with mlqReadyQueue := fun prio => Queue.cleared (s.mlqReadyQueue prio).proc }

/-- A scheduler after `init_scheduler`, with the initial values of the static variables. -/
def Initial (s : Sched α) : Prop :=
  ∃ s₀ : Sched α, s₀.currPrio = 0 ∧ s₀.slotLeft = maxPrio ∧ s = s₀.initScheduler

/-- The scheduler at the start of the program, with zero-initialised queues. -/
def fresh : Sched α := initScheduler ⟨fun _ => Queue.cleared fun _ => none, 0, maxPrio⟩

lemma initial_fresh : (fresh : Sched α).Initial := ⟨_, rfl, rfl, rfl⟩

/-- `(curr_prio + 1) % MAX_PRIO`. -/
def nextPrio (prio : Prio) : Prio := ⟨(prio + 1) % maxPrio, Nat.mod_lt _ (by decide)⟩

/-- Go on to the next level, with its full number of slots. -/
def advance (s : Sched α) : Sched α :=
  { s with
    currPrio := nextPrio s.currPrio
    slotLeft := maxPrio - nextPrio s.currPrio }

/-- Take a process from the queue of the current level. -/
def serve (s : Sched α) : Option α × Sched α :=
  let (proc, q) := (s.mlqReadyQueue s.currPrio).dequeue
  (proc, { s with
    mlqReadyQueue := Function.update s.mlqReadyQueue s.currPrio q
    slotLeft := s.slotLeft - 1 })

/-- The loop of `get_mlq_proc`, with the number of turns left. -/
def getLoop : ℕ → Sched α → Option α × Sched α
  | 0, s => (none, s)
  | n + 1, s =>
    if s.slotLeft = 0 ∨ (s.mlqReadyQueue s.currPrio).empty then getLoop n s.advance else s.serve

/-- `get_mlq_proc`, also `get_proc`. -/
def getMlqProc (s : Sched α) : Option α × Sched α :=
  getLoop maxPrio <|
    if s.slotLeft = 0 ∨ (s.mlqReadyQueue s.currPrio).empty then
      { s with currPrio := 0, slotLeft := maxPrio }
    else s

/-- `add_mlq_proc` and `put_mlq_proc`, which have the same body, also `add_proc` and `put_proc`:
enqueue a process at the level of its priority. -/
def putMlqProc (prio : α → Prio) (s : Sched α) (proc : α) : Sched α :=
  { s with
    mlqReadyQueue := Function.update s.mlqReadyQueue (prio proc)
      ((s.mlqReadyQueue (prio proc)).enqueue proc) }

/-! ## Levels as lists -/

/-- The processes that wait at a level, first one first. -/
def level (s : Sched α) (prio : Prio) : List α := (s.mlqReadyQueue prio).toList

@[simp] lemma level_initScheduler (s : Sched α) (prio : Prio) : s.initScheduler.level prio = [] :=
  Queue.toList_cleared _

/-- A process is appended to its level, or dropped if the level is full. -/
lemma level_putMlqProc (prio : α → Prio) (s : Sched α) (proc : α) (p : Prio) :
    (s.putMlqProc prio proc).level p =
      if p = prio proc ∧ (s.level p).length < maxQueueSize then s.level p ++ [proc]
      else s.level p := by
  unfold level putMlqProc
  by_cases hp : p = prio proc
  · subst hp
    simp only [Function.update_self]
    rw [Queue.toList_enqueue, Queue.length_toList]
    by_cases hfull : (s.mlqReadyQueue (prio proc)).size < maxQueueSize
    · simp [hfull, Nat.not_le.mpr hfull]
    · simp [hfull, Nat.not_lt.mp hfull]
  · simp [hp]

/-- The scheduler after the head of a level was handed out as the first of `slots`. -/
def afterServe (s : Sched α) (prio : Prio) (slots : ℕ) : Sched α where
  mlqReadyQueue := Function.update s.mlqReadyQueue prio (s.mlqReadyQueue prio).dequeue.2
  currPrio := prio
  slotLeft := slots - 1

/-- Serving a level takes the head of its list. -/
lemma level_afterServe {s : Sched α} {prio : Prio} {x : α} {xs : List α}
    (h : s.level prio = x :: xs) (slots : ℕ) (p : Prio) :
    (s.afterServe prio slots).level p = if p = prio then xs else s.level p := by
  unfold level afterServe
  by_cases hp : p = prio
  · subst hp
    simp [(Queue.dequeue_of_cons h).2]
  · simp [hp]

lemma serve_of_cons {s : Sched α} {x : α} {xs : List α} (h : s.level s.currPrio = x :: xs) :
    s.serve = (some x, s.afterServe s.currPrio s.slotLeft) := by
  obtain ⟨hx, -⟩ := Queue.dequeue_of_cons h
  simp [serve, afterServe, hx]

lemma empty_iff {s : Sched α} {prio : Prio} :
    (s.mlqReadyQueue prio).empty = true ↔ s.level prio = [] :=
  Queue.empty_iff

lemma getLoop_of_cons {s : Sched α} {x : α} {xs : List α} (hslot : s.slotLeft ≠ 0)
    (h : s.level s.currPrio = x :: xs) (n : ℕ) :
    getLoop (n + 1) s = (some x, s.afterServe s.currPrio s.slotLeft) := by
  rw [getLoop, if_neg (by simp [hslot, empty_iff, h]), serve_of_cons h]

lemma getLoop_of_nil {s : Sched α} (h : s.level s.currPrio = []) (n : ℕ) :
    getLoop (n + 1) s = getLoop n s.advance := by
  rw [getLoop, if_pos (.inr (empty_iff.mpr h))]

/-- The search of `get_mlq_proc`: with a full slot budget, the loop serves the first level from
the current one on that has a process, and after the last level it is back at level 0. -/
lemma getLoop_search (n : ℕ) (s : Sched α) (hslot : s.slotLeft = maxPrio - s.currPrio)
    (hn : s.currPrio + (n + 1) = maxPrio) :
    (∃ p x xs, s.level p = x :: xs ∧ (∀ q, s.currPrio ≤ q → q < p → s.level q = []) ∧
      getLoop (n + 1) s = (some x, s.afterServe p (maxPrio - p))) ∨
    ((∀ q, s.currPrio ≤ q → s.level q = []) ∧
      getLoop (n + 1) s = (none, { s with currPrio := 0, slotLeft := maxPrio })) := by
  induction n generalizing s with
  | zero =>
    cases hcurr : s.level s.currPrio with
    | cons x xs =>
      refine .inl ⟨s.currPrio, x, xs, hcurr, fun q hle hlt => absurd hlt (not_lt.mpr hle), ?_⟩
      rw [getLoop_of_cons (by omega) hcurr, hslot]
    | nil =>
      have hnext : nextPrio s.currPrio = 0 := by
        have hmod : (s.currPrio.val + 1) % maxPrio = 0 := by rw [hn, Nat.mod_self]
        exact Fin.ext hmod
      refine .inr ⟨fun q hle => ?_, ?_⟩
      · have hle := Fin.le_def.mp hle
        have hq : q = s.currPrio := Fin.ext (by omega)
        rw [hq, hcurr]
      · rw [getLoop_of_nil hcurr, getLoop, advance, hnext]
        rfl
  | succ n ih =>
    cases hcurr : s.level s.currPrio with
    | cons x xs =>
      refine .inl ⟨s.currPrio, x, xs, hcurr, fun q hle hlt => absurd hlt (not_lt.mpr hle), ?_⟩
      rw [getLoop_of_cons (by omega) hcurr, hslot]
    | nil =>
      have hnext : (s.advance.currPrio : ℕ) = s.currPrio + 1 := by
        simp only [advance, nextPrio]
        exact Nat.mod_eq_of_lt (by omega)
      have hsearch := ih s.advance rfl (by omega)
      -- what is empty from the next level on is empty from this level on
      have hextend : ∀ q, s.currPrio ≤ q → q = s.currPrio ∨ s.advance.currPrio ≤ q := by
        intro q hle
        rcases eq_or_lt_of_le hle with heq | hlt
        · exact .inl heq.symm
        · have hlt := Fin.lt_def.mp hlt
          exact .inr (Fin.le_def.mpr (by omega))
      rw [getLoop_of_nil hcurr]
      rcases hsearch with ⟨p, x, xs, hp, hbefore, hget⟩ | ⟨hempty, hget⟩
      · refine .inl ⟨p, x, xs, hp, fun q hle hlt => ?_, hget⟩
        rcases hextend q hle with rfl | hle
        · exact hcurr
        · exact hbefore q hle hlt
      · refine .inr ⟨fun q hle => ?_, hget⟩
        rcases hextend q hle with rfl | hle
        · exact hcurr
        · exact hempty q hle

/-- What `get_mlq_proc` does: serve on, or start over and serve the first level that has a
process, or find all queues empty. -/
lemma getMlqProc_cases (s : Sched α) :
    (∃ x xs, s.slotLeft ≠ 0 ∧ s.level s.currPrio = x :: xs ∧
      s.getMlqProc = (some x, s.afterServe s.currPrio s.slotLeft)) ∨
    (∃ p x xs, (s.slotLeft = 0 ∨ s.level s.currPrio = []) ∧ s.level p = x :: xs ∧
      (∀ q, q < p → s.level q = []) ∧
      s.getMlqProc = (some x, s.afterServe p (maxPrio - p))) ∨
    ((∀ q, s.level q = []) ∧
      s.getMlqProc = (none, { s with currPrio := 0, slotLeft := maxPrio })) := by
  unfold getMlqProc
  by_cases hstart : s.slotLeft = 0 ∨ (s.mlqReadyQueue s.currPrio).empty
  · rw [if_pos hstart]
    rw [empty_iff] at hstart
    have hsearch := getLoop_search (maxPrio - 1)
      { s with currPrio := 0, slotLeft := maxPrio } rfl rfl
    rcases hsearch with ⟨p, x, xs, hp, hbefore, hget⟩ | ⟨hempty, hget⟩
    · exact .inr (.inl ⟨p, x, xs, hstart, hp, fun q hlt => hbefore q (Fin.zero_le q) hlt, hget⟩)
    · exact .inr (.inr ⟨fun q => hempty q (Fin.zero_le q), hget⟩)
  · rw [if_neg hstart]
    rw [empty_iff, not_or] at hstart
    obtain ⟨x, xs, hcurr⟩ := List.exists_cons_of_ne_nil hstart.2
    exact .inl ⟨x, xs, hstart.1, hcurr, getLoop_of_cons hstart.1 hcurr _⟩

end Sched

end Ossim
