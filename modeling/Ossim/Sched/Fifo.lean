import Ossim.Sched.Runs

/-!
# Dispatch order

`get_mlq_proc` with its static variables as the `int`s they are, so that every use of
`mlq_ready_queue[curr_prio]` may leave the array.  `Sched.toStatics` embeds the scheduler of
`Ossim.Sched.Mlq`, whose level is a priority by its type, and `getMlqProc_toStatics` says that the
embedding loses nothing: on these states the code stays within the array and does the same.

The runs record, for each level, which processes entered its queue and which left it, in order.
What left a queue together with what is in it is what entered it (`FifoRun.InOrder`), so the head
of a queue is the process that has been in it longest.
-/

namespace Ossim

variable {α : Type*}

/-- The static variables of `sched.c`, with the types they have there. -/
structure SchedStatics (α : Type*) where
  /-- The ready queues. -/
  mlqReadyQueue : Prio → Queue α
  /-- The level that is served. -/
  currPrio : ℤ
  /-- How many more processes this level may hand out. -/
  slotLeft : ℤ

namespace SchedStatics

/-- `init_scheduler` on queues with any contents, with the initial values of the other static
variables. -/
def initScheduler (mlqReadyQueue : Prio → Queue α) : SchedStatics α :=
  ⟨fun prio => Queue.cleared (mlqReadyQueue prio).proc, 0, maxPrio⟩

/-- `mlq_ready_queue[i]`: `none` for an index outside the array. -/
def queueAt (s : SchedStatics α) (i : ℤ) : Option (Queue α) :=
  if h : 0 ≤ i ∧ i < maxPrio then some (s.mlqReadyQueue ⟨i.toNat, by omega⟩) else none

/-- `slot_left == 0 || empty(&mlq_ready_queue[curr_prio])`. -/
def exhausted (s : SchedStatics α) : Option Bool :=
  if s.slotLeft = 0 then some true else (s.queueAt s.currPrio).map Queue.empty

/-- Go on to the next level, with its full number of slots. -/
def advance (s : SchedStatics α) : SchedStatics α :=
  let currPrio := (s.currPrio + 1).tmod maxPrio
  { s with currPrio := currPrio, slotLeft := maxPrio - currPrio }

/-- Take a process from the queue of the current level. -/
def serve (s : SchedStatics α) : Option (Option α × SchedStatics α) :=
  if h : 0 ≤ s.currPrio ∧ s.currPrio < maxPrio then
    let curr : Prio := ⟨s.currPrio.toNat, (Int.toNat_lt h.1).mpr h.2⟩
    let (proc, q) := (s.mlqReadyQueue curr).dequeue
    some (proc, { s with
      mlqReadyQueue := Function.update s.mlqReadyQueue curr q
      slotLeft := s.slotLeft - 1 })
  else none

/-- The loop of `get_mlq_proc`, with the number of turns left. -/
def getLoop : ℕ → SchedStatics α → Option (Option α × SchedStatics α)
  | 0, s => some (none, s)
  | n + 1, s => s.exhausted.bind fun b => if b then getLoop n s.advance else s.serve

/-- `get_mlq_proc`: `none` when it leaves the array, else what it returns and the variables. -/
def getMlqProc (s : SchedStatics α) : Option (Option α × SchedStatics α) :=
  s.exhausted.bind fun b =>
    getLoop maxPrio (if b then { s with currPrio := 0, slotLeft := maxPrio - 0 } else s)

/-- `add_mlq_proc` and `put_mlq_proc`. -/
def putMlqProc (prio : α → Prio) (s : SchedStatics α) (proc : α) : SchedStatics α :=
  { s with
    mlqReadyQueue := Function.update s.mlqReadyQueue (prio proc)
      ((s.mlqReadyQueue (prio proc)).enqueue proc) }

/-- The processes that wait at a level, first one first. -/
def level (s : SchedStatics α) (prio : Prio) : List α := (s.mlqReadyQueue prio).toList

end SchedStatics

/-! ## The scheduler with a priority as its level -/

namespace Sched

/-- The static variables of a scheduler. -/
def toStatics (s : Sched α) : SchedStatics α := ⟨s.mlqReadyQueue, (s.currPrio : ℕ), s.slotLeft⟩

@[simp] lemma level_toStatics (s : Sched α) (prio : Prio) :
    s.toStatics.level prio = s.level prio := rfl

lemma putMlqProc_toStatics (prio : α → Prio) (s : Sched α) (proc : α) :
    s.toStatics.putMlqProc prio proc = (s.putMlqProc prio proc).toStatics := rfl

@[simp] lemma currPrio_toStatics (s : Sched α) : s.toStatics.currPrio = (s.currPrio : ℕ) := rfl

@[simp] lemma slotLeft_toStatics (s : Sched α) : s.toStatics.slotLeft = s.slotLeft := rfl

/-- The current level is a priority. -/
lemma currPrio_mem (s : Sched α) :
    0 ≤ s.toStatics.currPrio ∧ s.toStatics.currPrio < maxPrio := by
  have hlt := s.currPrio.isLt
  constructor
  · exact Int.natCast_nonneg _
  · exact Int.ofNat_lt.mpr hlt

lemma exhausted_toStatics (s : Sched α) : s.toStatics.exhausted =
    some (decide (s.slotLeft = 0 ∨ (s.mlqReadyQueue s.currPrio).empty)) := by
  have hcurr := s.currPrio_mem
  by_cases hslot : s.slotLeft = 0
  · simp [SchedStatics.exhausted, toStatics, hslot]
  · have hint : s.toStatics.slotLeft ≠ 0 := fun h => hslot (Int.ofNat_eq_zero.mp h)
    rw [SchedStatics.exhausted, if_neg hint, SchedStatics.queueAt, dif_pos hcurr]
    simp [toStatics, hslot]

lemma advance_toStatics (s : Sched α) : s.toStatics.advance = s.advance.toStatics := by
  have hlevel : ((s.currPrio : ℕ) + 1 : ℤ).tmod maxPrio = (nextPrio s.currPrio : ℕ) := by
    rw [Int.tmod_eq_emod_of_nonneg (by omega)]
    rfl
  have hslots : ((maxPrio - nextPrio s.currPrio : ℕ) : ℤ) = maxPrio - (nextPrio s.currPrio : ℕ) :=
    Int.ofNat_sub (nextPrio s.currPrio).isLt.le
  unfold SchedStatics.advance advance toStatics
  simp only [hlevel, hslots]

lemma serve_toStatics (s : Sched α) (hslot : s.slotLeft ≠ 0) :
    s.toStatics.serve = some (s.serve.1, s.serve.2.toStatics) := by
  have hpred : ((s.slotLeft - 1 : ℕ) : ℤ) = s.slotLeft - 1 := by omega
  rw [SchedStatics.serve, dif_pos s.currPrio_mem]
  simp [serve, toStatics, hpred]

/-- The loop stays within the array. -/
lemma getLoop_toStatics (n : ℕ) (s : Sched α) :
    SchedStatics.getLoop n s.toStatics = some ((getLoop n s).1, (getLoop n s).2.toStatics) := by
  induction n generalizing s with
  | zero => rfl
  | succ n ih =>
    rw [SchedStatics.getLoop, exhausted_toStatics, Option.bind_some, getLoop]
    by_cases hstart : s.slotLeft = 0 ∨ (s.mlqReadyQueue s.currPrio).empty
    · rw [decide_eq_true hstart, if_pos rfl, if_pos hstart, advance_toStatics]
      exact ih s.advance
    · rw [decide_eq_false hstart, if_neg Bool.false_ne_true, if_neg hstart]
      exact serve_toStatics s fun hslot => hstart (.inl hslot)

/-- `get_mlq_proc` stays within the array. -/
lemma getMlqProc_toStatics (s : Sched α) :
    s.toStatics.getMlqProc = some (s.getMlqProc.1, s.getMlqProc.2.toStatics) := by
  rw [SchedStatics.getMlqProc, exhausted_toStatics, Option.bind_some, getMlqProc]
  by_cases hstart : s.slotLeft = 0 ∨ (s.mlqReadyQueue s.currPrio).empty
  · rw [decide_eq_true hstart, if_pos rfl, if_pos hstart]
    exact getLoop_toStatics maxPrio { s with currPrio := 0, slotLeft := maxPrio }
  · rw [decide_eq_false hstart, if_neg Bool.false_ne_true, if_neg hstart]
    exact getLoop_toStatics maxPrio s

/-- What `get_mlq_proc` does to the levels: it takes the head of one of them, or finds them
empty. -/
lemma level_getMlqProc (s : Sched α) :
    (∃ p x rest, s.getMlqProc.1 = some x ∧ s.level p = x :: rest ∧
      ∀ q, s.getMlqProc.2.level q = if q = p then rest else s.level q) ∨
    (s.getMlqProc.1 = none ∧ (∀ q, s.level q = []) ∧ ∀ q, s.getMlqProc.2.level q = []) := by
  rcases s.getMlqProc_cases with ⟨x, rest, -, hlevel, hget⟩ | ⟨p, x, rest, -, hlevel, -, hget⟩ |
    ⟨hempty, hget⟩
  · rw [hget]
    exact .inl ⟨s.currPrio, x, rest, rfl, hlevel, level_afterServe hlevel _⟩
  · rw [hget]
    exact .inl ⟨p, x, rest, rfl, hlevel, level_afterServe hlevel _⟩
  · rw [hget]
    exact .inr ⟨rfl, hempty, hempty⟩

/-- `get_mlq_proc` leaves the current level at most its slots. -/
lemma slotLeft_getMlqProc {s : Sched α} (h : s.slotLeft ≤ maxPrio - s.currPrio) :
    s.getMlqProc.2.slotLeft ≤ maxPrio - s.getMlqProc.2.currPrio := by
  rcases s.getMlqProc_cases with ⟨x, rest, -, -, hget⟩ | ⟨p, x, rest, -, -, -, hget⟩ | ⟨-, hget⟩
  · rw [hget]
    exact (Nat.sub_le _ _).trans h
  · rw [hget]
    exact Nat.sub_le _ _
  · rw [hget]
    exact le_rfl

end Sched

/-! ## Runs with their order -/

/-- A scheduler with the processes that entered and left each of its queues, in order. -/
structure FifoRun (α : Type*) where
  /-- The scheduler. -/
  sched : SchedStatics α
  /-- What `enqueue` stored at each level. -/
  entered : Prio → List α
  /-- What `get_proc` returned from each level. -/
  left : Prio → List α

namespace FifoRun

/-- Hand a process over. -/
def hand (prio : α → Prio) (w : FifoRun α) (proc : α) : FifoRun α where
  sched := w.sched.putMlqProc prio proc
  entered := fun p =>
    if p = prio proc ∧ (w.sched.level p).length < maxQueueSize then w.entered p ++ [proc]
    else w.entered p
  left := w.left

/-- The scheduler after it returned `proc`. -/
def take (prio : α → Prio) (w : FifoRun α) (proc : Option α) (sched : SchedStatics α) :
    FifoRun α where
  sched := sched
  entered := w.entered
  left := proc.elim w.left fun x p => if p = prio x then w.left p ++ [x] else w.left p

/-- The scheduler after a call; `none` when it leaves the array of queues. -/
def call (prio : α → Prio) (w : FifoRun α) : SchedCall α → Option (FifoRun α)
  | .addProc proc => some (w.hand prio proc)
  | .putProc proc => some (w.hand prio proc)
  | .getProc => w.sched.getMlqProc.map fun (proc, sched) => w.take prio proc sched

/-- The calls of the scheduler in any order, after `init_scheduler`. -/
def system (prio : α → Prio) : LTS (FifoRun α) (SchedCall α) where
  start w := (∃ mlqReadyQueue, w.sched = SchedStatics.initScheduler mlqReadyQueue) ∧
    w.entered = (fun _ => []) ∧ w.left = fun _ => []
  step w k w' := w.call prio k = some w'

/-- The invariant of the runs, for the scheduler `s` that stands behind the static variables. -/
structure InOrder (prio : α → Prio) (w : FifoRun α) (s : Sched α) : Prop where
  /-- The static variables are those of the scheduler. -/
  statics : w.sched = s.toStatics
  /-- The current level has at most its slots left. -/
  slots : s.slotLeft ≤ maxPrio - s.currPrio
  /-- A level has its priority's processes. -/
  sorted : ∀ p, ∀ x ∈ s.level p, prio x = p
  /-- What entered a queue has left it or is in it, in order. -/
  order : ∀ p, w.entered p = w.left p ++ s.level p

variable {prio : α → Prio} {w : FifoRun α} {s : Sched α}

lemma InOrder.hand (h : InOrder prio w s) (proc : α) :
    InOrder prio (w.hand prio proc) (s.putMlqProc prio proc) where
  statics := by
    unfold FifoRun.hand
    rw [h.statics]
    exact Sched.putMlqProc_toStatics prio s proc
  slots := h.slots
  sorted p x hx := by
    rw [Sched.level_putMlqProc] at hx
    split at hx
    · next hp =>
      rcases List.mem_append.mp hx with hx | hx
      · exact h.sorted p x hx
      · rw [List.mem_singleton.mp hx, hp.1]
    · exact h.sorted p x hx
  order p := by
    simp only [FifoRun.hand, h.statics, Sched.level_toStatics, Sched.level_putMlqProc]
    split
    · rw [h.order p, List.append_assoc]
    · exact h.order p

/-- The head of a level leaves its queue. -/
lemma InOrder.take (h : InOrder prio w s) :
    InOrder prio (w.take prio s.getMlqProc.1 s.getMlqProc.2.toStatics) s.getMlqProc.2 where
  statics := rfl
  slots := Sched.slotLeft_getMlqProc h.slots
  sorted p _ hx := h.sorted p _ (Sched.mem_level_of_getMlqProc hx)
  order p := by
    rcases s.level_getMlqProc with ⟨q, x, rest, hget, hlevel, hafter⟩ | ⟨hget, hempty, hafter⟩
    · have hx : prio x = q := h.sorted q x (hlevel ▸ List.mem_cons_self)
      simp only [FifoRun.take, hget, Option.elim, hx, hafter]
      split
      · next hp => rw [h.order p, hp, hlevel, List.append_assoc, List.singleton_append]
      · exact h.order p
    · simp only [FifoRun.take, hget, Option.elim, hafter]
      rw [h.order p, hempty]

lemma inOrder_call (h : InOrder prio w s) (k : SchedCall α) :
    ∃ w' s', w.call prio k = some w' ∧ InOrder prio w' s' := by
  cases k with
  | addProc proc => exact ⟨_, _, rfl, h.hand proc⟩
  | putProc proc => exact ⟨_, _, rfl, h.hand proc⟩
  | getProc =>
    refine ⟨_, _, ?_, h.take⟩
    rw [call, h.statics, Sched.getMlqProc_toStatics]
    rfl

lemma exists_inOrder (hw : (system prio).Reachable w) : ∃ s, InOrder prio w s := by
  refine hw.invariant (I := fun w => ∃ s, InOrder prio w s) (fun w h => ?_) fun w k w' _ h ht => ?_
  · obtain ⟨⟨mlqReadyQueue, hsched⟩, hentered, hleft⟩ := h
    refine ⟨Sched.initScheduler ⟨mlqReadyQueue, 0, maxPrio⟩, hsched, le_rfl, ?_, ?_⟩
    · intro p x hx
      simp at hx
    · intro p
      simp [hentered, hleft]
  · obtain ⟨s, hs⟩ := h
    obtain ⟨w'', s', hcall, hs'⟩ := inOrder_call hs k
    obtain rfl : w'' = w' := Option.some.inj (hcall.symm.trans ht)
    exact ⟨s', hs'⟩

/-- In every reachable state the current level is a priority with at most its slots left, and the
queues hold processes of their own priority.  `get_mlq_proc` returns no process if and only if all
queues are empty, and otherwise the process that entered its queue first among those in it; it
removes that one and leaves the rest of the queues as it is. -/
theorem getMlqProc_fifo (hw : (system prio).Reachable w) :
    (0 ≤ w.sched.currPrio ∧ w.sched.currPrio < maxPrio) ∧
    (0 ≤ w.sched.slotLeft ∧ w.sched.slotLeft ≤ maxPrio - w.sched.currPrio) ∧
    (∀ p, ∀ x ∈ w.sched.level p, prio x = p) ∧
    ∃ proc sched, w.sched.getMlqProc = some (proc, sched) ∧
      (proc = none ↔ ∀ p, w.sched.level p = []) ∧
      (proc = none → ∀ p, sched.level p = w.sched.level p) ∧
      ∀ x, proc = some x → ∃ rest, w.sched.level (prio x) = x :: rest ∧
        w.entered (prio x) = w.left (prio x) ++ x :: rest ∧
        ∀ p, sched.level p = if p = prio x then rest else w.sched.level p := by
  obtain ⟨s, h⟩ := exists_inOrder hw
  have hslots : ((maxPrio - s.currPrio : ℕ) : ℤ) = maxPrio - (s.currPrio : ℕ) :=
    Int.ofNat_sub s.currPrio.isLt.le
  rw [h.statics]
  refine ⟨s.currPrio_mem, ⟨Int.natCast_nonneg _, ?_⟩, h.sorted,
    _, _, s.getMlqProc_toStatics, ?_⟩
  · rw [Sched.slotLeft_toStatics, Sched.currPrio_toStatics, ← hslots]
    exact Int.ofNat_le.mpr h.slots
  · rcases s.level_getMlqProc with ⟨q, x, rest, hget, hlevel, hafter⟩ | ⟨hget, hempty, hafter⟩
    · have hx : prio x = q := h.sorted q x (hlevel ▸ List.mem_cons_self)
      refine ⟨⟨fun hnone => ?_, fun hempty => ?_⟩, fun hnone => ?_, fun y hy => ?_⟩
      · rw [hget] at hnone
        exact absurd hnone (by simp)
      · have := hempty q
        rw [Sched.level_toStatics, hlevel] at this
        exact absurd this (by simp)
      · rw [hget] at hnone
        exact absurd hnone (by simp)
      · obtain rfl : x = y := Option.some.inj (hget.symm.trans hy)
        rw [hx]
        refine ⟨rest, hlevel, ?_, hafter⟩
        rw [h.order q, hlevel]
    · refine ⟨⟨fun _ => hempty, fun _ => hget⟩, fun _ p => ?_, fun y hy => ?_⟩
      · rw [Sched.level_toStatics, Sched.level_toStatics, hafter, hempty]
      · rw [hget] at hy
        exact absurd hy (by simp)

/-- A run with empty queues. -/
def fresh : FifoRun α := ⟨SchedStatics.initScheduler fun _ => Queue.cleared fun _ => none,
  fun _ => [], fun _ => []⟩

/-- After two processes of level 3 were added and one was returned, the other one is next. -/
theorem getMlqProc_fifo_two :
    ∃ w : FifoRun Bool, (system fun _ => 3).Reachable w ∧ w.sched.level 3 = [false] ∧
      ∃ proc sched, w.sched.getMlqProc = some (proc, sched) ∧
        (proc = none ↔ ∀ p, w.sched.level p = []) := by
  obtain ⟨w, hw, hlevel⟩ := LTS.exists_reachable_of_exec (T := system fun _ : Bool => 3)
    (fun w k => w.call (fun _ => 3) k) (fun w k w' h => h)
    (fun w => w.sched.level 3 = [false])
    [.addProc true, .addProc false, .getProc] (s := fresh) ⟨⟨_, rfl⟩, rfl, rfl⟩
    (by decide +kernel)
  obtain ⟨-, -, -, proc, sched, hget, hnone, -⟩ := getMlqProc_fifo hw
  exact ⟨w, hw, of_decide_eq_true hlevel, proc, sched, hget, hnone⟩

end FifoRun

end Ossim
