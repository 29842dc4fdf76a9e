import Mathlib.Data.List.Basic
import Mathlib.Logic.Function.Basic

/-!
# The array queue

`struct queue_t` and the functions of `src/queue.c`.  A queue is an array of process pointers
with a fill count; `dequeue` takes the first cell and shifts the others down.

`Queue` carries what its functions rely on: the fill count stays within the array, and the
filled cells hold processes.  `Queue.toList` is the queue as the list of its
processes, and the functions are described by what they do to that list: `enqueue`
appends unless the array is full, in which case the process is dropped, and `dequeue` takes the
head.
-/

namespace Ossim

/-- `MAX_QUEUE_SIZE`. -/
abbrev maxQueueSize : ℕ := 10

/-- `struct queue_t`, with `none` for `NULL`. -/
structure Queue (α : Type*) where
  /-- The array. -/
  proc : ℕ → Option α
  /-- The fill count. -/
  size : ℕ
  /-- The fill count stays within the array. -/
  size_le : size ≤ maxQueueSize
  /-- Filled cells hold processes. -/
  occupied : ∀ i, i < size → (proc i).isSome

namespace Queue

variable {α : Type*}

/-- A queue with fill count zero, whatever its cells hold. -/
def cleared (proc : ℕ → Option α) : Queue α :=
  ⟨proc, 0, Nat.zero_le _, fun _ h => absurd h (by simp)⟩

/-- `empty`. -/
def empty (q : Queue α) : Bool := q.size == 0

/-- `enqueue`. -/
def enqueue (q : Queue α) (proc : α) : Queue α :=
  if h : q.size ≥ maxQueueSize then q
  else
    { proc := Function.update q.proc q.size (some proc)
      size := q.size + 1
      size_le := by omega
      occupied := by
        intro i hi
        by_cases hlast : i = q.size
        · subst hlast
          simp
        · rw [Function.update_of_ne hlast]
          exact q.occupied i (by omega) }

/-- The array after `n` turns of the loop of `dequeue`. -/
def shiftLoop (proc : ℕ → Option α) : ℕ → ℕ → Option α
  | 0 => proc
  | n + 1 => Function.update (shiftLoop proc n) n (shiftLoop proc n (n + 1))

/-- The loop moves the cells behind the first ones down by one. -/
lemma shiftLoop_apply (proc : ℕ → Option α) (n i : ℕ) :
    shiftLoop proc n i = if i < n then proc (i + 1) else proc i := by
  induction n generalizing i with
  | zero => simp [shiftLoop]
  | succ n ih =>
    by_cases hi : i = n
    · subst hi
      rw [shiftLoop, Function.update_self, ih, if_neg (by omega), if_pos (by omega)]
    · rw [shiftLoop, Function.update_of_ne hi, ih]
      have hlt : i < n ↔ i < n + 1 := by omega
      simp only [hlt]

/-- `dequeue`. -/
def dequeue (q : Queue α) : Option α × Queue α :=
  if q.empty then (none, q)
  else
    (q.proc 0,
      { proc := Function.update (shiftLoop q.proc (q.size - 1)) (q.size - 1) none
        size := q.size - 1
        size_le := Nat.le_trans (Nat.sub_le _ _) q.size_le
        occupied := by
          intro i hi
          rw [Function.update_of_ne (by omega), shiftLoop_apply, if_pos hi]
          exact q.occupied (i + 1) (by omega) })

/-! ## The queue as a list -/

/-- The processes in the queue, first one first. -/
def toList (q : Queue α) : List α := (List.range q.size).filterMap q.proc

@[simp] lemma toList_cleared (proc : ℕ → Option α) : (cleared proc).toList = [] := rfl

/-- A prefix of the array lists as many processes as it has cells. -/
lemma length_filterMap_range {proc : ℕ → Option α} {n : ℕ}
    (h : ∀ i, i < n → (proc i).isSome) : ((List.range n).filterMap proc).length = n := by
  rw [List.length_filterMap_eq_countP, List.countP_eq_length.mpr, List.length_range]
  intro i hi
  exact h i (List.mem_range.mp hi)

@[simp] lemma length_toList (q : Queue α) : q.toList.length = q.size :=
  length_filterMap_range q.occupied

lemma empty_iff {q : Queue α} : q.empty = true ↔ q.toList = [] := by
  rw [← List.length_eq_zero_iff, length_toList]
  simp [empty]

/-- `enqueue` appends the process, or drops it when the array is full. -/
lemma toList_enqueue (q : Queue α) (proc : α) :
    (q.enqueue proc).toList =
      if q.size ≥ maxQueueSize then q.toList else q.toList ++ [proc] := by
  unfold enqueue
  split
  · rfl
  · have hkeep : (List.range q.size).filterMap (Function.update q.proc q.size (some proc)) =
        q.toList := by
      refine List.filterMap_congr fun i hi => ?_
      exact Function.update_of_ne (Nat.ne_of_lt (List.mem_range.mp hi)) _ _
    simp [toList, List.range_succ, hkeep]

/-- `dequeue` takes the head of the list. -/
lemma dequeue_of_cons {q : Queue α} {x : α} {xs : List α} (h : q.toList = x :: xs) :
    q.dequeue.1 = some x ∧ q.dequeue.2.toList = xs := by
  have hsize : q.size = xs.length + 1 := by rw [← length_toList, h, List.length_cons]
  have hempty : q.empty = false := by simp [empty, hsize]
  have hcells : q.toList = (q.proc 0).toList ++
      (List.range xs.length).filterMap fun i => q.proc (i + 1) := by
    rw [toList, hsize, List.range_succ_eq_map, List.filterMap_cons, List.filterMap_map]
    cases q.proc 0 <;> rfl
  obtain ⟨y, hy⟩ := Option.isSome_iff_exists.mp (q.occupied 0 (by omega))
  rw [h, hy] at hcells
  obtain ⟨rfl, hxs⟩ := List.cons.inj hcells
  have hcell : ∀ i, i < xs.length → q.dequeue.2.proc i = q.proc (i + 1) := by
    intro i hi
    simp only [dequeue, hempty, hsize, Nat.add_sub_cancel, Bool.false_eq_true, if_false]
    rw [Function.update_of_ne (Nat.ne_of_lt hi), shiftLoop_apply, if_pos hi]
  have hrest : q.dequeue.2.size = xs.length := by simp [dequeue, hempty, hsize]
  refine ⟨by simp [dequeue, hempty, hy], ?_⟩
  rw [toList, hrest]
  refine Eq.trans (List.filterMap_congr fun i hi => ?_) hxs.symm
  exact hcell i (List.mem_range.mp hi)

end Queue

end Ossim
