import Mathlib.Data.Nat.Notation
import Mathlib.Logic.Function.Basic

/-!
# Copying cells one after the other

`copyCells src dst n m` is the memory `m` after the cells `src 0 .. src (n - 1)` were copied to the
cells `dst 0 .. dst (n - 1)`, one after the other.  A cell outside the destination stays as it is.
When no cell is written twice and none is read after it was written, each cell of the destination
ends with what the source held at first; the two ranges may otherwise overlap.
-/

variable {A β : Type*} [DecidableEq A]

/-- The memory after `n` cells were copied. -/
def copyCells (src dst : ℕ → A) : ℕ → (A → β) → A → β
  | 0, m => m
  | n + 1, m => Function.update (copyCells src dst n m) (dst n) (copyCells src dst n m (src n))

variable {src dst : ℕ → A} {n : ℕ} {m : A → β}

/-- A cell outside the destination. -/
theorem copyCells_of_ne {a : A} (h : ∀ i, i < n → a ≠ dst i) : copyCells src dst n m a = m a := by
  induction n with
  | zero => rfl
  | succ n ih =>
    rw [copyCells, Function.update_of_ne (h n (Nat.lt_succ_self n))]
    exact ih fun i hi => h i (Nat.lt_succ_of_lt hi)

/-- A cell of the destination. -/
theorem copyCells_dst (hwrite : ∀ i j, i < j → j < n → dst i ≠ dst j)
    (hread : ∀ i j, i < j → j < n → src j ≠ dst i) {i : ℕ} (hi : i < n) :
    copyCells src dst n m (dst i) = m (src i) := by
  induction n with
  | zero => exact absurd hi (Nat.not_lt_zero i)
  | succ n ih =>
    rw [copyCells]
    rcases Nat.lt_succ_iff_lt_or_eq.mp hi with hlt | rfl
    · rw [Function.update_of_ne (hwrite i n hlt (Nat.lt_succ_self n))]
      exact ih (fun i j hij hj => hwrite i j hij (Nat.lt_succ_of_lt hj))
        (fun i j hij hj => hread i j hij (Nat.lt_succ_of_lt hj)) hlt
    · -- the source cell was not written by the turns before
      rw [Function.update_self]
      exact copyCells_of_ne fun j hj => hread j i hj (Nat.lt_succ_self i)
