import Mathlib.Data.Nat.Notation
import Mathlib.Logic.Basic

/-!
# Labelled transition systems

A transition system has start states and steps that carry an action.  The file collects
the rules by which safety statements are proved about its runs:

* `LTS.Reachable`, the invariant rule `LTS.Reachable.invariant`, and `LTS.Reachable.mono`, which
  compares two systems;
* `LTS.restrict`, the same system where every step has to meet a condition on the state
  before it and on its action, and `LTS.Reachable.of_restrict`;
* `LTS.startIn`, the same system where the start state has to meet a condition;
* `LTS.Path`, finite runs between two given states, `LTS.Path.invariant`, and `LTS.Path.length_le`
  for steps that decrease a measure;
* `LTS.exec`, which runs a partial step function along a list of actions, and
  `LTS.exec_path`, which turns such an execution into a run;
* `LTS.Along`, a condition on each of several operations that make up one step, and its
  invariant rule `LTS.Along.foldl`.
-/

/-- A labelled transition system on states `S` with actions `A`. -/
structure LTS (S A : Type*) where
  /-- The states a run may start in. -/
  start : S → Prop
  /-- One step, labelled by the action that takes it. -/
  step : S → A → S → Prop

namespace LTS

variable {S A : Type*}

/-- The states that some finite run leads to. -/
inductive Reachable (T : LTS S A) : S → Prop
  | start {s : S} (hs : T.start s) : Reachable T s
  | step {s s' : S} {a : A} (hs : Reachable T s) (ht : T.step s a s') : Reachable T s'

/-- Invariant rule: what holds at the start and survives every step from a reachable state
holds of every reachable state. -/
theorem Reachable.invariant {T : LTS S A} {I : S → Prop} (hstart : ∀ s, T.start s → I s)
    (hstep : ∀ s a s', T.Reachable s → I s → T.step s a s' → I s') {s : S}
    (hs : T.Reachable s) : I s := by
  induction hs with
  | start h => exact hstart _ h
  | step hr ht ih => exact hstep _ _ _ hr ih ht

/-- Reachability in a system that may start and step as another one. -/
theorem Reachable.mono {T T' : LTS S A} (hstart : ∀ s, T.start s → T'.start s)
    (hstep : ∀ s a s', T.step s a s' → T'.step s a s') {s : S} (hs : T.Reachable s) :
    T'.Reachable s := by
  induction hs with
  | start h => exact .start (hstart _ h)
  | step _ ht ih => exact .step ih (hstep _ _ _ ht)

/-! ## Runs whose steps all meet a condition -/

/-- The system `T` where a step may only be taken if `ok` holds of the state before it and of
its action. -/
def restrict (T : LTS S A) (ok : S → A → Prop) : LTS S A where
  start := T.start
  step s a s' := T.step s a s' ∧ ok s a

/-- A state reached by steps that meet a condition is reachable. -/
theorem Reachable.of_restrict {T : LTS S A} {ok : S → A → Prop} {s : S}
    (hs : (T.restrict ok).Reachable s) : T.Reachable s := by
  refine Reachable.mono (fun s hs => ?_) (fun s a s' ht => ?_) hs
  · exact hs
  · exact ht.1

/-- Invariant rule for these runs. -/
theorem Reachable.invariant_restrict {T : LTS S A} {ok : S → A → Prop} {I : S → Prop}
    (hstart : ∀ s, T.start s → I s)
    (hstep : ∀ s a s', I s → T.step s a s' → ok s a → I s') {s : S}
    (hs : (T.restrict ok).Reachable s) : I s := by
  refine Reachable.invariant (T := T.restrict ok) hstart (fun s a s' _ hI ht => ?_) hs
  obtain ⟨ht, hok⟩ := ht
  exact hstep s a s' hI ht hok

/-- The system `T` where a run may only start in states that meet a condition. -/
def startIn (T : LTS S A) (P : S → Prop) : LTS S A where
  start s := T.start s ∧ P s
  step := T.step

/-! ## Finite runs -/

/-- `T.Path s as s'`: the actions `as`, taken in order, lead from `s` to `s'`. -/
inductive Path (T : LTS S A) : S → List A → S → Prop
  | nil (s : S) : Path T s [] s
  | cons {s t s' : S} {a : A} {as : List A} (ht : T.step s a t) (hp : Path T t as s') :
      Path T s (a :: as) s'

/-- A run from a reachable state ends in a reachable state. -/
theorem Path.reachable {T : LTS S A} {s s' : S} {as : List A} (hp : T.Path s as s')
    (hs : T.Reachable s) : T.Reachable s' := by
  induction hp with
  | nil => exact hs
  | cons ht _ ih => exact ih (.step hs ht)

/-- What survives every step holds at the end of a run that starts with it. -/
theorem Path.invariant {T : LTS S A} {I : S → Prop}
    (hstep : ∀ s a s', I s → T.step s a s' → I s') {s s' : S} {as : List A}
    (hp : T.Path s as s') (hs : I s) : I s' := by
  induction hp with
  | nil => exact hs
  | cons ht _ ih => exact ih (hstep _ _ _ hs ht)

/-- A run whose steps all decrease a measure is no longer than the measure at its start. -/
theorem Path.length_le {T : LTS S A} {I : S → Prop} (μ : S → ℕ)
    (hstep : ∀ s a s', I s → T.step s a s' → I s' ∧ μ s' < μ s) {s s' : S} {as : List A}
    (hp : T.Path s as s') (hs : I s) : as.length + μ s' ≤ μ s := by
  induction hp with
  | nil => exact Nat.le_of_eq (Nat.zero_add _)
  | cons ht _ ih =>
    obtain ⟨hI, hlt⟩ := hstep _ _ _ hs ht
    have hrest := ih hI
    rw [List.length_cons]
    omega

/-- Run a partial step function along a list of actions. -/
def exec (next : S → A → Option S) : S → List A → Option S
  | s, [] => some s
  | s, a :: as => (next s a).bind fun t => exec next t as

/-- An execution of the step function is a run of every system that allows its steps. -/
theorem exec_path {T : LTS S A} {next : S → A → Option S}
    (hnext : ∀ s a s', next s a = some s' → T.step s a s') {s s' : S} {as : List A}
    (h : exec next s as = some s') : T.Path s as s' := by
  induction as generalizing s with
  | nil =>
    obtain rfl : s = s' := Option.some.inj h
    exact .nil s
  | cons a as ih =>
    obtain ⟨t, ht, hrest⟩ := Option.bind_eq_some_iff.mp h
    exact .cons (hnext _ _ _ ht) (ih hrest)

/-- An execution that ends in a state with some property reaches such a state. -/
theorem exists_reachable_of_exec {T : LTS S A} (next : S → A → Option S)
    (hnext : ∀ s a s', next s a = some s' → T.step s a s') (P : S → Bool) {s : S} (as : List A)
    (hs : T.start s) (h : (exec next s as).any P = true) : ∃ s', T.Reachable s' ∧ P s' = true := by
  obtain ⟨s', hs', hP⟩ := Option.any_eq_true _ _ |>.mp h
  exact ⟨s', (exec_path hnext hs').reachable (.start hs), hP⟩

/-! ## Steps that consist of several operations -/

/-- `ok` holds of each of the operations, in the state in which `run` performs it. -/
def Along (run : S → A → S) (ok : S → A → Prop) : List A → S → Prop
  | [], _ => True
  | a :: as, s => ok s a ∧ Along run ok as (run s a)

/-- Invariant rule: what survives every operation that meets the condition survives all of them. -/
theorem Along.foldl {run : S → A → S} {ok : S → A → Prop} {I : S → Prop}
    (hstep : ∀ s a, I s → ok s a → I (run s a)) {as : List A} {s : S} (h : Along run ok as s)
    (hs : I s) : I (as.foldl run s) := by
  induction as generalizing s with
  | nil => exact hs
  | cons a as ih => exact ih h.2 (hstep s a hs h.1)

/-- Operations of which each meets the condition in every state. -/
theorem Along.of_forall {run : S → A → S} {ok : S → A → Prop} {as : List A}
    (h : ∀ a ∈ as, ∀ s, ok s a) (s : S) : Along run ok as s := by
  induction as generalizing s with
  | nil => trivial
  | cons a as ih =>
    exact ⟨h a List.mem_cons_self s, ih (fun b hb => h b (List.mem_cons_of_mem _ hb)) (run s a)⟩

end LTS
