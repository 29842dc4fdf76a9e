import Ossim.Lib.Transition
import Mathlib.Logic.Function.Basic

/-!
# Contents behind an address translation

A memory holds values in cells, and a partial translation sends the addresses its users know to
cells.  `Mirrors tr mem held` says that the memory shows, through the translation, the values
that the users expect: where `held a b` records that `b` is expected at the address `a`, the cell
of `a` contains `b`.  Addresses without a cell promise nothing.

The rules below say what keeps this: dropping expectations or cells, and storing a value in a
cell that no other expected address is translated to.

`cellMemory C B` is the memory itself, as a transition system of loads and stores.  A system whose
steps load from and store into cells of its own memory shows runs of this one (`LTS.Path.cells`).
-/

/-- The memory shows, at every translated address, the value expected there. -/
def Mirrors {A B C : Type*} (tr : A → Option C) (mem : C → B) (held : A → B → Prop) : Prop :=
  ∀ a b c, held a b → tr a = some c → mem c = b

namespace Mirrors

variable {A B C : Type*} {tr tr' : A → Option C} {mem : C → B} {held held' : A → B → Prop}

/-- Nothing is expected, so nothing can be wrong. -/
theorem of_empty (h : ∀ a b, ¬ held a b) : Mirrors tr mem held :=
  fun a b _ hheld _ => absurd hheld (h a b)

/-- Expectations may be dropped, and addresses that are still expected may lose their cell. -/
theorem mono (h : Mirrors tr mem held) (hheld : ∀ a b, held' a b → held a b)
    (htr : ∀ a b c, held' a b → tr' a = some c → tr a = some c) : Mirrors tr' mem held' :=
  fun a b c hb hc => h a b c (hheld a b hb) (htr a b c hb hc)

/-- Storing a value at the cell of an address: the value is expected there from now on, and no
other expected address may share the cell. -/
theorem write [DecidableEq C] (h : Mirrors tr mem held) {a : A} {b : B} {c : C}
    (ha : tr a = some c) (hfresh : ∀ a' b', a' ≠ a → held a' b' → tr a' ≠ some c)
    (hnew : ∀ b', held' a b' → b' = b)
    (hold : ∀ a' b', a' ≠ a → held' a' b' → held a' b') :
    Mirrors tr (Function.update mem c b) held' := by
  intro a' b' c' hb' hc'
  by_cases haa : a' = a
  · subst haa
    obtain rfl : c = c' := Option.some.inj (ha.symm.trans hc')
    rw [Function.update_self, hnew b' hb']
  · have hb := hold a' b' haa hb'
    have hne : c' ≠ c := by
      rintro rfl
      exact hfresh a' b' haa hb hc'
    rw [Function.update_of_ne hne]
    exact h a' b' c' hb hc'

end Mirrors

/-! ## The memory as a system -/

/-- An access to a memory with cells `C` that hold values `B`. -/
inductive MemAct (C B : Type*)
  /-- A load, with what it delivers. -/
  | load (cell : C) (value : Option B)
  /-- A store. -/
  | store (cell : C) (value : B)
  deriving DecidableEq

/-- What an access does to a larger memory `D`, in which the cells lie at some places: a store
changes one cell, and a load delivers what its cell contains. -/
def MemAct.Effect {C D B : Type*} [DecidableEq D] (place : C → D) (mem mem' : D → B) :
    MemAct C B → Prop
  | .load cell value => value = some (mem (place cell)) ∧ mem' = mem
  | .store cell value => mem' = Function.update mem (place cell) value

/-- A memory with cells `C`. -/
def cellMemory (C B : Type*) [DecidableEq C] : LTS (C → B) (MemAct C B) where
  start _ := True
  step mem a mem' := a.Effect id mem mem'

/-- If every step does to a memory what the access does that it shows, the runs show runs of its
cells, and the rest of the memory stays as it is. -/
theorem LTS.Path.cells {S A C D B : Type*} [DecidableEq C] [DecidableEq D] {T : LTS S A}
    {obs : A → Option (MemAct C B)} (mem : S → D → B) {place : C → D}
    (hplace : Function.Injective place) {I : S → Prop}
    (hstep : ∀ s a s', I s → T.step s a s' → I s')
    (hsilent : ∀ s a s', I s → T.step s a s' → obs a = none → mem s' = mem s)
    (hshown : ∀ s a s' e, I s → T.step s a s' → obs a = some e →
      e.Effect place (mem s) (mem s'))
    {s s' : S} {as : List A} (hp : T.Path s as s') (hs : I s) :
    (cellMemory C B).Path (mem s ∘ place) (as.filterMap obs) (mem s' ∘ place) ∧
      ∀ d, (∀ c, d ≠ place c) → mem s' d = mem s d := by
  induction hp with
  | nil s => exact ⟨.nil _, fun d _ => rfl⟩
  | @cons s t s' a as ht _ ih =>
    obtain ⟨hrest, hother⟩ := ih (hstep _ _ _ hs ht)
    rw [List.filterMap_cons]
    cases hobs : obs a with
    | none =>
      have hsame := hsilent _ _ _ hs ht hobs
      exact ⟨by rwa [← hsame], fun d hd => by rw [hother d hd, hsame]⟩
    | some e =>
      have heffect := hshown _ _ _ e hs ht hobs
      cases e with
      | load c value =>
        obtain ⟨hvalue, hsame⟩ := heffect
        exact ⟨.cons ⟨hvalue, by rw [hsame]⟩ hrest, fun d hd => by rw [hother d hd, hsame]⟩
      | store c value =>
        have hstore : mem t = Function.update (mem s) (place c) value := heffect
        refine ⟨.cons ?_ hrest, fun d hd => ?_⟩
        · show mem t ∘ place = Function.update (mem s ∘ place) c value
          rw [hstore]
          exact Function.update_comp_eq_of_injective _ hplace c value
        · rw [hother d hd, hstore, Function.update_of_ne (hd c)]
