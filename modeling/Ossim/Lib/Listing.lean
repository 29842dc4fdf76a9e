import Mathlib.Data.List.Basic

/-!
# Lists of the elements of a set

`Enumerates l p`: the list holds each element with property `p` exactly once, and no other.  The
rules say when that survives the operations of a queue: putting an element in front, and taking the
last one off.
-/

/-- The list holds exactly the elements with a property, each of them once. -/
structure Enumerates {α : Type*} (l : List α) (p : α → Prop) : Prop where
  /-- No element is on the list twice. -/
  nodup : l.Nodup
  /-- The elements on the list. -/
  mem_iff : ∀ a, a ∈ l ↔ p a

namespace Enumerates

variable {α : Type*} {l : List α} {p q : α → Prop} {a : α}

lemma of_empty (h : ∀ a, ¬ p a) : Enumerates [] p :=
  ⟨List.nodup_nil, fun a => iff_of_false List.not_mem_nil (h a)⟩

/-- Putting an element in front that was not on the list. -/
lemma cons (h : Enumerates l p) (ha : a ∉ l) (hq : ∀ b, q b ↔ b = a ∨ p b) :
    Enumerates (a :: l) q where
  nodup := List.nodup_cons.mpr ⟨ha, h.nodup⟩
  mem_iff b := by rw [List.mem_cons, h.mem_iff, hq]

/-- Taking the last element off. -/
lemma of_concat (h : Enumerates (l ++ [a]) p) (hq : ∀ b, q b ↔ p b ∧ b ≠ a) : Enumerates l q := by
  have hnodup := List.nodup_append.mp h.nodup
  refine ⟨hnodup.1, fun b => ?_⟩
  rw [hq, ← h.mem_iff, List.mem_append, List.mem_singleton]
  constructor
  · intro hb
    exact ⟨.inl hb, hnodup.2.2 b hb a (List.mem_singleton_self a)⟩
  · rintro ⟨hb | hb, hne⟩
    · exact hb
    · exact absurd hb hne

end Enumerates
