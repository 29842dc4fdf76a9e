import Mathlib.Data.List.Nodup
import Mathlib.Data.Set.Basic
import Mathlib.Logic.Function.Basic

/-!
# Exclusive ownership

Owners hold at most one resource each, and a pool lists the resources that nobody holds.
`Exclusive own pool` says that no resource is held twice, that none is listed twice, and that
none is both held and listed.  The rules follow the life of a resource: it is taken from the
pool by `Exclusive.assign`, given up by `Exclusive.release`, and given back to the pool by
`Exclusive.reclaim`, which asks that nobody else holds it.

`stock own pool` is the set of all resources that are held or listed.  The same steps add nothing to
it; they lose nothing as long as an owner that takes or gives up a resource held nothing else.
`Keeps lossless` states both, the second under the proposition `lossless`.
-/

/-- Each resource is held by one owner, or listed once in the pool, or neither. -/
structure Exclusive {A R : Type*} (own : A → Option R) (pool : List R) : Prop where
  /-- No resource has two owners. -/
  inj : ∀ a b r, own a = some r → own b = some r → a = b
  /-- No resource is listed twice. -/
  nodup : pool.Nodup
  /-- No resource is held and listed. -/
  free : ∀ a r, own a = some r → r ∉ pool

namespace Exclusive

variable {A R : Type*} {own : A → Option R} {pool : List R}

/-- Nobody holds anything. -/
theorem of_pool (hpool : pool.Nodup) : Exclusive (fun _ : A => none) pool :=
  ⟨fun _ _ _ h => (by cases h), hpool, fun _ _ h => (by cases h)⟩

/-- The order of the pool does not matter. -/
theorem perm {pool' : List R} (h : Exclusive own pool) (hperm : pool.Perm pool') :
    Exclusive own pool' :=
  ⟨h.inj, hperm.nodup_iff.mp h.nodup, fun a r hr hmem => h.free a r hr (hperm.mem_iff.mpr hmem)⟩

/-- Resources of the pool may get lost. -/
theorem sublist {pool' : List R} (h : Exclusive own pool) (hsub : pool'.Sublist pool) :
    Exclusive own pool' :=
  ⟨h.inj, h.nodup.sublist hsub, fun a r hr hmem => h.free a r hr (hsub.mem hmem)⟩

variable [DecidableEq A]

/-- An owner takes a resource from the pool, in place of what it held before. -/
theorem assign {r : R} (h : Exclusive own (r :: pool)) (a : A) :
    Exclusive (Function.update own a (some r)) pool := by
  obtain ⟨hr, hpool⟩ := List.nodup_cons.mp h.nodup
  have hheld : ∀ b s, Function.update own a (some r) b = some s →
      b = a ∧ s = r ∨ b ≠ a ∧ own b = some s ∧ s ≠ r := by
    intro b s hs
    by_cases hb : b = a
    · subst hb
      rw [Function.update_self] at hs
      exact .inl ⟨rfl, (Option.some.inj hs).symm⟩
    · rw [Function.update_of_ne hb] at hs
      refine .inr ⟨hb, hs, fun hsr => ?_⟩
      exact h.free b s hs (hsr ▸ List.mem_cons_self)
  refine ⟨?_, hpool, ?_⟩
  · intro b c s hb hc
    rcases hheld b s hb with ⟨rfl, rfl⟩ | ⟨-, hb, hbr⟩ <;>
      rcases hheld c s hc with ⟨rfl, hcr⟩ | ⟨-, hc, hcr⟩
    · rfl
    · exact absurd rfl hcr
    · exact absurd hcr hbr
    · exact h.inj b c s hb hc
  · intro b s hs hmem
    rcases hheld b s hs with ⟨-, rfl⟩ | ⟨-, hb, -⟩
    · exact hr hmem
    · exact h.free b s hb (List.mem_cons_of_mem r hmem)

/-- An owner gives up what it holds. -/
theorem release (h : Exclusive own pool) (a : A) : Exclusive (Function.update own a none) pool := by
  have hheld : ∀ b s, Function.update own a none b = some s → own b = some s := by
    intro b s hs
    by_cases hb : b = a
    · subst hb
      simp at hs
    · rwa [Function.update_of_ne hb] at hs
  exact ⟨fun b c s hb hc => h.inj b c s (hheld b s hb) (hheld c s hc), h.nodup,
    fun b s hs => h.free b s (hheld b s hs)⟩

/-- An owner gives up what it holds and a resource, its own or one that nobody has, is added to
the pool. -/
theorem reclaim (h : Exclusive own pool) {a : A} {r : R} (honly : ∀ b, b ≠ a → own b ≠ some r)
    (hpool : r ∉ pool) : Exclusive (Function.update own a none) (r :: pool) := by
  refine ⟨(h.release a).inj, List.nodup_cons.mpr ⟨hpool, h.nodup⟩, fun b s hs hmem => ?_⟩
  rcases List.mem_cons.mp hmem with rfl | hmem
  · by_cases hb : b = a
    · subst hb
      simp at hs
    · rw [Function.update_of_ne hb] at hs
      exact honly b hb hs
  · exact (h.release a).free b s hs hmem

end Exclusive

/-! ## Stocks -/

/-- The resources that are held or listed. -/
def stock {A R : Type*} (own : A → Option R) (pool : List R) : Set R :=
  {r | r ∈ pool ∨ ∃ a, own a = some r}

/-- From `X` to `Y` nothing is added, and nothing is lost if `lossless` holds. -/
structure Keeps {R : Type*} (lossless : Prop) (X Y : Set R) : Prop where
  /-- Nothing is added. -/
  sound : Y ⊆ X
  /-- Nothing is lost. -/
  complete : lossless → X ⊆ Y

namespace Keeps

variable {R : Type*} {lossless : Prop} {X Y Z : Set R}

theorem refl (X : Set R) : Keeps lossless X X := ⟨subset_rfl, fun _ => subset_rfl⟩

theorem of_eq (h : Y = X) : Keeps lossless X Y := by
  rw [h]
  exact refl X

theorem trans (h : Keeps lossless X Y) (h' : Keeps lossless Y Z) : Keeps lossless X Z :=
  ⟨h'.sound.trans h.sound, fun hl => (h.complete hl).trans (h'.complete hl)⟩

variable {A : Type*} {own : A → Option R} {pool : List R}

/-- The order of the pool does not matter. -/
theorem perm {pool' : List R} (h : pool.Perm pool') :
    Keeps lossless (stock own pool) (stock own pool') := by
  refine of_eq ?_
  ext r
  exact or_congr_left h.mem_iff.symm

/-- Resources of the pool get lost. -/
theorem sublist {pool' : List R} (h : pool'.Sublist pool) (hsame : lossless → pool' = pool) :
    Keeps lossless (stock own pool) (stock own pool') :=
  ⟨fun _ hr => hr.imp_left fun hmem => h.mem hmem, fun hl => by rw [hsame hl]⟩

variable [DecidableEq A]

/-- An owner takes a resource from the pool; nothing is lost if it had none. -/
theorem assign {a : A} {r : R} (hnone : lossless → own a = none) :
    Keeps lossless (stock own (r :: pool)) (stock (Function.update own a (some r)) pool) := by
  refine ⟨?_, fun hl => ?_⟩
  · rintro x (hx | ⟨b, hb⟩)
    · exact .inl (List.mem_cons_of_mem r hx)
    · by_cases hba : b = a
      · subst hba
        rw [Function.update_self] at hb
        exact .inl (Option.some.inj hb ▸ List.mem_cons_self)
      · rw [Function.update_of_ne hba] at hb
        exact .inr ⟨b, hb⟩
  · rintro x (hx | ⟨b, hb⟩)
    · rcases List.mem_cons.mp hx with rfl | hx
      · exact .inr ⟨a, Function.update_self _ _ _⟩
      · exact .inl hx
    · have hba : b ≠ a := by
        rintro rfl
        rw [hnone hl] at hb
        cases hb
      exact .inr ⟨b, by rw [Function.update_of_ne hba, hb]⟩

/-- An owner gives up what it holds; nothing is lost if that is nothing. -/
theorem release {a : A} (hnone : lossless → own a = none) :
    Keeps lossless (stock own pool) (stock (Function.update own a none) pool) := by
  refine ⟨?_, fun hl => ?_⟩
  · rintro x (hx | ⟨b, hb⟩)
    · exact .inl hx
    · by_cases hba : b = a
      · subst hba
        simp at hb
      · rw [Function.update_of_ne hba] at hb
        exact .inr ⟨b, hb⟩
  · rw [← hnone hl, Function.update_eq_self]

/-- An owner gives the resource it holds back to the pool. -/
theorem reclaim {a : A} {r : R} (hheld : own a = some r) :
    Keeps lossless (stock own pool) (stock (Function.update own a none) (r :: pool)) := by
  refine of_eq ?_
  ext x
  constructor
  · rintro (hx | ⟨b, hb⟩)
    · rcases List.mem_cons.mp hx with rfl | hx
      · exact .inr ⟨a, hheld⟩
      · exact .inl hx
    · by_cases hba : b = a
      · subst hba
        simp at hb
      · rw [Function.update_of_ne hba] at hb
        exact .inr ⟨b, hb⟩
  · rintro (hx | ⟨b, hb⟩)
    · exact .inl (List.mem_cons_of_mem r hx)
    · by_cases hba : b = a
      · subst hba
        exact .inl (Option.some.inj (hheld.symm.trans hb) ▸ List.mem_cons_self)
      · exact .inr ⟨b, by rw [Function.update_of_ne hba, hb]⟩

end Keeps
