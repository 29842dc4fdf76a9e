import Mathlib.Data.Set.Function
import Ossim.Lib.Transition

/-!
# Where a memory is written

A system has a memory, and a set of cells that may still be written.  `WritesInside w mem s s'` says
that between two states only such cells were written, and that no cells joined them.  The relation
is reflexive and transitive, so that it holds along a run if it holds for each of its steps
(`LTS.Path.writesInside`): a cell that may not be written keeps its content for ever.
-/

/-- Only cells of `w s` were written, and those of `w s'` are among them. -/
structure WritesInside {S C B : Type*} (w : S → Set C) (mem : S → C → B) (s s' : S) : Prop where
  /-- The cells that may be written from then on. -/
  shrinks : w s' ⊆ w s
  /-- The other cells. -/
  others : Set.EqOn (mem s') (mem s) (w s)ᶜ

namespace WritesInside

variable {S C B : Type*} {w : S → Set C} {mem : S → C → B} {s t s' : S}

theorem refl (s : S) : WritesInside w mem s s := ⟨subset_rfl, Set.eqOn_refl _ _⟩

theorem trans (h : WritesInside w mem s t) (h' : WritesInside w mem t s') :
    WritesInside w mem s s' where
  shrinks := h'.shrinks.trans h.shrinks
  others := (h'.others.mono (Set.compl_subset_compl.mpr h.shrinks)).trans h.others

/-- Nothing was written. -/
theorem of_eq (hw : w s' ⊆ w s) (hmem : mem s' = mem s) : WritesInside w mem s s' :=
  ⟨hw, fun c _ => congrFun hmem c⟩

/-- Operations one after the other, each of which keeps to the cells. -/
theorem foldl {A : Type*} {run : S → A → S} {as : List A}
    (h : ∀ a ∈ as, ∀ s, WritesInside w mem s (run s a)) (s : S) :
    WritesInside w mem s (as.foldl run s) := by
  induction as generalizing s with
  | nil => exact refl s
  | cons a as ih =>
    have hfirst := h a List.mem_cons_self s
    exact hfirst.trans (ih (fun b hb => h b (List.mem_cons_of_mem _ hb)) (run s a))

end WritesInside

/-- Runs keep to the cells if steps do. -/
theorem LTS.Path.writesInside {S A C B : Type*} {T : LTS S A} {w : S → Set C} {mem : S → C → B}
    (hstep : ∀ s a s', T.step s a s' → WritesInside w mem s s') {s s' : S} {as : List A}
    (hp : T.Path s as s') : WritesInside w mem s s' := by
  induction hp with
  | nil s => exact .refl s
  | cons ht _ ih => exact (hstep _ _ _ ht).trans ih
