import Mathlib.Data.List.Perm.Basic
import Mathlib.Order.MinMax
import Mathlib.Tactic.Common

/-!
# Intervals that tile a range

`Span` is a half-open interval, `cover spans a` the number of the listed intervals that contain
the point `a`.  A list of intervals tiles a range if each point of the range lies in exactly one
of them and no other point lies in any (`Tiles`).  Cutting an interval in two, dropping an empty one
and reordering the list keep the cover; `Tiles.extend` is the rule for a range that grows.

A list of intervals packs a range if no point of the range lies in two of them (`Packs`).  That is
what is left of a tiling when intervals are lost.
-/

/-- The half-open interval from `lo` to `hi`, empty if `hi ≤ lo`. -/
structure Span (α : Type*) where
  /-- First point. -/
  lo : α
  /-- Point behind the last one. -/
  hi : α
  deriving DecidableEq

namespace Span

variable {α : Type*} [LinearOrder α]

/-- The points of an interval. -/
def Contains (s : Span α) (a : α) : Prop := s.lo ≤ a ∧ a < s.hi

instance (s : Span α) (a : α) : Decidable (s.Contains a) := inferInstanceAs (Decidable (_ ∧ _))

/-- Two intervals have no point in common. -/
def Disjoint (s t : Span α) : Prop := ∀ a, s.Contains a → ¬ t.Contains a

/-! ## How often a point is covered -/

/-- How many of the intervals contain a point. -/
def cover (spans : List (Span α)) (a : α) : ℕ := spans.countP fun s => decide (s.Contains a)

theorem cover_cons (s : Span α) (spans : List (Span α)) (a : α) :
    cover (s :: spans) a = cover spans a + if s.Contains a then 1 else 0 := by
  simp [cover, List.countP_cons]

theorem cover_perm {spans spans' : List (Span α)} (h : spans.Perm spans') :
    cover spans = cover spans' := by
  funext a
  exact h.countP_eq _

/-- The cover of a part determines the cover of the whole. -/
theorem cover_append_right {spans spans' : List (Span α)} (front : List (Span α))
    (h : cover spans = cover spans') : cover (front ++ spans) = cover (front ++ spans') := by
  funext a
  have ha := congrFun h a
  unfold cover at ha ⊢
  rw [List.countP_append, List.countP_append, ha]

/-- A part of the intervals covers no point more often. -/
theorem cover_le_of_sublist {spans spans' : List (Span α)} (h : spans.Sublist spans') (a : α) :
    cover spans a ≤ cover spans' a :=
  h.countP_le

/-- The points of the intervals are the covered ones. -/
theorem cover_pos_iff {spans : List (Span α)} {a : α} :
    0 < cover spans a ↔ ∃ s ∈ spans, s.Contains a := by
  unfold cover
  rw [List.countP_pos_iff]
  simp

/-- Disjoint intervals cover no point twice. -/
theorem cover_le_one {spans : List (Span α)} (h : spans.Pairwise Disjoint) (a : α) :
    cover spans a ≤ 1 := by
  induction h with
  | nil => exact Nat.zero_le _
  | @cons s spans hs _ ih =>
    rw [cover_cons]
    split
    · next hin =>
      have hzero : cover spans a = 0 := by
        refine Nat.eq_zero_of_not_pos fun hpos => ?_
        obtain ⟨t, ht, hta⟩ := cover_pos_iff.mp hpos
        exact hs t ht a hin hta
      omega
    · omega

/-- An interval cut out of disjoint ones takes its points with it. -/
theorem exists_contains_of_cut {s : Span α} {spans spans' : List (Span α)}
    (hdisj : spans.Pairwise Disjoint) (hcut : cover (s :: spans') = cover spans) (a : α) :
    (∃ t ∈ spans', t.Contains a) ↔ (∃ t ∈ spans, t.Contains a) ∧ ¬ s.Contains a := by
  have hone := cover_le_one hdisj a
  have ha := congrFun hcut a
  rw [cover_cons] at ha
  rw [← cover_pos_iff, ← cover_pos_iff]
  split at ha
  · next hin =>
    simp only [hin, not_true, and_false, iff_false]
    omega
  · next hout =>
    simp only [hout, not_false_iff, and_true]
    omega

/-- Cutting an interval in two. -/
theorem cover_split {lo mid hi : α} (hlo : lo ≤ mid) (hhi : mid ≤ hi) (spans : List (Span α)) :
    cover (⟨lo, mid⟩ :: ⟨mid, hi⟩ :: spans) = cover (⟨lo, hi⟩ :: spans) := by
  funext a
  simp only [cover_cons, Contains]
  rcases lt_or_ge a mid with ha | ha
  · simp [ha, not_le.mpr ha, ha.trans_le hhi]
  · simp [ha, not_lt.mpr ha, hlo.trans ha]

/-- An empty interval covers nothing. -/
theorem cover_of_empty {s : Span α} (h : s.hi ≤ s.lo) (spans : List (Span α)) :
    cover (s :: spans) = cover spans := by
  funext a
  have ha : ¬ s.Contains a := fun ⟨hlo, hhi⟩ => absurd (hhi.trans_le h) (not_lt.mpr hlo)
  simp [cover_cons, ha]

/-! ## Tilings -/

/-- The intervals tile the range from `lo` to `hi`. -/
def Tiles (spans : List (Span α)) (lo hi : α) : Prop :=
  ∀ a, cover spans a = if lo ≤ a ∧ a < hi then 1 else 0

/-- Nothing tiles the empty range. -/
theorem tiles_of_empty {spans : List (Span α)} (h : ∀ s ∈ spans, s.hi ≤ s.lo) (lo : α) :
    Tiles spans lo lo := by
  intro a
  have hcover : cover spans a = 0 := by
    unfold cover
    rw [List.countP_eq_zero]
    intro s hs hin
    obtain ⟨hlo, hhi⟩ := of_decide_eq_true hin
    exact absurd (hhi.trans_le (h s hs)) (not_lt.mpr hlo)
  rw [hcover, if_neg fun ⟨hlo, hhi⟩ => absurd hhi (not_lt.mpr hlo)]

/-! ## Packings -/

/-- The intervals lie in the range from `lo` to `hi`, and no two of them overlap. -/
def Packs (spans : List (Span α)) (lo hi : α) : Prop :=
  ∀ a, cover spans a ≤ if lo ≤ a ∧ a < hi then 1 else 0

namespace Packs

variable {spans : List (Span α)} {lo hi : α}

/-- What covers no more packs the same range. -/
theorem of_le {spans' : List (Span α)} (h : Packs spans lo hi)
    (hle : ∀ a, cover spans' a ≤ cover spans a) : Packs spans' lo hi :=
  fun a => (hle a).trans (h a)

/-- The range grows by an interval at its end. -/
theorem extend (h : Packs spans lo hi) (hlo : lo ≤ hi) {hi' : α} (hhi : hi ≤ hi') :
    Packs (⟨hi, hi'⟩ :: spans) lo hi' := by
  intro a
  have ha := h a
  rw [cover_cons]
  simp only [Contains]
  rcases lt_or_ge a hi with hlt | hge
  · simpa [hlt, not_le.mpr hlt, hlt.trans_le hhi] using ha
  · have hzero : cover spans a = 0 := by simpa [not_lt.mpr hge] using ha
    simp [hzero, hge, hlo.trans hge]

/-- No two of the intervals overlap. -/
theorem pairwise_disjoint (h : Packs spans lo hi) : spans.Pairwise Disjoint := by
  have hle : ∀ a, cover spans a ≤ 1 := by
    intro a
    refine (h a).trans ?_
    split <;> simp
  clear h
  induction spans with
  | nil => exact List.Pairwise.nil
  | cons s spans ih =>
    simp only [cover_cons] at hle
    refine List.Pairwise.cons (fun t ht a hs hta => ?_) (ih fun a => ?_)
    · have hpos : 0 < cover spans a := List.countP_pos_iff.mpr ⟨t, ht, by simpa using hta⟩
      have ha := hle a
      rw [if_pos hs] at ha
      omega
    · have ha := hle a
      omega

/-- An interval that is not empty lies in the range. -/
theorem le_of_mem (h : Packs spans lo hi) {s : Span α} (hs : s ∈ spans) (hne : s.lo < s.hi) :
    s.hi ≤ hi := by
  by_contra hlt
  have hlt := not_le.mp hlt
  have hin : s.Contains (max s.lo hi) := ⟨le_max_left _ _, max_lt hne hlt⟩
  have hpos : 0 < cover spans (max s.lo hi) :=
    List.countP_pos_iff.mpr ⟨s, hs, decide_eq_true hin⟩
  have hout := h (max s.lo hi)
  rw [if_neg fun hrange => absurd hrange.2 (not_lt.mpr (le_max_right _ _))] at hout
  omega

end Packs

namespace Tiles

variable {spans : List (Span α)} {lo hi : α}

/-- A tiling is a packing. -/
theorem packs (h : Tiles spans lo hi) : Packs spans lo hi := fun a => (h a).le

/-- What covers the same points tiles the same range. -/
theorem congr {spans' : List (Span α)} (h : Tiles spans lo hi)
    (hsame : cover spans' = cover spans) :
    Tiles spans' lo hi := by
  intro a
  rw [hsame]
  exact h a

/-- The range grows by an interval at its end. -/
theorem extend (h : Tiles spans lo hi) (hlo : lo ≤ hi) {hi' : α} (hhi : hi ≤ hi') :
    Tiles (⟨hi, hi'⟩ :: spans) lo hi' := by
  intro a
  rw [cover_cons, h a]
  simp only [Contains]
  rcases lt_or_ge a hi with ha | ha
  · simp [ha, not_le.mpr ha, ha.trans_le hhi]
  · simp [ha, not_lt.mpr ha, hlo.trans ha]

/-- The points of the intervals are those of the range. -/
theorem exists_contains_iff (h : Tiles spans lo hi) (a : α) :
    (∃ s ∈ spans, s.Contains a) ↔ lo ≤ a ∧ a < hi := by
  rw [← cover_pos_iff, h a]
  split <;> simp [*]

/-- No two of the intervals overlap. -/
theorem pairwise_disjoint (h : Tiles spans lo hi) : spans.Pairwise Disjoint :=
  h.packs.pairwise_disjoint

/-- An interval that is not empty lies in the range. -/
theorem le_of_mem (h : Tiles spans lo hi) {s : Span α} (hs : s ∈ spans) (hne : s.lo < s.hi) :
    s.hi ≤ hi :=
  h.packs.le_of_mem hs hne

end Tiles

end Span
