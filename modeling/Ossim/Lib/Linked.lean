import Mathlib.Logic.Function.Basic
import Mathlib.Data.Finset.Card
import Mathlib.Data.Finset.Range
import Mathlib.Data.List.Basic

/-!
# Singly linked lists in memory

A heap of cells that hold a value and a pointer, with `malloc` and `free`.  Fresh cells hold
whatever their memory held before.  `Heap.IsList p l` says that the cells reached from the pointer
`p` are allocated, hold the values `l` and end in `NULL`.

A pointer names at most one list (`IsList.unique`), so a list does not run through a cell that
starts a longer one.  It is made of as many cells as it is long (`IsList.exists_owns`, `Owns.card`),
and so no longer than the number of cells ever allocated (`IsList.length_le_brk`), which bounds
every walk along it.

`Heap.IsSeg p l q` is the part of a list that leads from one pointer to another.  Behind such a part
the last cell of a list may be cut off (`IsSeg.cut`).

`Heap.Owns s p l` also says which cells the list is made of.  The first cell may be freed
(`IsList.free`), and a cell may take over its successor (`Owns.absorb`).  `Heap.Adds` and
`Heap.Drops` relate two heaps by the cells that were allocated or freed between them, and
`Heap.Rebuilds` says that one of several lists was changed.  `Heap.load`, `Heap.assign` and
`Heap.release` fail at cells that are not allocated, so a program on them that does not fail uses no
cell after it was freed.
-/

namespace LinkedHeap

/-- A cell: a value and a pointer, `none` for `NULL`. -/
structure Cell (α : Type*) where
  /-- The value. -/
  val : α
  /-- The pointer to the next cell. -/
  next : Option ℕ

/-- The memory for cells. -/
structure Heap (α : Type*) where
  /-- What the memory holds, allocated or not. -/
  cell : ℕ → Cell α
  /-- The allocated cells. -/
  live : ℕ → Bool
  /-- The cells from here on were never allocated. -/
  brk : ℕ
  /-- Allocated cells are below. -/
  lt_brk : ∀ a, live a = true → a < brk

namespace Heap

variable {α : Type*}

/-- A fresh cell, whose contents are not assigned. -/
def malloc (h : Heap α) : Heap α where
  cell := h.cell
  live := Function.update h.live h.brk true
  brk := h.brk + 1
  lt_brk a ha := by
    by_cases heq : a = h.brk
    · omega
    · rw [Function.update_of_ne heq] at ha
      exact Nat.lt_succ_of_lt (h.lt_brk a ha)

/-- Release a cell. -/
def free (h : Heap α) (a : ℕ) : Heap α where
  cell := h.cell
  live := Function.update h.live a false
  brk := h.brk
  lt_brk b hb := by
    by_cases heq : b = a
    · rw [heq, Function.update_self] at hb
      exact absurd hb Bool.false_ne_true
    · rw [Function.update_of_ne heq] at hb
      exact h.lt_brk b hb

/-- Store into a cell. -/
def store (h : Heap α) (a : ℕ) (c : Cell α) : Heap α :=
  { h with cell := Function.update h.cell a c }

/-- The cells reached from a pointer hold the values of a list. -/
def IsList (h : Heap α) : Option ℕ → List α → Prop
  | p, [] => p = none
  | p, x :: xs => ∃ a, p = some a ∧ h.live a = true ∧ (h.cell a).val = x ∧
      h.IsList (h.cell a).next xs

variable {h h' : Heap α} {p : Option ℕ} {a : ℕ} {l : List α}

@[simp] lemma isList_nil : h.IsList p [] ↔ p = none := Iff.rfl

lemma isList_none : h.IsList none l ↔ l = [] := by
  cases l with
  | nil => simp
  | cons x xs => simp [IsList]

/-- The list of a pointer to a cell. -/
lemma isList_some : h.IsList (some a) l ↔
    ∃ xs, l = (h.cell a).val :: xs ∧ h.live a = true ∧ h.IsList (h.cell a).next xs := by
  cases l with
  | nil => simp
  | cons x xs =>
    simp only [IsList, Option.some.injEq]
    constructor
    · rintro ⟨b, rfl, hlive, rfl, hxs⟩
      exact ⟨xs, rfl, hlive, hxs⟩
    · rintro ⟨ys, heq, hlive, hys⟩
      obtain ⟨rfl, rfl⟩ := List.cons.inj heq
      exact ⟨a, rfl, hlive, rfl, hys⟩

/-- A pointer names at most one list. -/
lemma IsList.unique {m : List α} (hl : h.IsList p l) (hm : h.IsList p m) : l = m := by
  induction l generalizing p m with
  | nil =>
    obtain rfl : p = none := hl
    exact (isList_none.mp hm).symm
  | cons x xs ih =>
    obtain ⟨a, rfl, -, rfl, hxs⟩ := hl
    obtain ⟨ys, rfl, -, hys⟩ := isList_some.mp hm
    rw [ih hxs hys]

/-- A list is still there when its cells are. -/
lemma IsList.mono (hl : h.IsList p l)
    (hsame : ∀ a, h.live a = true → h'.live a = true ∧ h'.cell a = h.cell a) :
    h'.IsList p l := by
  induction l generalizing p with
  | nil => exact hl
  | cons x xs ih =>
    obtain ⟨a, rfl, hlive, rfl, hxs⟩ := hl
    obtain ⟨hlive', hcell⟩ := hsame a hlive
    refine isList_some.mpr ⟨xs, by rw [hcell], hlive', ?_⟩
    rw [hcell]
    exact ih hxs

/-- A cell that starts a longer list is another one. -/
lemma IsList.ne_of_longer {b : ℕ} {m : List α} (hl : h.IsList (some a) l)
    (hm : h.IsList (some b) m) (hlt : l.length < m.length) : b ≠ a := by
  rintro rfl
  rw [hl.unique hm] at hlt
  exact Nat.lt_irrefl _ hlt

/-- A cell of a list does not point to itself. -/
lemma IsList.next_ne {b : ℕ} (hl : h.IsList (some a) l) (hb : (h.cell a).next = some b) :
    a ≠ b := by
  obtain ⟨xs, rfl, -, hxs⟩ := isList_some.mp hl
  rw [hb] at hxs
  exact hxs.ne_of_longer hl (Nat.lt_succ_self _)

@[simp] lemma live_malloc : h.malloc.live h.brk = true := Function.update_self _ _ _

@[simp] lemma cell_store (c : Cell α) : (h.store a c).cell a = c := Function.update_self _ _ _

@[simp] lemma cell_free : (h.free a).cell = h.cell := rfl

@[simp] lemma live_store (c : Cell α) : (h.store a c).live = h.live := rfl

@[simp] lemma brk_store (c : Cell α) : (h.store a c).brk = h.brk := rfl

@[simp] lemma brk_malloc : h.malloc.brk = h.brk + 1 := rfl

lemma cell_store_of_ne {b : ℕ} (hne : b ≠ a) (c : Cell α) : (h.store a c).cell b = h.cell b :=
  Function.update_of_ne hne _ _

lemma live_free_of_ne {b : ℕ} (hne : b ≠ a) : (h.free a).live b = h.live b :=
  Function.update_of_ne hne _ _

lemma live_malloc_of_live (ha : h.live a = true) : h.malloc.live a = true := by
  have hlt := h.lt_brk a ha
  show Function.update h.live h.brk true a = true
  rw [Function.update_of_ne (by omega), ha]

/-- A fresh cell in front of a list. -/
lemma IsList.push (hl : h.IsList p l) (x : α) :
    (h.malloc.store h.brk ⟨x, p⟩).IsList (some h.brk) (x :: l) := by
  refine isList_some.mpr ⟨l, by rw [cell_store], live_malloc, ?_⟩
  rw [cell_store]
  refine hl.mono fun b hlive => ⟨live_malloc_of_live hlive, ?_⟩
  have hlt := h.lt_brk b hlive
  exact cell_store_of_ne (by omega) _

/-! ## The cells of a list -/

/-- The cells reached from a pointer hold the values of a list, and they are those of a set. -/
def Owns (h : Heap α) : Finset ℕ → Option ℕ → List α → Prop
  | s, p, [] => p = none ∧ s = ∅
  | s, p, x :: xs => ∃ a, a ∈ s ∧ p = some a ∧ h.live a = true ∧ (h.cell a).val = x ∧
      h.Owns (s.erase a) (h.cell a).next xs

variable {s : Finset ℕ}

lemma Owns.live (hl : h.Owns s p l) : ∀ b ∈ s, h.live b = true := by
  induction l generalizing s p with
  | nil =>
    obtain ⟨-, rfl⟩ := hl
    exact fun b hb => absurd hb (Finset.notMem_empty b)
  | cons x xs ih =>
    obtain ⟨a, -, -, hlive, -, hxs⟩ := hl
    intro b hb
    by_cases hba : b = a
    · rw [hba, hlive]
    · exact ih hxs b (Finset.mem_erase.mpr ⟨hba, hb⟩)

lemma Owns.isList (hl : h.Owns s p l) : h.IsList p l := by
  induction l generalizing s p with
  | nil => exact hl.1
  | cons x xs ih =>
    obtain ⟨a, -, rfl, hlive, rfl, hxs⟩ := hl
    exact ⟨a, rfl, hlive, rfl, ih hxs⟩

/-- Each cell of a list starts a part of it. -/
lemma Owns.exists_isList (hl : h.Owns s p l) :
    ∀ b ∈ s, ∃ m, h.IsList (some b) m ∧ m.length ≤ l.length := by
  induction l generalizing s p with
  | nil =>
    obtain ⟨-, rfl⟩ := hl
    exact fun b hb => absurd hb (Finset.notMem_empty b)
  | cons x xs ih =>
    have hall := hl.isList
    obtain ⟨a, -, rfl, -, -, hxs⟩ := hl
    intro b hb
    by_cases hba : b = a
    · exact ⟨_, hba ▸ hall, le_rfl⟩
    · obtain ⟨m, hm, hlen⟩ := ih hxs b (Finset.mem_erase.mpr ⟨hba, hb⟩)
      exact ⟨m, hm, Nat.le_succ_of_le hlen⟩

/-- Every list is made of some cells. -/
lemma IsList.exists_owns (hl : h.IsList p l) : ∃ s, h.Owns s p l := by
  induction l generalizing p with
  | nil => exact ⟨∅, hl, rfl⟩
  | cons x xs ih =>
    have hall := hl
    obtain ⟨a, rfl, hlive, rfl, hxs⟩ := hl
    obtain ⟨s, hs⟩ := ih hxs
    have hnew : a ∉ s := by
      intro ha
      obtain ⟨m, hm, hlen⟩ := hs.exists_isList a ha
      rw [hm.unique hall] at hlen
      exact absurd hlen (Nat.not_succ_le_self _)
    refine ⟨insert a s, a, Finset.mem_insert_self _ _, rfl, hlive, rfl, ?_⟩
    rwa [Finset.erase_insert hnew]

/-- A list has a cell of its own for each value. -/
lemma Owns.card (hl : h.Owns s p l) : s.card = l.length := by
  induction l generalizing s p with
  | nil => rw [hl.2, Finset.card_empty, List.length_nil]
  | cons x xs ih =>
    obtain ⟨a, ha, -, -, -, hxs⟩ := hl
    rw [← Finset.card_erase_add_one ha, ih hxs, List.length_cons]

/-- A list is no longer than the number of cells ever allocated. -/
lemma IsList.length_le_brk (hl : h.IsList p l) : l.length ≤ h.brk := by
  obtain ⟨s, hs⟩ := hl.exists_owns
  have hsub : s ⊆ Finset.range h.brk := by
    intro b hb
    exact Finset.mem_range.mpr (h.lt_brk b (hs.live b hb))
  rw [← hs.card, ← Finset.card_range h.brk]
  exact Finset.card_le_card hsub

/-! ## Parts of a list -/

/-- The cells on the way from one pointer to another hold the values of a list. -/
def IsSeg (h : Heap α) : Option ℕ → List α → Option ℕ → Prop
  | p, [], q => p = q
  | p, x :: xs, q => ∃ a, p = some a ∧ h.live a = true ∧ (h.cell a).val = x ∧
      h.IsSeg (h.cell a).next xs q

variable {q : Option ℕ} {m : List α}

/-- A list behind a part of a list. -/
lemma IsSeg.append (hs : h.IsSeg p l q) (hm : h.IsList q m) : h.IsList p (l ++ m) := by
  induction l generalizing p with
  | nil =>
    obtain rfl : p = q := hs
    exact hm
  | cons x xs ih =>
    obtain ⟨a, rfl, hlive, rfl, hxs⟩ := hs
    exact ⟨a, rfl, hlive, rfl, ih hxs⟩

/-- One more cell. -/
lemma IsSeg.concat (hs : h.IsSeg p l (some a)) (hlive : h.live a = true) :
    h.IsSeg p (l ++ [(h.cell a).val]) (h.cell a).next := by
  induction l generalizing p with
  | nil =>
    obtain rfl : p = some a := hs
    exact ⟨a, rfl, hlive, rfl, rfl⟩
  | cons x xs ih =>
    obtain ⟨b, rfl, hliveb, rfl, hxs⟩ := hs
    exact ⟨b, rfl, hliveb, rfl, ih hxs⟩

/-- A part of a list is still there when the cells are that start longer lists than the one
behind it. -/
lemma IsSeg.mono_of_longer (hs : h.IsSeg p l q) (hm : h.IsList q m)
    (hsame : ∀ b k, h.IsList (some b) k → m.length < k.length → h.live b = true →
      h'.live b = true ∧ h'.cell b = h.cell b) : h'.IsSeg p l q := by
  induction l generalizing p with
  | nil => exact hs
  | cons x xs ih =>
    have hall := hs.append hm
    obtain ⟨b, rfl, hlive, rfl, hxs⟩ := hs
    have hlt : m.length < ((h.cell b).val :: xs ++ m).length := by
      rw [List.length_append, List.length_cons]
      omega
    obtain ⟨hlive', hcell⟩ := hsame b _ hall hlt hlive
    refine ⟨b, rfl, hlive', by rw [hcell], ?_⟩
    rw [hcell]
    exact ih hxs

/-- The last cell of a list is cut off and freed. -/
lemma IsSeg.cut {b : ℕ} {x y : α} (hs : h.IsSeg p l (some a)) (ha : h.IsList (some a) [x, y])
    (hb : (h.cell a).next = some b) :
    ((h.store a { h.cell a with next := none }).free b).IsList p (l ++ [x]) := by
  obtain ⟨ys, heq, hlive, hys⟩ := isList_some.mp ha
  obtain ⟨rfl, rfl⟩ := List.cons.inj heq
  rw [hb] at hys
  have hne := ha.next_ne hb
  have hkept : ((h.store a { h.cell a with next := none }).free b).IsSeg p l (some a) := by
    refine hs.mono_of_longer ha fun c k hk hlt hlivec => ?_
    have hnea : c ≠ a := ha.ne_of_longer hk hlt
    have hneb : c ≠ b := hys.ne_of_longer hk (Nat.lt_of_succ_lt hlt)
    refine ⟨?_, cell_store_of_ne hnea _⟩
    rw [live_free_of_ne hneb, live_store, hlivec]
  refine hkept.append (isList_some.mpr ⟨[], ?_, ?_, ?_⟩)
  · rw [cell_free, cell_store]
  · rw [live_free_of_ne hne, live_store, hlive]
  · rw [cell_free, cell_store]
    rfl

/-! ## Cells that are allocated and freed -/

/-- Read a cell; `none` if it is not allocated. -/
def load (h : Heap α) (a : ℕ) : Option (Cell α) :=
  if h.live a = true then some (h.cell a) else none

/-- Store into a cell; `none` if it is not allocated. -/
def assign (h : Heap α) (a : ℕ) (c : Cell α) : Option (Heap α) :=
  if h.live a = true then some (h.store a c) else none

/-- Free a cell; `none` if it is not allocated. -/
def release (h : Heap α) (a : ℕ) : Option (Heap α) :=
  if h.live a = true then some (h.free a) else none

lemma load_of_live (hlive : h.live a = true) : h.load a = some (h.cell a) := if_pos hlive

lemma assign_of_live (hlive : h.live a = true) (c : Cell α) : h.assign a c = some (h.store a c) :=
  if_pos hlive

lemma release_of_live (hlive : h.live a = true) : h.release a = some (h.free a) := if_pos hlive

variable {h₀ : Heap α} {t : Finset ℕ}

lemma Owns.mono (hl : h.Owns s p l)
    (hsame : ∀ b ∈ s, h.live b = true → h'.live b = true ∧ h'.cell b = h.cell b) :
    h'.Owns s p l := by
  induction l generalizing s p with
  | nil => exact hl
  | cons x xs ih =>
    obtain ⟨a, ha, rfl, hlive, rfl, hxs⟩ := hl
    obtain ⟨hlive', hcell⟩ := hsame a ha hlive
    refine ⟨a, ha, rfl, hlive', by rw [hcell], ?_⟩
    rw [hcell]
    exact ih hxs fun b hb => hsame b (Finset.mem_of_mem_erase hb)

lemma Owns.malloc (hl : h.Owns s p l) : h.malloc.Owns s p l :=
  hl.mono fun _ _ hlive => ⟨live_malloc_of_live hlive, rfl⟩

lemma Owns.brk_notMem (hl : h.Owns s p l) : h.brk ∉ s := fun hb =>
  Nat.lt_irrefl _ (h.lt_brk _ (hl.live _ hb))

/-- A fresh cell in front of a list. -/
lemma Owns.push (hl : h.Owns s p l) (x : α) :
    (h.malloc.store h.brk ⟨x, p⟩).Owns (insert h.brk s) (some h.brk) (x :: l) := by
  refine ⟨h.brk, Finset.mem_insert_self _ _, rfl, live_malloc, by rw [cell_store], ?_⟩
  rw [cell_store, Finset.erase_insert hl.brk_notMem]
  refine hl.malloc.mono fun b hb hlive => ⟨hlive, cell_store_of_ne ?_ _⟩
  rintro rfl
  exact hl.brk_notMem hb

/-- The first cell of a list may be freed. -/
lemma Owns.free (hl : h.Owns (s.erase a) p l) : (h.free a).Owns (s.erase a) p l := by
  refine hl.mono fun b hb hlive => ⟨?_, rfl⟩
  rw [live_free_of_ne (Finset.ne_of_mem_erase hb), hlive]

lemma IsList.free {x : α} {xs : List α} (hl : h.IsList (some a) (x :: xs)) :
    (h.free a).IsList (h.cell a).next xs := by
  obtain ⟨s, b, -, hab, -, -, hxs⟩ := hl.exists_owns
  obtain rfl := Option.some.inj hab
  exact hxs.free.isList

/-- The cells of a set were allocated since, and all others are as they were. -/
structure Adds (h₀ h : Heap α) (s : Finset ℕ) : Prop where
  /-- Cells are given out upwards. -/
  brk_le : h₀.brk ≤ h.brk
  /-- The new cells were never allocated before. -/
  le : ∀ a ∈ s, h₀.brk ≤ a
  /-- Nothing else was allocated or freed. -/
  live : ∀ a, h.live a = true ↔ h₀.live a = true ∨ a ∈ s
  /-- The old cells keep their contents. -/
  cell : ∀ a, h₀.live a = true → h.cell a = h₀.cell a

/-- The cells of a set were freed since. -/
structure Drops (h h' : Heap α) (s : Finset ℕ) : Prop where
  /-- Nothing was allocated. -/
  brk : h'.brk = h.brk
  /-- Nothing was stored. -/
  cell : h'.cell = h.cell
  /-- Nothing else was freed. -/
  live : ∀ a, h'.live a = true ↔ h.live a = true ∧ a ∉ s

lemma Adds.refl (h : Heap α) : h.Adds h ∅ where
  brk_le := le_rfl
  le a ha := absurd ha (Finset.notMem_empty a)
  live a := by simp
  cell _ _ := rfl

lemma Adds.malloc (hs : h₀.Adds h s) : h₀.Adds h.malloc (insert h.brk s) where
  brk_le := Nat.le_succ_of_le hs.brk_le
  le a ha := by
    rcases Finset.mem_insert.mp ha with rfl | ha
    · exact hs.brk_le
    · exact hs.le a ha
  live a := by
    have hold := hs.live a
    by_cases heq : a = h.brk
    · simp [heq]
    · have hsame : h.malloc.live a = h.live a := Function.update_of_ne heq _ _
      rw [hsame, hold, Finset.mem_insert]
      tauto
  cell a ha := hs.cell a ha

/-- A new cell may be written. -/
lemma Adds.store (hs : h₀.Adds h s) (ha : a ∈ s) (c : Cell α) : h₀.Adds (h.store a c) s where
  brk_le := hs.brk_le
  le := hs.le
  live := hs.live
  cell b hb := by
    have hlt := h₀.lt_brk b hb
    have hle := hs.le a ha
    rw [cell_store_of_ne (by omega), hs.cell b hb]

/-- Cells that were allocated and freed again leave no trace. -/
lemma Adds.drops (hs : h₀.Adds h s) (ht : h.Drops h' t) (hsub : t ⊆ s) : h₀.Adds h' (s \ t) where
  brk_le := by rw [ht.brk]; exact hs.brk_le
  le a ha := hs.le a (Finset.mem_sdiff.mp ha).1
  live a := by
    rw [ht.live, hs.live, Finset.mem_sdiff]
    constructor
    · rintro ⟨hold | hnew, hkept⟩
      · exact .inl hold
      · exact .inr ⟨hnew, hkept⟩
    · rintro (hold | ⟨hnew, hkept⟩)
      · refine ⟨.inl hold, fun hfreed => ?_⟩
        have hlt := h₀.lt_brk a hold
        have hle := hs.le a (hsub hfreed)
        omega
      · exact ⟨.inr hnew, hkept⟩
  cell a ha := by rw [ht.cell, hs.cell a ha]

lemma Adds.trans (hs : h₀.Adds h s) (ht : h.Adds h' t) : h₀.Adds h' (s ∪ t) where
  brk_le := hs.brk_le.trans ht.brk_le
  le a ha := by
    rcases Finset.mem_union.mp ha with ha | ha
    · exact hs.le a ha
    · exact hs.brk_le.trans (ht.le a ha)
  live a := by rw [ht.live, hs.live, Finset.mem_union, or_assoc]
  cell a ha := by rw [ht.cell a ((hs.live a).mpr (.inl ha)), hs.cell a ha]

lemma Adds.disjoint (hs : h₀.Adds h s) (ht : h.Adds h' t) : Disjoint s t := by
  refine Finset.disjoint_left.mpr fun a ha ha' => ?_
  have hlt := h.lt_brk a ((hs.live a).mpr (.inr ha))
  have hle := ht.le a ha'
  omega

lemma Drops.refl (h : Heap α) : h.Drops h ∅ := ⟨rfl, rfl, fun a => by simp⟩

/-- One more cell is freed first. -/
lemma Drops.cons (ha : a ∈ s) (hs : (h.free a).Drops h' (s.erase a)) : h.Drops h' s where
  brk := hs.brk
  cell := hs.cell
  live b := by
    rw [hs.live, Finset.mem_erase]
    by_cases heq : b = a
    · have hfreed : (h.free a).live a = false := Function.update_self _ _ _
      simp [heq, ha, hfreed]
    · rw [live_free_of_ne heq]
      simp [heq]

/-- The list in the cells of `s` has become one in the cells of `s'`, and what else is allocated is
as it was. -/
structure Rebuilds (h h' : Heap α) (s s' : Finset ℕ) : Prop where
  /-- Cells are given out upwards. -/
  brk_le : h.brk ≤ h'.brk
  /-- The cells of the list are old ones or fresh ones. -/
  mem : ∀ a ∈ s', a ∈ s ∨ h.brk ≤ a
  /-- The other cells. -/
  other : ∀ a, a ∉ s → h.live a = true → h'.live a = true ∧ h'.cell a = h.cell a

lemma Rebuilds.notMem {s' : Finset ℕ} (hr : h.Rebuilds h' s s') (ha : a ∉ s)
    (hlive : h.live a = true) : a ∉ s' := fun ha' => by
  rcases hr.mem a ha' with hold | hfresh
  · exact ha hold
  · exact absurd (h.lt_brk a hlive) (Nat.not_lt.mpr hfresh)

lemma Rebuilds.refl (h : Heap α) (s : Finset ℕ) : h.Rebuilds h s s :=
  ⟨le_rfl, fun _ ha => .inl ha, fun _ _ hlive => ⟨hlive, rfl⟩⟩

lemma Rebuilds.malloc (h : Heap α) (s : Finset ℕ) : h.Rebuilds h.malloc s s :=
  ⟨Nat.le_succ _, fun _ ha => .inl ha, fun _ _ hlive => ⟨live_malloc_of_live hlive, rfl⟩⟩

lemma Rebuilds.trans {s' s'' : Finset ℕ} {h'' : Heap α} (hr : h.Rebuilds h' s s')
    (hr' : h'.Rebuilds h'' s' s'') : h.Rebuilds h'' s s'' where
  brk_le := hr.brk_le.trans hr'.brk_le
  mem a ha := by
    rcases hr'.mem a ha with ha | hle
    · exact hr.mem a ha
    · exact .inr (hr.brk_le.trans hle)
  other a ha hlive := by
    obtain ⟨hlive', hcell⟩ := hr.other a ha hlive
    obtain ⟨hlive'', hcell'⟩ := hr'.other a (hr.notMem ha hlive) hlive'
    exact ⟨hlive'', hcell'.trans hcell⟩

/-- A fresh cell may be written. -/
lemma Rebuilds.store {s' : Finset ℕ} (hr : h.Rebuilds h' s s') (ha : h.brk ≤ a) (c : Cell α) :
    h.Rebuilds (h'.store a c) s s' where
  brk_le := hr.brk_le
  mem := hr.mem
  other b hb hlive := by
    obtain ⟨hlive', hcell⟩ := hr.other b hb hlive
    have hlt := h.lt_brk b hlive
    refine ⟨hlive', ?_⟩
    rw [cell_store_of_ne (by omega), hcell]

/-- A fresh cell may be put on the list. -/
lemma Rebuilds.insert {s' : Finset ℕ} (hr : h.Rebuilds h' s s') (ha : h.brk ≤ a) :
    h.Rebuilds h' s (insert a s') where
  brk_le := hr.brk_le
  mem b hb := by
    rcases Finset.mem_insert.mp hb with rfl | hb
    · exact .inr ha
    · exact hr.mem b hb
  other := hr.other

/-- A list in other cells stays, and in other cells. -/
lemma Owns.rebuild {s' : Finset ℕ} (hl : h.Owns t p l) (hdisj : Disjoint s t)
    (hr : h.Rebuilds h' s s') : h'.Owns t p l ∧ Disjoint s' t := by
  have hnot : ∀ b ∈ t, b ∉ s := fun b hb => Finset.disjoint_right.mp hdisj hb
  refine ⟨hl.mono fun b hb hlive => hr.other b (hnot b hb) hlive, ?_⟩
  exact Finset.disjoint_right.mpr fun b hb => hr.notMem (hnot b hb) (hl.live b hb)

/-- The first cell of a list gets another value. -/
lemma Owns.setHead {x : α} {xs : List α} (hl : h.Owns s (some a) (x :: xs)) (y : α) :
    (h.store a ⟨y, (h.cell a).next⟩).Owns s (some a) (y :: xs) ∧
      h.Rebuilds (h.store a ⟨y, (h.cell a).next⟩) s s := by
  obtain ⟨b, ha, hab, hlive, -, hxs⟩ := hl
  obtain rfl := Option.some.inj hab
  refine ⟨⟨a, ha, rfl, hlive, by rw [cell_store], ?_⟩, le_rfl, fun _ hb => .inl hb, ?_⟩
  · rw [cell_store]
    exact hxs.mono fun b hb hlive =>
      ⟨hlive, cell_store_of_ne (Finset.ne_of_mem_erase hb) _⟩
  · intro b hb hlive
    refine ⟨hlive, cell_store_of_ne ?_ _⟩
    rintro rfl
    exact hb ha

/-- The first cell of a list takes over its successor, which is freed. -/
lemma Owns.absorb {b : ℕ} {x : α} {xs : List α} (hl : h.Owns s (some a) (x :: xs))
    (hb : (h.cell a).next = some b) : h.live b = true ∧
      ((h.store a (h.cell b)).free b).Owns (s.erase b) (some a) xs ∧
      h.Rebuilds ((h.store a (h.cell b)).free b) s (s.erase b) := by
  obtain ⟨c, ha, hac, hlive, -, hxs⟩ := hl
  obtain rfl := Option.some.inj hac
  rw [hb] at hxs
  cases xs with
  | nil => exact absurd hxs.1 (Option.some_ne_none b)
  | cons y ys =>
    obtain ⟨c, hmem, hbc, hliveb, hval, hys⟩ := hxs
    obtain rfl := Option.some.inj hbc
    have hne : a ≠ b := (Finset.ne_of_mem_erase hmem).symm
    refine ⟨hliveb, ⟨a, Finset.mem_erase.mpr ⟨hne, ha⟩, rfl, ?_, ?_, ?_⟩, le_rfl, ?_, ?_⟩
    · rw [live_free_of_ne hne]
      exact hlive
    · rw [cell_free, cell_store, hval]
    · rw [cell_free, cell_store, Finset.erase_right_comm]
      refine hys.mono fun c hc hlivec => ⟨?_, cell_store_of_ne ?_ _⟩
      · rw [live_free_of_ne (Finset.ne_of_mem_erase hc)]
        exact hlivec
      · exact Finset.ne_of_mem_erase (Finset.mem_of_mem_erase hc)
    · exact fun c hc => .inl (Finset.mem_of_mem_erase hc)
    · intro c hc hlivec
      refine ⟨?_, cell_store_of_ne ?_ _⟩
      · rw [live_free_of_ne]
        · exact hlivec
        · rintro rfl
          exact hc (Finset.mem_of_mem_erase hmem)
      · rintro rfl
        exact hc ha

/-- The list behind the first cell is changed. -/
lemma Owns.changeTail {x : α} {xs ys : List α} {s' : Finset ℕ}
    (hl : h.Owns s (some a) (x :: xs)) (hr : h.Rebuilds h' (s.erase a) s')
    (hys : h'.Owns s' (h.cell a).next ys) :
    h'.Owns (insert a s') (some a) (x :: ys) ∧ h.Rebuilds h' s (insert a s') := by
  obtain ⟨b, ha, hab, hlive, hval, -⟩ := hl
  obtain rfl := Option.some.inj hab
  have hnot : a ∉ s.erase a := Finset.notMem_erase a s
  obtain ⟨hlive', hcell⟩ := hr.other a hnot hlive
  refine ⟨⟨a, Finset.mem_insert_self _ _, rfl, hlive', by rw [hcell, hval], ?_⟩, hr.brk_le, ?_, ?_⟩
  · rw [hcell, Finset.erase_insert (hr.notMem hnot hlive)]
    exact hys
  · intro c hc
    rcases Finset.mem_insert.mp hc with rfl | hc
    · exact .inl ha
    · exact (hr.mem c hc).imp_left Finset.mem_of_mem_erase
  · exact fun c hc => hr.other c fun hmem => hc (Finset.mem_of_mem_erase hmem)

end Heap

end LinkedHeap
