import Ossim.Lib.Linked
import Ossim.Lib.Transition
import Ossim.Paging.Memphy
import Mathlib.Data.Multiset.AddSub
import Mathlib.Data.Multiset.Range
import Mathlib.Data.Multiset.UnionInter

/-!
# The free list of a device

The free list of `struct memphy_struct` as the chain of `struct framephy_struct` cells that the
functions of `src/mm-memphy.c` build, and its refinement to the list of `Ossim.Paging.Memphy`
(`Represents`).

`MEMPHY_format` assigns the link of its first cell only when it appends a second one, and returns
before it assigns `free_fp_list` when the device is smaller than a page.  What these pointers then
hold is what the memory held before, which is a parameter here: `device_frames_iff` says for
which sizes and contents the free list of a fresh device is its frames, and that exactly then the
frames that are free and those that were handed out make up the device in every run of
`MEMPHY_get_freefp` and `MEMPHY_put_freefp`.
-/

namespace Ossim

open LinkedHeap

/-- The fields of `struct memphy_struct` that the free list is about, with the memory its cells
are taken from. -/
structure FrameDevice where
  /-- The memory for `struct framephy_struct` cells, which hold a frame number. -/
  heap : Heap ℕ
  /-- The size. -/
  maxsz : ℤ
  /-- `free_fp_list`. -/
  freeFpList : Option ℕ

namespace FrameDevice

/-- The loop of `MEMPHY_format`, with the number of turns left: a new cell is linked behind the
cell `fst`. -/
def formatLoop : ℕ → ℕ → ℕ → Heap ℕ → Heap ℕ
  | 0, _, _, h => h
  | n + 1, iter, fst, h =>
    let newfst := h.brk
    let h := h.malloc.store newfst ⟨iter, none⟩
    let h := h.store fst { h.cell fst with next := some newfst }
    formatLoop n (iter + 1) newfst h

/-- `MEMPHY_format`. -/
def format (d : FrameDevice) (pagesz : ℤ) : ℤ × FrameDevice :=
  let numfp := d.maxsz.tdiv pagesz
  if numfp ≤ 0 then (-1, d)
  else
    let fst := d.heap.brk
    let h := d.heap.malloc
    -- the link of the first cell is not assigned
    let h := h.store fst { h.cell fst with val := 0 }
    (0, { d with heap := formatLoop (numfp.toNat - 1) 1 fst h, freeFpList := some fst })

/-- `init_memphy`. -/
def initMemphy (d : FrameDevice) (maxSize : ℤ) : FrameDevice :=
  ({ d with maxsz := maxSize }.format pagingPagesz).2

/-- `MEMPHY_get_freefp`: the frame stored through `retfpn`, `none` for the status `-1`. -/
def getFreefp (d : FrameDevice) : Option ℕ × FrameDevice :=
  match d.freeFpList with
  | none => (none, d)
  | some fp =>
    (some (d.heap.cell fp).val,
      { d with heap := d.heap.free fp, freeFpList := (d.heap.cell fp).next })

/-- `MEMPHY_put_freefp`. -/
def putFreefp (d : FrameDevice) (fpn : ℕ) : FrameDevice :=
  { d with
    heap := d.heap.malloc.store d.heap.brk ⟨fpn, d.freeFpList⟩
    freeFpList := some d.heap.brk }

/-! ## The cells as a list -/

/-- The free list of the device is that of `mp`. -/
structure Represents (d : FrameDevice) (mp : Memphy) : Prop where
  /-- The size. -/
  maxsz : d.maxsz = mp.maxsz
  /-- The cells hold the frames of the list. -/
  cells : d.heap.IsList d.freeFpList mp.freeFpList

/-- The loop links cells with consecutive frames behind the cell it is given, and leaves other
cells alone. -/
lemma formatLoop_isList (n iter fst : ℕ) (h : Heap ℕ) (hlive : h.live fst = true)
    (hnext : n = 0 → (h.cell fst).next = none) :
    (formatLoop n iter fst h).IsList (some fst) ((h.cell fst).val :: List.range' iter n) ∧
    ∀ a, a ≠ fst → h.live a = true →
      (formatLoop n iter fst h).live a = true ∧ (formatLoop n iter fst h).cell a = h.cell a := by
  induction n generalizing iter fst h with
  | zero =>
    refine ⟨Heap.isList_some.mpr ⟨[], rfl, hlive, ?_⟩, fun a _ ha => ⟨ha, rfl⟩⟩
    exact hnext rfl
  | succ n ih =>
    have hfst := h.lt_brk fst hlive
    have hne : h.brk ≠ fst := by omega
    set linked := (h.malloc.store h.brk ⟨iter, none⟩).store fst
      ⟨((h.malloc.store h.brk ⟨iter, none⟩).cell fst).val, some h.brk⟩ with hlinked
    have hnew : linked.cell h.brk = ⟨iter, none⟩ := by
      rw [hlinked, Heap.cell_store_of_ne hne, Heap.cell_store]
    have hold : (h.malloc.store h.brk ⟨iter, none⟩).cell fst = h.cell fst :=
      Heap.cell_store_of_ne hne.symm _
    obtain ⟨hlist, hframe⟩ := ih (iter + 1) h.brk linked Heap.live_malloc fun _ => by rw [hnew]
    rw [hnew, ← List.range'_succ] at hlist
    obtain ⟨hlive', hcell'⟩ := hframe fst hne.symm (Heap.live_malloc_of_live hlive)
    have hcell : (formatLoop (n + 1) iter fst h).cell fst = ⟨(h.cell fst).val, some h.brk⟩ := by
      rw [← hold]
      exact hcell'.trans (Heap.cell_store _)
    constructor
    · refine Heap.isList_some.mpr ⟨_, by rw [hcell], hlive', ?_⟩
      rw [hcell]
      exact hlist
    · intro a ha hla
      have hlt := h.lt_brk a hla
      obtain ⟨hlive₂, hcell₂⟩ := hframe a (by omega) (Heap.live_malloc_of_live hla)
      refine ⟨hlive₂, hcell₂.trans ?_⟩
      rw [hlinked, Heap.cell_store_of_ne ha, Heap.cell_store_of_ne (by omega)]
      rfl

variable {d : FrameDevice} {mp : Memphy} {l : List ℕ}

/-- The number of frames that `MEMPHY_format` finds. -/
def numfp (d : FrameDevice) (pagesz : ℤ) : ℤ := d.maxsz.tdiv pagesz

/-- A device of several frames gets a list of them. -/
lemma isList_format {pagesz : ℤ} (h : 2 ≤ d.numfp pagesz) :
    (d.format pagesz).2.heap.IsList (d.format pagesz).2.freeFpList
      (List.range (d.numfp pagesz).toNat) := by
  have hrange : List.range (d.numfp pagesz).toNat =
      0 :: List.range' 1 ((d.numfp pagesz).toNat - 1) := by
    obtain ⟨n, hn⟩ := Nat.exists_eq_succ_of_ne_zero
      (show (d.numfp pagesz).toNat ≠ 0 by omega)
    rw [hn, List.range_eq_range', List.range'_succ]
    rfl
  have hcell : (d.heap.malloc.store d.heap.brk ⟨0, (d.heap.malloc.cell d.heap.brk).next⟩).cell
      d.heap.brk = ⟨0, (d.heap.malloc.cell d.heap.brk).next⟩ := Heap.cell_store _
  obtain ⟨hlist, -⟩ := formatLoop_isList ((d.numfp pagesz).toNat - 1) 1 d.heap.brk
    (d.heap.malloc.store d.heap.brk ⟨0, (d.heap.malloc.cell d.heap.brk).next⟩)
    Heap.live_malloc fun hzero => by omega
  rw [hcell] at hlist
  rw [format, if_neg (by unfold numfp at h; omega), hrange]
  exact hlist

/-- A device of one frame gets a cell for it, in front of what its link names by chance. -/
lemma isList_format_one {pagesz : ℤ} (h : d.numfp pagesz = 1) :
    (d.format pagesz).2.heap.IsList (d.format pagesz).2.freeFpList l ↔
      ∃ tail, l = 0 :: tail ∧
        (d.format pagesz).2.heap.IsList (d.heap.cell d.heap.brk).next tail := by
  have hformat : d.format pagesz = (0, { d with
      heap := d.heap.malloc.store d.heap.brk ⟨0, (d.heap.cell d.heap.brk).next⟩
      freeFpList := some d.heap.brk }) := by
    unfold numfp at h
    rw [format, if_neg (by omega), h]
    rfl
  rw [hformat]
  simp only [Heap.isList_some, Heap.cell_store, Heap.live_store, Heap.live_malloc, true_and]

/-- A device without frames keeps what its list pointer held. -/
lemma format_of_numfp_le {pagesz : ℤ} (h : d.numfp pagesz ≤ 0) : d.format pagesz = (-1, d) :=
  if_pos h

/-- Taking a frame takes the first one of the list. -/
lemma isList_getFreefp (h : d.heap.IsList d.freeFpList l) :
    (l = [] ∧ d.getFreefp = (none, d)) ∨
    ∃ fpn rest, l = fpn :: rest ∧ d.getFreefp.1 = some fpn ∧
      d.getFreefp.2.heap.IsList d.getFreefp.2.freeFpList rest := by
  unfold getFreefp
  cases hp : d.freeFpList with
  | none =>
    rw [hp] at h
    exact .inl ⟨Heap.isList_none.mp h, rfl⟩
  | some fp =>
    rw [hp] at h
    obtain ⟨rest, rfl, -, -⟩ := Heap.isList_some.mp h
    exact .inr ⟨_, rest, rfl, rfl, h.free⟩

/-- Putting a frame back puts it in front of the list. -/
lemma isList_putFreefp (h : d.heap.IsList d.freeFpList l) (fpn : ℕ) :
    (d.putFreefp fpn).heap.IsList (d.putFreefp fpn).freeFpList (fpn :: l) :=
  h.push fpn

/-! ## Refinement -/

/-- Formatting the cells is formatting the list, for the list `tail` that the link of the first
cell names by chance. -/
lemma Represents.format (h : d.Represents mp) {pagesz : ℤ} {tail : List ℕ}
    (htail : d.heap.IsList (d.heap.cell d.heap.brk).next tail) :
    (d.format pagesz).1 = (mp.format pagesz tail).1 ∧
      (d.format pagesz).2.Represents (mp.format pagesz tail).2 := by
  have hnumfp : mp.maxsz.tdiv pagesz = d.numfp pagesz := by rw [numfp, h.maxsz]
  unfold Memphy.format
  rw [hnumfp]
  by_cases hnum : d.numfp pagesz ≤ 0
  · rw [format_of_numfp_le hnum, if_pos hnum]
    exact ⟨rfl, h⟩
  · have hstatus : (d.format pagesz).1 = 0 ∧ (d.format pagesz).2.maxsz = d.maxsz := by
      unfold numfp at hnum
      rw [FrameDevice.format, if_neg hnum]
      exact ⟨rfl, rfl⟩
    rw [if_neg hnum]
    refine ⟨hstatus.1, hstatus.2.trans h.maxsz, ?_⟩
    by_cases hone : d.numfp pagesz = 1
    · rw [if_pos hone, isList_format_one hone]
      refine ⟨tail, rfl, htail.mono fun a ha => ?_⟩
      have hlt := d.heap.lt_brk a ha
      have hone' : d.maxsz.tdiv pagesz = 1 := hone
      rw [FrameDevice.format, hone', if_neg (by decide)]
      exact ⟨Heap.live_malloc_of_live ha, Heap.cell_store_of_ne (by omega) _⟩
    · have htwo : 2 ≤ d.numfp pagesz := by omega
      have hlist := isList_format htwo
      obtain ⟨n, hn⟩ := Nat.exists_eq_succ_of_ne_zero
        (show (d.numfp pagesz).toNat ≠ 0 by omega)
      rw [hn, List.range_eq_range', List.range'_succ] at hlist
      rw [if_neg hone, hn]
      exact hlist

lemma Represents.getFreefp (h : d.Represents mp) :
    d.getFreefp.1 = mp.getFreefp.map Prod.fst ∧
      d.getFreefp.2.Represents ((mp.getFreefp.map Prod.snd).getD mp) := by
  have hmaxsz : d.getFreefp.2.maxsz = d.maxsz := by
    unfold FrameDevice.getFreefp
    split <;> rfl
  unfold Memphy.getFreefp
  rcases isList_getFreefp h.cells with ⟨hl, hget⟩ | ⟨fpn, rest, hl, hget, hrest⟩
  · rw [hl, hget]
    exact ⟨rfl, h⟩
  · rw [hl, hget]
    exact ⟨rfl, hmaxsz.trans h.maxsz, hrest⟩

lemma Represents.putFreefp (h : d.Represents mp) (fpn : ℕ) :
    (d.putFreefp fpn).Represents (mp.putFreefp fpn) :=
  ⟨h.maxsz, isList_putFreefp h.cells fpn⟩

end FrameDevice

/-! ## Runs -/

/-- A device with the frames it has handed out. -/
structure FrameRun where
  /-- The device. -/
  dev : FrameDevice
  /-- The frames that were taken and not put back. -/
  out : Multiset ℕ

/-- A call on a device. -/
inductive FrameCall
  | getFreefp
  | putFreefp (fpn : ℕ)

namespace FrameRun

/-- The device after `MEMPHY_get_freefp`. -/
def get (w : FrameRun) : FrameRun :=
  ⟨w.dev.getFreefp.2, w.dev.getFreefp.1.elim w.out fun fpn => fpn ::ₘ w.out⟩

/-- One call.  Only frames that are handed out are put back. -/
inductive Step : FrameRun → FrameCall → FrameRun → Prop
  | get {w : FrameRun} : Step w .getFreefp w.get
  | put {w : FrameRun} (fpn : ℕ) (h : fpn ∈ w.out) :
    Step w (.putFreefp fpn) ⟨w.dev.putFreefp fpn, w.out.erase fpn⟩

/-- The calls on a device that `init_memphy` has initialised. -/
def system (d : FrameDevice) (maxSize : ℤ) : LTS FrameRun FrameCall where
  start w := w = ⟨d.initMemphy maxSize, 0⟩
  step := Step

/-- The free list is terminated, and with the frames handed out it makes up the frames
`0 .. n - 1`, each once. -/
def Partitioned (n : ℕ) (w : FrameRun) : Prop :=
  ∃ l, w.dev.heap.IsList w.dev.freeFpList l ∧ (l : Multiset ℕ) + w.out = Multiset.range n

variable {n : ℕ} {w w' : FrameRun}

lemma partitioned_get (h : w.Partitioned n) : w.get.Partitioned n := by
  obtain ⟨l, hl, hsum⟩ := h
  rcases FrameDevice.isList_getFreefp hl with ⟨rfl, hget⟩ | ⟨fpn, rest, rfl, hget, hrest⟩
  · refine ⟨[], ?_, ?_⟩
    · rw [get, hget]
      exact hl
    · rw [get, hget]
      exact hsum
  · refine ⟨rest, hrest, ?_⟩
    rw [get, hget, Option.elim, ← hsum, ← Multiset.cons_coe, Multiset.cons_add, Multiset.add_cons]

lemma partitioned_step (h : w.Partitioned n) {k : FrameCall} (ht : Step w k w') :
    w'.Partitioned n := by
  cases ht with
  | get => exact partitioned_get h
  | put fpn hout =>
    obtain ⟨l, hl, hsum⟩ := h
    refine ⟨fpn :: l, FrameDevice.isList_putFreefp hl fpn, ?_⟩
    rw [← Multiset.cons_coe, Multiset.cons_add, ← Multiset.add_cons, Multiset.cons_erase hout, hsum]

/-- No frame is returned exactly when all are handed out. -/
lemma getFreefp_eq_none_iff (h : w.Partitioned n) :
    w.dev.getFreefp.1 = none ↔ ∀ fpn, fpn < n → fpn ∈ w.out := by
  obtain ⟨l, hl, hsum⟩ := h
  rcases FrameDevice.isList_getFreefp hl with ⟨rfl, hget⟩ | ⟨fpn, rest, rfl, hget, hrest⟩
  · refine ⟨fun _ fpn hlt => ?_, fun _ => by rw [hget]⟩
    have hmem := Multiset.mem_range.mpr hlt
    rw [← hsum] at hmem
    simpa using hmem
  · rw [hget]
    refine ⟨fun hnone => absurd hnone (by simp), fun hall => ?_⟩
    -- the first free frame would be handed out as well
    have hmem : fpn ∈ Multiset.range n := by
      rw [← hsum]
      simp
    have hnodup := Multiset.nodup_range n
    rw [← hsum, Multiset.nodup_add] at hnodup
    have hout := hall fpn (Multiset.mem_range.mp hmem)
    exact absurd hout (Multiset.disjoint_left.mp hnodup.2.2 (by simp))

/-- After `init_memphy` the free list of a device is its frames, each once and terminated, and in
every run that puts back only frames that are handed out, the free frames and those handed out
make up the device and `MEMPHY_get_freefp` fails exactly when none is free. -/
def FramesKept (d : FrameDevice) (maxSize : ℤ) : Prop :=
  (∃ l, (d.initMemphy maxSize).heap.IsList (d.initMemphy maxSize).freeFpList l ∧
    (l : Multiset ℕ) = Multiset.range (maxSize / pagingPagesz).toNat) ∧
  ∀ w, (system d maxSize).Reachable w → w.Partitioned (maxSize / pagingPagesz).toNat ∧
    (w.dev.getFreefp.1 = none ↔ ∀ fpn, fpn < (maxSize / pagingPagesz).toNat → fpn ∈ w.out)

/-- The runs need nothing but the free list at their start. -/
lemma framesKept_iff (d : FrameDevice) (maxSize : ℤ) :
    FramesKept d maxSize ↔
      ∃ l, (d.initMemphy maxSize).heap.IsList (d.initMemphy maxSize).freeFpList l ∧
        (l : Multiset ℕ) = Multiset.range (maxSize / pagingPagesz).toNat := by
  refine ⟨fun h => h.1, fun h => ⟨h, fun w hw => ?_⟩⟩
  have hpart : w.Partitioned (maxSize / pagingPagesz).toNat := by
    refine hw.invariant (I := Partitioned (maxSize / pagingPagesz).toNat) (fun w hw => ?_)
      fun w k w' _ h ht => partitioned_step h ht
    obtain ⟨l, hl, heq⟩ := h
    obtain rfl : w = ⟨d.initMemphy maxSize, 0⟩ := hw
    exact ⟨l, hl, (Multiset.add_zero _).trans heq⟩
  exact ⟨hpart, getFreefp_eq_none_iff hpart⟩

/-- The frames of a fresh device are kept exactly if it has at least two of them, or what the code
leaves unassigned happens to be `NULL`: the link of the first cell on a device of one frame, the
list pointer itself on a smaller one. -/
theorem device_frames_iff (d : FrameDevice) (maxSize : ℤ) :
    FramesKept d maxSize ↔
      2 * pagingPagesz ≤ maxSize ∨
      (pagingPagesz ≤ maxSize ∧ (d.heap.cell d.heap.brk).next = none) ∨
      (maxSize < pagingPagesz ∧ d.freeFpList = none) := by
  rw [framesKept_iff, FrameDevice.initMemphy, pagingPagesz_cast]
  set e : FrameDevice := { d with maxsz := maxSize } with he
  have hnum : e.numfp 256 = maxSize.tdiv 256 := rfl
  rcases lt_or_ge maxSize 256 with hlt | hge
  · -- no frame: `MEMPHY_format` returns at once
    have hle : e.numfp 256 ≤ 0 := by
      have hsign : Int.sign 256 = 1 := rfl
      rw [hnum, Int.tdiv_eq_ediv, hsign]
      split <;> omega
    have hzero : (maxSize / 256).toNat = 0 := by omega
    rw [FrameDevice.format_of_numfp_le hle, hzero, Multiset.range_zero]
    constructor
    · rintro ⟨l, hl, hnil⟩
      rw [Multiset.coe_eq_zero] at hnil
      rw [hnil] at hl
      exact .inr (.inr ⟨hlt, hl⟩)
    · rintro (h | h | h)
      · omega
      · omega
      · exact ⟨[], h.2, rfl⟩
  · have hdiv : e.numfp 256 = maxSize / 256 := by
      rw [hnum, Int.tdiv_eq_ediv_of_nonneg (by omega)]
    rcases lt_or_ge maxSize 512 with hone | htwo
    · -- one frame: the link of its cell is not assigned
      have hnumone : e.numfp 256 = 1 := by omega
      have hn : (maxSize / 256).toNat = 1 := by omega
      rw [hn]
      simp only [FrameDevice.isList_format_one hnumone]
      constructor
      · rintro ⟨l, ⟨tail, rfl, htail⟩, heq⟩
        have hcard := congrArg Multiset.card heq
        simp only [Multiset.coe_card, List.length_cons, Multiset.card_range] at hcard
        obtain rfl := List.length_eq_zero_iff.mp (Nat.succ.inj hcard)
        exact .inr (.inl ⟨hge, htail⟩)
      · rintro (h | h | h)
        · omega
        · exact ⟨[0], ⟨[], rfl, h.2⟩, rfl⟩
        · omega
    · refine ⟨fun _ => .inl (by omega), fun _ => ?_⟩
      refine ⟨_, FrameDevice.isList_format (by omega), ?_⟩
      rw [hdiv]
      rfl

/-- A device without bytes, such as the unused swap devices of the shipped configurations, keeps
the pointer that the structure held before. -/
theorem not_framesKept_zero : ¬ ∀ (d : FrameDevice) (maxSize : ℤ), 0 ≤ maxSize →
    FramesKept d maxSize := by
  intro h
  obtain ⟨⟨l, hl, heq⟩, -⟩ := h ⟨⟨fun _ => ⟨7, none⟩, fun _ => false, 0, by simp⟩, 0, some 0⟩ 0
    le_rfl
  have hnil : l = [] := Multiset.coe_eq_zero _ |>.mp heq
  rw [hnil] at hl
  exact absurd hl (by simp [FrameDevice.initMemphy, FrameDevice.format])

end FrameRun

end Ossim
