import Ossim.Paging.Pte
import Mathlib.Logic.Function.Basic
import Mathlib.Data.Int.Notation

/-!
# Physical memory devices

`struct memphy_struct` and the functions of `src/mm-memphy.c`.  A device has a byte storage, a
size, an access mode with a cursor for the sequential mode, and the list of its free frames.

The storage is a function on all of `ℤ`: addresses outside `0 .. maxsz - 1` stand for the memory
around the array, which the code would read or write for such an index.  What a function stores
through a pointer argument is returned as an `Option`, `none` where the code leaves the target
alone.  Contents the code does not assign (the bytes of a fresh storage, the fields of the
structure before `init_memphy`, the link of a node that is never set) are parameters.
-/

namespace Ossim

/-- `BYTE`, a `char`. -/
abbrev Byte := BitVec 8

/-- `struct memphy_struct`. -/
structure Memphy where
  /-- The byte array. -/
  storage : ℤ → Byte
  /-- Its size. -/
  maxsz : ℤ
  /-- Random access (`true`) or sequential access. -/
  rdmflg : Bool
  /-- The cursor of a sequential device. -/
  cursor : ℤ
  /-- The free frames, first one first. -/
  freeFpList : List ℕ

namespace Memphy

/-- The cursor after `n` turns of the loop of `MEMPHY_mv_csr`. -/
def mvCsrLoop (maxsz : ℤ) : ℕ → ℤ → ℤ
  | 0, cursor => cursor
  | n + 1, cursor => mvCsrLoop maxsz n ((cursor + 1).tmod maxsz)

/-- `MEMPHY_mv_csr`: the loop runs while its step count is below `offset` and `maxsz`. -/
def mvCsr (mp : Memphy) (offset : ℤ) : Memphy :=
  { mp with cursor := mvCsrLoop mp.maxsz (min offset mp.maxsz).toNat 0 }

/-- `MEMPHY_seq_read`. -/
def seqRead (mp : Memphy) (addr : ℤ) : ℤ × Memphy × Option Byte :=
  if !mp.rdmflg then (-1, mp, none)
  else
    let mp := mp.mvCsr addr
    (0, mp, some (mp.storage addr))

/-- `MEMPHY_read`: the status, the device and the byte stored through `value`. -/
def read (mp : Memphy) (addr : ℤ) : ℤ × Memphy × Option Byte :=
  if mp.rdmflg then (0, mp, some (mp.storage addr)) else mp.seqRead addr

/-- `MEMPHY_seq_write`. -/
def seqWrite (mp : Memphy) (addr : ℤ) (value : Byte) : ℤ × Memphy :=
  if !mp.rdmflg then (-1, mp)
  else
    let mp := mp.mvCsr addr
    (0, { mp with storage := Function.update mp.storage addr value })

/-- `MEMPHY_write`. -/
def write (mp : Memphy) (addr : ℤ) (data : Byte) : ℤ × Memphy :=
  if mp.rdmflg then (0, { mp with storage := Function.update mp.storage addr data })
  else mp.seqWrite addr data

/-- `MEMPHY_format`.  The link of the first node is set only when there is a second one; with a
single frame it keeps what the fresh node held, here the list `tail`. -/
def format (mp : Memphy) (pagesz : ℤ) (tail : List ℕ) : ℤ × Memphy :=
  let numfp := mp.maxsz.tdiv pagesz
  if numfp ≤ 0 then (-1, mp)
  else (0, { mp with
    freeFpList := 0 :: if numfp = 1 then tail else List.range' 1 (numfp.toNat - 1) })

/-- `MEMPHY_get_freefp`: the frame taken off the free list, `none` for the status `-1`. -/
def getFreefp (mp : Memphy) : Option (ℕ × Memphy) :=
  match mp.freeFpList with
  | [] => none
  | fpn :: fpNext => some (fpn, { mp with freeFpList := fpNext })

/-- `MEMPHY_put_freefp`. -/
def putFreefp (mp : Memphy) (fpn : ℕ) : Memphy :=
  { mp with freeFpList := fpn :: mp.freeFpList }

/-- `init_memphy` on a structure that held `mp` before; the bytes of the storage that `malloc`
returned are those of `mp`. -/
def initMemphy (mp : Memphy) (tail : List ℕ) (maxSize : ℤ) (randomflg : Bool) : Memphy :=
  let mp := { mp with maxsz := maxSize }
  let mp := (mp.format pagingPagesz tail).2
  let mp := { mp with rdmflg := randomflg }
  if !mp.rdmflg then { mp with cursor := 0 } else mp

/-! ## Random access devices -/

lemma read_of_rdmflg {mp : Memphy} (h : mp.rdmflg = true) (addr : ℤ) :
    mp.read addr = (0, mp, some (mp.storage addr)) := by
  simp [read, h]

lemma write_of_rdmflg {mp : Memphy} (h : mp.rdmflg = true) (addr : ℤ) (data : Byte) :
    mp.write addr data = (0, { mp with storage := Function.update mp.storage addr data }) := by
  simp [write, h]

/-- A read stores nothing in the device but a cursor. -/
lemma read_device (mp : Memphy) (addr : ℤ) :
    ∃ cursor, (mp.read addr).2.1 = { mp with cursor := cursor } := by
  unfold read seqRead mvCsr
  split
  · exact ⟨mp.cursor, rfl⟩
  · split
    · exact ⟨mp.cursor, rfl⟩
    · exact ⟨_, rfl⟩

lemma storage_read (mp : Memphy) (addr : ℤ) : (mp.read addr).2.1.storage = mp.storage := by
  obtain ⟨cursor, h⟩ := mp.read_device addr
  rw [h]

@[simp] lemma freeFpList_read (mp : Memphy) (addr : ℤ) :
    (mp.read addr).2.1.freeFpList = mp.freeFpList := by
  obtain ⟨cursor, h⟩ := mp.read_device addr
  rw [h]

@[simp] lemma rdmflg_read (mp : Memphy) (addr : ℤ) :
    (mp.read addr).2.1.rdmflg = mp.rdmflg := by
  obtain ⟨cursor, h⟩ := mp.read_device addr
  rw [h]

/-- A write stores nothing in the device but bytes and a cursor. -/
lemma write_device (mp : Memphy) (addr : ℤ) (data : Byte) :
    ∃ storage cursor,
      (mp.write addr data).2 = { mp with storage := storage, cursor := cursor } := by
  unfold write seqWrite mvCsr
  split
  · exact ⟨_, mp.cursor, rfl⟩
  · split
    · exact ⟨mp.storage, mp.cursor, rfl⟩
    · exact ⟨_, _, rfl⟩

@[simp] lemma freeFpList_write (mp : Memphy) (addr : ℤ) (data : Byte) :
    (mp.write addr data).2.freeFpList = mp.freeFpList := by
  obtain ⟨storage, cursor, h⟩ := mp.write_device addr data
  rw [h]

@[simp] lemma rdmflg_write (mp : Memphy) (addr : ℤ) (data : Byte) :
    (mp.write addr data).2.rdmflg = mp.rdmflg := by
  obtain ⟨storage, cursor, h⟩ := mp.write_device addr data
  rw [h]

@[simp] lemma rdmflg_initMemphy (mp : Memphy) (tail : List ℕ) (maxSize : ℤ) (randomflg : Bool) :
    (mp.initMemphy tail maxSize randomflg).rdmflg = randomflg := by
  unfold initMemphy
  cases randomflg <;> rfl

/-! ## The free list -/

/-- Taking a frame removes the first one of the list and touches nothing else. -/
lemma getFreefp_eq_some {mp mp' : Memphy} {fpn : ℕ} :
    mp.getFreefp = some (fpn, mp') ↔
      ∃ fpNext, mp.freeFpList = fpn :: fpNext ∧ mp' = { mp with freeFpList := fpNext } := by
  unfold getFreefp
  cases hl : mp.freeFpList with
  | nil => simp
  | cons f fs =>
    simp only [Option.some.injEq, Prod.mk.injEq, List.cons.injEq]
    grind

lemma getFreefp_eq_none {mp : Memphy} : mp.getFreefp = none ↔ mp.freeFpList = [] := by
  unfold getFreefp
  cases mp.freeFpList <;> simp

end Memphy

end Ossim
