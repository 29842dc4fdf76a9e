import Ossim.Paging.Mm

/-!
# The TLB cache

The functions of `src/cpu-tlbcache.c` that the processor uses.  A cache is a memory device whose
bytes hold lines of six: the process number, two bytes of the page number and three bytes of the
page table entry.  The line of a page starts at the byte `pgnum % (maxsz / 6)`, so neighbouring
lines overlap.

`BYTE` is a signed `char`: a byte that is read as an `int` is sign-extended.
-/

namespace Ossim

/-- A byte as an `int`. -/
def byteInt (b : Byte) : Word := b.signExtend 32

/-- `CACHE_LINE_SIZE`. -/
def cacheLineSize : ℤ := 6

/-- The first byte of the line of a page. -/
def tlbnb (mp : Memphy) (pgnum : ℤ) : ℤ := pgnum.tmod (mp.maxsz.tdiv cacheLineSize)

/-- `tlb_cache_read`: the status and the byte stored through `data`. -/
def tlbCacheRead (mp : Memphy) (pid : Word) (pgnum : ℤ) : ℤ × Option Byte :=
  let tlbnb := tlbnb mp pgnum
  let plbPid := byteInt (mp.storage tlbnb)
  let plbPgnum := byteInt (mp.storage (tlbnb + 1)) <<< 8 ||| byteInt (mp.storage (tlbnb + 2))
  if pid = plbPid ∧ BitVec.ofInt 32 pgnum = plbPgnum then
    let plbPte := byteInt (mp.storage (tlbnb + 3)) <<< 16 |||
      byteInt (mp.storage (tlbnb + 4)) <<< 8 ||| byteInt (mp.storage (tlbnb + 5))
    if !pagingPagePresent plbPte then (-1, some (-1))
    else (0, some (BitVec.ofNat 8 (pagingFpn plbPte)))
  else (-1, none)

/-- `tlb_cache_write`: the status and the cache. -/
def tlbCacheWrite (mp : Memphy) (pid : Word) (pgnum : ℤ) (pte : Word) : ℤ × Memphy :=
  if pgnum < 0 then (-1, mp)
  else
    let tlbnb := tlbnb mp pgnum
    let pgnum := BitVec.ofInt 32 pgnum
    let line : List Byte := [pid.setWidth 8, (pgnum >>> 8).setWidth 8, pgnum.setWidth 8,
      (pte >>> 16).setWidth 8, (pte >>> 8).setWidth 8, pte.setWidth 8]
    (0, { mp with
      storage := line.zipIdx.foldl (fun storage (b, i) => Function.update storage (tlbnb + i) b)
        mp.storage })

/-- `TLBMEMPHY_read`: the status and the byte stored through `value`. -/
def tlbmemphyRead (mp : Memphy) (addr : ℤ) : ℤ × Byte := (0, mp.storage addr)

/-- `TLBMEMPHY_write`. -/
def tlbmemphyWrite (mp : Memphy) (addr : ℤ) (data : Byte) : ℤ × Memphy :=
  (0, { mp with storage := Function.update mp.storage addr data })

/-- What a lookup may find: no entry of the page, an entry that is not present, or a present
one. -/
lemma tlbCacheRead_cases (mp : Memphy) (pid : Word) (pgnum : ℤ) :
    tlbCacheRead mp pid pgnum = (-1, none) ∨ tlbCacheRead mp pid pgnum = (-1, some (-1)) ∨
      ∃ frame, frame ≠ -1 ∧ tlbCacheRead mp pid pgnum = (0, some frame) := by
  unfold tlbCacheRead
  dsimp only
  split
  · split
    · exact .inr (.inl rfl)
    · refine .inr (.inr ⟨_, fun h => ?_, rfl⟩)
      have hnat := congrArg BitVec.toNat h
      rw [BitVec.toNat_ofNat, Nat.mod_eq_of_lt ((pagingFpn_lt _).trans (by decide))] at hnat
      exact absurd (hnat ▸ pagingFpn_lt _) (by decide)
  · exact .inl rfl

end Ossim
