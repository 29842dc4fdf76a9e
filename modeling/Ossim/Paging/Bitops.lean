import Mathlib.Data.Nat.Bitwise
import Mathlib.Tactic.Common

/-!
# Bit fields of machine words

The macros of `include/bitops.h` and the value operators of `include/mm.h`, on 32-bit
words: `genmask h l` is the word whose bits `l .. h` are set, `setval` overwrites a field
through such a mask, `getval` reads one.  Everything later modules need is what these
operations do to a single bit (`getLsbD_genmask`, `getLsbD_setval`, `testBit_getval`) and the
number a field reads as (`toNat_getval`).
-/

namespace Ossim

/-- `uint32_t`. -/
abbrev Word := BitVec 32

/-- `BIT(nr)`. -/
def bit (nr : ℕ) : Word := 1#32 <<< nr

/-- `GENMASK(h, l)`: the contiguous bit mask from bit `l` to bit `h`. -/
def genmask (h l : ℕ) : Word := (~~~0#32 <<< l) &&& (~~~0#32 >>> (32 - h - 1))

/-- `NBITS2(n)`. -/
def nbits2 (n : Word) : ℕ := if n &&& 2#32 ≠ 0#32 then 1 else 0

/-- `NBITS4(n)`. -/
def nbits4 (n : Word) : ℕ := if n &&& 0xC#32 ≠ 0#32 then 2 + nbits2 (n >>> 2) else nbits2 n

/-- `NBITS8(n)`. -/
def nbits8 (n : Word) : ℕ := if n &&& 0xF0#32 ≠ 0#32 then 4 + nbits4 (n >>> 4) else nbits4 n

/-- `NBITS16(n)`. -/
def nbits16 (n : Word) : ℕ := if n &&& 0xFF00#32 ≠ 0#32 then 8 + nbits8 (n >>> 8) else nbits8 n

/-- `NBITS32(n)`. -/
def nbits32 (n : Word) : ℕ :=
  if n &&& 0xFFFF0000#32 ≠ 0#32 then 16 + nbits16 (n >>> 16) else nbits16 n

/-- `NBITS(n)`: the position of the highest set bit. -/
def nbits (n : Word) : ℕ := if n = 0#32 then 0 else nbits32 n

/-- `SETVAL(v, value, mask, offst)`. -/
def setval (v value mask : Word) (offst : ℕ) : Word :=
  (v &&& ~~~mask) ||| ((value <<< offst) &&& mask)

/-- `GETVAL(v, mask, offst)`. -/
def getval (v mask : Word) (offst : ℕ) : Word := (v &&& mask) >>> offst

/-! ## What the operations do to one bit -/

/-- `BIT(nr)` has exactly bit `nr` set. -/
lemma getLsbD_bit {nr i : ℕ} (hnr : nr < 32) : (bit nr).getLsbD i = decide (i = nr) := by
  simp only [bit, BitVec.getLsbD_shiftLeft, BitVec.getLsbD_one]
  grind

/-- The mask has exactly the bits from `l` to `h` set. -/
lemma getLsbD_genmask {h l i : ℕ} (hh : h < 32) :
    (genmask h l).getLsbD i = decide (l ≤ i ∧ i ≤ h) := by
  simp only [genmask, BitVec.getLsbD_and, BitVec.getLsbD_shiftLeft, BitVec.getLsbD_ushiftRight,
    BitVec.getLsbD_not, BitVec.getLsbD_zero]
  grind

/-- Setting a field replaces its bits by the bits of the value and keeps all others. -/
lemma getLsbD_setval {h l i : ℕ} (hh : h < 32) (v x : Word) :
    (setval v x (genmask h l) l).getLsbD i =
      if l ≤ i ∧ i ≤ h then x.getLsbD (i - l) else v.getLsbD i := by
  simp only [setval, BitVec.getLsbD_and, BitVec.getLsbD_or, BitVec.getLsbD_shiftLeft,
    BitVec.getLsbD_not, getLsbD_genmask hh]
  grind

/-- A field that is read has the bits of the word from `l` to `h`. -/
lemma testBit_getval {h l i : ℕ} (hh : h < 32) (v : Word) :
    (getval v (genmask h l) l).toNat.testBit i =
      (decide (l + i ≤ h) && v.getLsbD (l + i)) := by
  simp only [getval, BitVec.testBit_toNat, BitVec.getLsbD_ushiftRight, BitVec.getLsbD_and,
    getLsbD_genmask hh]
  grind

/-- The number a field reads as: shift its low end down and cut it to its width. -/
lemma toNat_getval {h l : ℕ} (hh : h < 32) (hl : l ≤ h) (v : Word) :
    (getval v (genmask h l) l).toNat = v.toNat / 2 ^ l % 2 ^ (h + 1 - l) := by
  apply Nat.eq_of_testBit_eq
  intro i
  rw [testBit_getval hh]
  simp only [Nat.testBit_mod_two_pow, Nat.testBit_div_two_pow, BitVec.testBit_toNat]
  grind

end Ossim
