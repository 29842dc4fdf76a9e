import Mathlib.Algebra.Ring.Int.Defs
import Mathlib.Algebra.Ring.Nat
import Mathlib.Data.List.TakeWhile

/-!
# Reading words and numbers

The conversions `%s`, `%u`, `%lu` and `%d` of `scanf`.  A text is the list of its words, the runs of
characters between white space.  All of them skip the white space in front of them, so no more of it
matters.  A conversion that stops inside a word leaves the rest of the word to the next one.  The
conversions of numbers read the same and differ in what they store.

`scanNumbers` reads as many of the numbers of one call as there are: the first conversion that
fails ends the call.  A numeral is a word that is a number as a whole; where a text has numerals,
`scanNumbers` reads them (`scanNumbers_of_numerals`).
-/

namespace Scan

/-- A word. -/
abbrev Token := List Char

/-- An optional sign: whether it is a minus, and what is behind it. -/
def sign : Token → Bool × Token
  | '-' :: cs => (true, cs)
  | '+' :: cs => (false, cs)
  | cs => (false, cs)

/-- The number that decimal digits stand for. -/
def ofDigits (ds : List Char) : ℕ := ds.foldl (fun n d => 10 * n + (d.toNat - '0'.toNat)) 0

/-- The number with a sign. -/
def signed (neg : Bool) (ds : List Char) : ℤ := if neg then -ofDigits ds else ofDigits ds

/-- `%s`: the next word, `none` at the end of the text. -/
def scanWord : List Token → Option Token × List Token
  | [] => (none, [])
  | tok :: toks => (some tok, toks)

/-- `%u`, before the conversion to `unsigned`: the next number, `none` at the end of the text or
where there is none.  A sign without a number is consumed. -/
def scanUnsigned : List Token → Option ℤ × List Token
  | [] => (none, [])
  | tok :: toks =>
    let (neg, cs) := sign tok
    let ds := cs.takeWhile Char.isDigit
    let left := cs.dropWhile Char.isDigit
    (if ds = [] then none else some (signed neg ds), if left = [] then toks else left :: toks)

/-- A call with `k` conversions `%u`: the numbers it stores and what it leaves of the text. -/
def scanNumbers : ℕ → List Token → List ℤ × List Token
  | 0, toks => ([], toks)
  | k + 1, toks =>
    match scanUnsigned toks with
    | (none, toks) => ([], toks)
    | (some v, toks) => (v :: (scanNumbers k toks).1, (scanNumbers k toks).2)

/-- What `%u` stores for a number.  The function that it is documented to use, `strtoul`, returns
`ULONG_MAX` for a number out of its range. -/
def toUnsigned (v : ℤ) : BitVec 32 :=
  if v.natAbs < 2 ^ 64 then BitVec.ofInt 32 v else BitVec.allOnes 32

/-- The number that a word is. -/
def numeral (tok : Token) : Option ℤ :=
  let (neg, ds) := sign tok
  if ds ≠ [] ∧ ds.all Char.isDigit then some (signed neg ds) else none

/-- The numbers that the next `k` words are, and the words behind them. -/
def numerals : ℕ → List Token → Option (List ℤ × List Token)
  | 0, toks => some ([], toks)
  | _ + 1, [] => none
  | k + 1, tok :: toks =>
    match numeral tok, numerals k toks with
    | some v, some (vs, rest) => some (v :: vs, rest)
    | _, _ => none

/-- A numeral is read as a whole. -/
lemma scanUnsigned_of_numeral {tok : Token} {v : ℤ} (h : numeral tok = some v)
    (toks : List Token) : scanUnsigned (tok :: toks) = (some v, toks) := by
  unfold numeral at h
  generalize hsign : sign tok = read at h
  obtain ⟨neg, ds⟩ := read
  dsimp only at h
  split at h
  · next hds =>
    obtain ⟨hne, hall⟩ := hds
    rw [List.all_eq_true] at hall
    have htake : ds.takeWhile Char.isDigit = ds := List.takeWhile_eq_self_iff.mpr hall
    have hdrop : ds.dropWhile Char.isDigit = [] := List.dropWhile_eq_nil_iff.mpr hall
    unfold scanUnsigned
    simp only [hsign, htake, hdrop, if_neg hne, if_true]
    rw [h]
  · exact absurd h (by simp)

/-- Numerals are read as they are. -/
lemma scanNumbers_of_numerals {k : ℕ} {toks rest : List Token} {vs : List ℤ}
    (h : numerals k toks = some (vs, rest)) : scanNumbers k toks = (vs, rest) := by
  induction k generalizing toks vs with
  | zero => exact Option.some.inj h
  | succ k ih =>
    cases toks with
    | nil => exact absurd h (by simp [numerals])
    | cons tok toks =>
      unfold numerals at h
      split at h
      · next v vs' rest' hv hvs =>
        obtain ⟨rfl, rfl⟩ := Prod.mk.inj (Option.some.inj h)
        unfold scanNumbers
        rw [scanUnsigned_of_numeral hv]
        dsimp only
        rw [ih hvs]
      · exact absurd h (by simp)

/-- There are as many numerals as asked for. -/
lemma length_of_numerals {k : ℕ} {toks rest : List Token} {vs : List ℤ}
    (h : numerals k toks = some (vs, rest)) : vs.length = k := by
  induction k generalizing toks vs with
  | zero =>
    obtain ⟨rfl, -⟩ := Prod.mk.inj (Option.some.inj h)
    rfl
  | succ k ih =>
    cases toks with
    | nil => exact absurd h (by simp [numerals])
    | cons tok toks =>
      unfold numerals at h
      split at h
      · next v vs' rest' hv hvs =>
        obtain ⟨rfl, rfl⟩ := Prod.mk.inj (Option.some.inj h)
        rw [List.length_cons, ih hvs]
      · exact absurd h (by simp)

/-- What is stored for a number is the number itself if it is in range, and only then. -/
lemma toNat_toUnsigned_iff (v : ℤ) : ((toUnsigned v).toNat : ℤ) = v ↔ 0 ≤ v ∧ v < 2 ^ 32 := by
  constructor
  · intro h
    have hlt := (toUnsigned v).isLt
    omega
  · rintro ⟨hlo, hhi⟩
    unfold toUnsigned
    rw [if_pos (by omega), BitVec.toNat_ofInt]
    omega

/-- What `%lu` stores for a number, for an `unsigned long` of 64 bits. -/
def toUnsignedLong (v : ℤ) : BitVec 64 :=
  if v.natAbs < 2 ^ 64 then BitVec.ofInt 64 v else BitVec.allOnes 64

lemma toNat_toUnsignedLong_iff (v : ℤ) :
    ((toUnsignedLong v).toNat : ℤ) = v ↔ 0 ≤ v ∧ v < 2 ^ 64 := by
  constructor
  · intro h
    have hlt := (toUnsignedLong v).isLt
    omega
  · rintro ⟨hlo, hhi⟩
    unfold toUnsignedLong
    rw [if_pos (by omega), BitVec.toNat_ofInt]
    omega

/-- What `%d` stores for a number: what `strtol` returns, cut off to an `int`. -/
def toSigned (v : ℤ) : BitVec 32 := BitVec.ofInt 32 (max (-2 ^ 63) (min v (2 ^ 63 - 1)))

lemma toInt_toSigned_iff (v : ℤ) : (toSigned v).toInt = v ↔ -2 ^ 31 ≤ v ∧ v < 2 ^ 31 := by
  constructor
  · intro h
    have hlo := (toSigned v).le_toInt
    have hhi := (toSigned v).toInt_lt
    omega
  · rintro ⟨hlo, hhi⟩
    unfold toSigned
    rw [BitVec.toInt_ofInt]
    have hcut : max (-2 ^ 63) (min v (2 ^ 63 - 1)) = v := by omega
    rw [hcut, Int.bmod_eq_of_le] <;> omega

end Scan
