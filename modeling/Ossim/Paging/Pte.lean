import Ossim.Paging.Bitops

/-!
# Page table entries and paged addresses

The constants and decoders of `include/mm.h` and the two setters of `src/mm.c` that the memory
manager uses.  The setters store a frame number in bits `0 .. 12` (`PAGING_PTE_FPN_MASK`) and a
swap offset in bits `5 .. 25` (`PAGING_PTE_SWPOFF_MASK`).  The decoders `PAGING_FPN` and
`PAGING_SWP` take their masks from the size of an address and of the memories instead, so they
read bits `8 .. 9` (`pagingFpn_eq`) and `8 .. 13`.  The fields the setters fill
are `recordedFpn` and `recordedSwpoff`.
-/

namespace Ossim

/-! ## Constants -/

/-- `PAGING_CPU_BUS_WIDTH`. -/
def pagingCpuBusWidth : ℕ := 22

/-- `PAGING_PAGESZ`. -/
abbrev pagingPagesz : ℕ := 256

/-- `PAGING_MEMRAMSZ`. -/
def pagingMemramsz : Word := bit 10

/-- `PAGING_MEMSWPSZ`. -/
def pagingMemswpsz : Word := bit 14

/-- `PAGING_SWPFPN_OFFSET`. -/
def pagingSwpfpnOffset : ℕ := 5

/-- `PAGING_MAX_PGN`: the number of entries of a page table. -/
def pagingMaxPgn : ℕ := (2 ^ pagingCpuBusWidth + pagingPagesz - 1) / pagingPagesz

lemma pagingPagesz_eq : pagingPagesz = 256 := rfl

lemma pagingPagesz_cast : ((pagingPagesz : ℕ) : ℤ) = 256 := rfl

lemma pagingMaxPgn_eq : pagingMaxPgn = 16384 := rfl

/-- `NBITS(PAGING_PAGESZ)`, the low bit of every page and frame number in an address. -/
def pagingPageszBits : ℕ := nbits (BitVec.ofNat 32 pagingPagesz)

/-- `PAGING_PTE_PRESENT_MASK`. -/
def pagingPtePresentMask : Word := bit 31

/-- `PAGING_PTE_SWAPPED_MASK`. -/
def pagingPteSwappedMask : Word := bit 30

/-- `PAGING_PTE_FPN_MASK`. -/
def pagingPteFpnMask : Word := genmask 12 0

/-- `PAGING_PTE_SWPTYP_MASK`. -/
def pagingPteSwptypMask : Word := genmask 4 0

/-- `PAGING_PTE_SWPOFF_MASK`. -/
def pagingPteSwpoffMask : Word := genmask 25 5

/-- `PAGING_OFFST_MASK`. -/
def pagingOffstMask : Word := genmask (pagingPageszBits - 1) 0

/-- `PAGING_PGN_MASK`. -/
def pagingPgnMask : Word := genmask (pagingCpuBusWidth - 1) pagingPageszBits

/-- `PAGING_FPN_MASK`. -/
def pagingFpnMask : Word := genmask (nbits pagingMemramsz - 1) pagingPageszBits

/-- `PAGING_SWP_MASK`. -/
def pagingSwpMask : Word := genmask (nbits pagingMemswpsz - 1) pagingPageszBits

/-! ## Decoders -/

/-- `PAGING_PAGE_PRESENT(pte)`. -/
def pagingPagePresent (pte : Word) : Bool := decide (pte &&& pagingPtePresentMask ≠ 0#32)

/-- The swapped bit `PAGING_PTE_SWAPPED_MASK` of an entry. -/
def pteSwapped (pte : Word) : Bool := decide (pte &&& pagingPteSwappedMask ≠ 0#32)

/-- An entry of a page in RAM: present and not swapped out. -/
def pteResident (pte : Word) : Bool := pagingPagePresent pte && !pteSwapped pte

/-- `PAGING_OFFST(x)`: the offset of an address in its page. -/
def pagingOffst (x : Word) : ℕ := (getval x pagingOffstMask 0).toNat

/-- `PAGING_PGN(x)`: the page number of an address. -/
def pagingPgn (x : Word) : ℕ := (getval x pagingPgnMask pagingPageszBits).toNat

/-- `PAGING_FPN(x)`: the frame number the code reads off an entry. -/
def pagingFpn (x : Word) : ℕ := (getval x pagingFpnMask pagingPageszBits).toNat

/-- `PAGING_SWP(pte)`: the swap frame number the code reads off an entry. -/
def pagingSwp (pte : Word) : ℕ := ((pte &&& pagingSwpMask) >>> pagingSwpfpnOffset).toNat

/-- The frame number in the field that `pte_set_fpn` fills, bits `0 .. 12`. -/
def recordedFpn (pte : Word) : ℕ := (getval pte pagingPteFpnMask 0).toNat

/-- The swap frame number in the field that `pte_set_swap` fills, bits `5 .. 25`. -/
def recordedSwpoff (pte : Word) : ℕ := (getval pte pagingPteSwpoffMask 5).toNat

/-! ## Setters -/

/-- `pte_set_swap`. -/
def pteSetSwap (pte : Word) (swptyp swpoff : ℕ) : Word :=
  let pte := pte ||| pagingPtePresentMask
  let pte := pte ||| pagingPteSwappedMask
  let pte := setval pte (BitVec.ofNat 32 swptyp) pagingPteSwptypMask 0
  setval pte (BitVec.ofNat 32 swpoff) pagingPteSwpoffMask 5

/-- `pte_set_fpn`. -/
def pteSetFpn (pte : Word) (fpn : ℕ) : Word :=
  let pte := pte ||| pagingPtePresentMask
  let pte := pte &&& ~~~pagingPteSwappedMask
  setval pte (BitVec.ofNat 32 fpn) pagingPteFpnMask 0

/-! ## What the decoders read -/

@[simp] lemma pagingPageszBits_eq : pagingPageszBits = 8 := by decide

lemma nbits_pagingMemramsz : nbits pagingMemramsz = 10 := by decide

/-- `PAGING_OFFST` is the address modulo the page size. -/
lemma pagingOffst_eq (x : Word) : pagingOffst x = x.toNat % 256 := by
  have h := toNat_getval (h := 7) (l := 0) (by omega) (by omega) x
  simpa [pagingOffst, pagingOffstMask] using h

lemma pagingOffst_lt (x : Word) : pagingOffst x < pagingPagesz := by
  rw [pagingOffst_eq]
  exact Nat.mod_lt _ (by decide)

/-- `PAGING_PGN` is the page of the address, cut to the bus width. -/
lemma pagingPgn_eq (x : Word) : pagingPgn x = x.toNat / 256 % 16384 := by
  have h := toNat_getval (h := 21) (l := 8) (by omega) (by omega) x
  simpa [pagingPgn, pagingPgnMask, pagingCpuBusWidth] using h

/-- `PAGING_FPN` reads bits `8 .. 9` of an entry. -/
lemma pagingFpn_eq (x : Word) : pagingFpn x = x.toNat / 256 % 4 := by
  have h := toNat_getval (h := 9) (l := 8) (by omega) (by omega) x
  simpa [pagingFpn, pagingFpnMask, nbits_pagingMemramsz] using h

/-- The frame number the code reads off an entry is at most 3. -/
lemma pagingFpn_lt (x : Word) : pagingFpn x < 4 := by
  rw [pagingFpn_eq]
  omega

/-- `PAGING_SWP` reads six bits of the recorded swap frame number, in their place. -/
lemma pagingSwp_eq (pte : Word) : pagingSwp pte = recordedSwpoff pte / 8 % 64 * 8 := by
  apply Nat.eq_of_testBit_eq
  intro i
  have hmask : pagingSwpMask = genmask 13 8 := by decide
  rw [pagingSwp, hmask, pagingSwpfpnOffset, BitVec.testBit_toNat, BitVec.getLsbD_ushiftRight,
    BitVec.getLsbD_and, getLsbD_genmask (by omega), show (64 : ℕ) = 2 ^ 6 by rfl,
    show (8 : ℕ) = 2 ^ 3 by rfl, Nat.testBit_mul_two_pow, Nat.testBit_mod_two_pow,
    Nat.testBit_div_two_pow, recordedSwpoff, pagingPteSwpoffMask, testBit_getval (by omega)]
  grind

/-- The test for one mask bit asks for that bit. -/
lemma and_bit_ne_zero {nr : ℕ} (hnr : nr < 32) (x : Word) :
    decide (x &&& bit nr ≠ 0#32) = x.getLsbD nr := by
  rw [Bool.eq_iff_iff, decide_eq_true_iff]
  constructor
  · intro h
    by_contra hx
    refine h (BitVec.eq_of_getLsbD_eq fun i hi => ?_)
    rw [BitVec.getLsbD_and, getLsbD_bit hnr, BitVec.getLsbD_zero]
    by_cases hin : i = nr
    · subst hin
      simpa using hx
    · simp [hin]
  · intro hx h
    have hbit : (x &&& bit nr).getLsbD nr = true := by
      rw [BitVec.getLsbD_and, getLsbD_bit hnr, hx]
      simp
    rw [h, BitVec.getLsbD_zero] at hbit
    exact absurd hbit (by decide)

lemma pagingPagePresent_eq (pte : Word) : pagingPagePresent pte = pte.getLsbD 31 :=
  and_bit_ne_zero (by omega) pte

lemma pteSwapped_eq (pte : Word) : pteSwapped pte = pte.getLsbD 30 :=
  and_bit_ne_zero (by omega) pte

/-- A page in RAM is not swapped out. -/
lemma pteSwapped_of_resident {pte : Word} (h : pteResident pte = true) :
    pteSwapped pte = false := by
  unfold pteResident at h
  simpa using (Bool.and_eq_true_iff.mp h).2

/-! ## Entries that the setters build -/

/-- The bits of an entry set to a frame: the frame number, the present bit, no swapped bit. -/
lemma getLsbD_pteSetFpn (pte : Word) (fpn i : ℕ) (hi : i < 32) :
    (pteSetFpn pte fpn).getLsbD i =
      if i ≤ 12 then fpn.testBit i
      else if i = 30 then false else if i = 31 then true else pte.getLsbD i := by
  rw [pteSetFpn, pagingPteFpnMask, getLsbD_setval (by omega)]
  simp only [pagingPtePresentMask, pagingPteSwappedMask, BitVec.getLsbD_and, BitVec.getLsbD_or,
    BitVec.getLsbD_not, BitVec.getLsbD_ofNat, getLsbD_bit (show 31 < 32 by omega),
    getLsbD_bit (show 30 < 32 by omega)]
  grind

/-- The bits of an entry set to a swap frame: both state bits, the type and the offset. -/
lemma getLsbD_pteSetSwap (pte : Word) (swptyp swpoff i : ℕ) (hi : i < 32) :
    (pteSetSwap pte swptyp swpoff).getLsbD i =
      if i ≤ 4 then swptyp.testBit i else if i ≤ 25 then swpoff.testBit (i - 5)
      else if i = 30 ∨ i = 31 then true else pte.getLsbD i := by
  rw [pteSetSwap, pagingPteSwpoffMask, getLsbD_setval (by omega), pagingPteSwptypMask,
    getLsbD_setval (by omega)]
  simp only [pagingPtePresentMask, pagingPteSwappedMask, BitVec.getLsbD_or,
    BitVec.getLsbD_ofNat, getLsbD_bit (show 31 < 32 by omega),
    getLsbD_bit (show 30 < 32 by omega)]
  grind

@[simp] lemma pagingPagePresent_pteSetFpn (pte : Word) (fpn : ℕ) :
    pagingPagePresent (pteSetFpn pte fpn) = true := by
  rw [pagingPagePresent_eq, getLsbD_pteSetFpn _ _ _ (by omega)]
  rfl

@[simp] lemma pteSwapped_pteSetFpn (pte : Word) (fpn : ℕ) :
    pteSwapped (pteSetFpn pte fpn) = false := by
  rw [pteSwapped_eq, getLsbD_pteSetFpn _ _ _ (by omega)]
  rfl

@[simp] lemma pagingPagePresent_pteSetSwap (pte : Word) (swptyp swpoff : ℕ) :
    pagingPagePresent (pteSetSwap pte swptyp swpoff) = true := by
  rw [pagingPagePresent_eq, getLsbD_pteSetSwap _ _ _ _ (by omega)]
  rfl

@[simp] lemma pteSwapped_pteSetSwap (pte : Word) (swptyp swpoff : ℕ) :
    pteSwapped (pteSetSwap pte swptyp swpoff) = true := by
  rw [pteSwapped_eq, getLsbD_pteSetSwap _ _ _ _ (by omega)]
  rfl

/-- `pte_set_fpn` records the frame number, up to the width of its field. -/
lemma recordedFpn_pteSetFpn (pte : Word) (fpn : ℕ) :
    recordedFpn (pteSetFpn pte fpn) = fpn % 2 ^ 13 := by
  apply Nat.eq_of_testBit_eq
  intro i
  rw [recordedFpn, pagingPteFpnMask, testBit_getval (by omega), Nat.testBit_mod_two_pow]
  by_cases hi : i ≤ 12
  · rw [getLsbD_pteSetFpn _ _ _ (by omega)]
    grind
  · grind

/-- `pte_set_swap` records the swap frame number, up to the width of its field. -/
lemma recordedSwpoff_pteSetSwap (pte : Word) (swptyp swpoff : ℕ) :
    recordedSwpoff (pteSetSwap pte swptyp swpoff) = swpoff % 2 ^ 21 := by
  apply Nat.eq_of_testBit_eq
  intro i
  rw [recordedSwpoff, pagingPteSwpoffMask, testBit_getval (by omega), Nat.testBit_mod_two_pow]
  by_cases hi : i < 21
  · rw [getLsbD_pteSetSwap _ _ _ _ (by omega)]
    grind
  · grind

/-- The decoder `PAGING_FPN` does not read back the frame number that `pte_set_fpn` stored. -/
lemma pagingFpn_pteSetFpn (pte : Word) (fpn : ℕ) :
    pagingFpn (pteSetFpn pte fpn) = fpn / 256 % 4 := by
  apply Nat.eq_of_testBit_eq
  intro i
  rw [pagingFpn, pagingFpnMask, nbits_pagingMemramsz, pagingPageszBits_eq,
    testBit_getval (by omega), show (4 : ℕ) = 2 ^ 2 by rfl, show (256 : ℕ) = 2 ^ 8 by rfl,
    Nat.testBit_mod_two_pow, Nat.testBit_div_two_pow]
  by_cases hi : i < 2
  · rw [getLsbD_pteSetFpn _ _ _ (by omega)]
    grind
  · grind

/-- The frame number `PAGING_FPN` reads off a swapped-out page's entry: two bits of its swap
frame number. -/
lemma pagingFpn_pteSetSwap (pte : Word) (swptyp swpoff : ℕ) :
    pagingFpn (pteSetSwap pte swptyp swpoff) = swpoff / 8 % 4 := by
  apply Nat.eq_of_testBit_eq
  intro i
  rw [pagingFpn, pagingFpnMask, nbits_pagingMemramsz, pagingPageszBits_eq,
    testBit_getval (by omega), show (4 : ℕ) = 2 ^ 2 by rfl, show (8 : ℕ) = 2 ^ 3 by rfl,
    Nat.testBit_mod_two_pow, Nat.testBit_div_two_pow]
  by_cases hi : i < 2
  · rw [getLsbD_pteSetSwap _ _ _ _ (by omega)]
    grind
  · grind

/-- An entry that `init_mm` cleared is neither present nor swapped. -/
@[simp] lemma pagingPagePresent_zero : pagingPagePresent 0#32 = false := by decide

@[simp] lemma pteSwapped_zero : pteSwapped 0#32 = false := by decide

end Ossim
