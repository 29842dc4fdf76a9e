import Ossim.Tlb.Coherence

/-!
# Lines of the TLB

A line is six signed bytes.  `tlb_cache_write` cuts the process number, the page number and the
entry into them, and a lookup puts them together again with their signs.

A negative byte spoils the number it is part of, so a lookup can find only the processes up to 127
and the pages whose number has two small bytes (`LineFits`); and the frame number is lost, unless
it is 0 (`readsFrame_iff`).  A line starts at the byte `pgnum % (maxsz / 6)`, so the lines of two
pages overlap unless they start six bytes apart (`keepsRead_iff`).
-/

namespace Ossim

/-! ## Signed bytes -/

/-- A number from `-128` to `127` is what its lowest byte says. -/
lemma eq_byteInt_iff (x : Word) (b : Byte) :
    x = byteInt b ↔ (-128 ≤ x.toInt ∧ x.toInt < 128) ∧ b = x.setWidth 8 := by
  constructor
  · rintro rfl
    have hint : (byteInt b).toInt = b.toInt := BitVec.toInt_signExtend_of_le (by decide)
    have hlo := BitVec.le_toInt b
    have hhi := BitVec.toInt_lt (x := b)
    refine ⟨by omega, ?_⟩
    apply BitVec.eq_of_getLsbD_eq
    intro i hi
    rw [BitVec.getLsbD_setWidth, byteInt, BitVec.getLsbD_signExtend]
    simp [hi, show i < 32 by omega]
  · rintro ⟨⟨hlo, hhi⟩, rfl⟩
    apply BitVec.eq_of_toInt_eq
    rw [byteInt, BitVec.toInt_signExtend_of_le (by decide), BitVec.toInt_setWidth,
      Int.bmod_def]
    have hint := BitVec.toInt_eq_toNat_cond x
    split at hint <;> split <;> omega

/-- A byte without its top bit is read as the number it holds. -/
lemma toNat_byteInt {b : Byte} (h : b.msb = false) : (byteInt b).toNat = b.toNat := by
  rw [byteInt, BitVec.signExtend_eq_setWidth_of_msb_false h, BitVec.toNat_setWidth]
  exact Nat.mod_eq_of_lt (b.isLt.trans (by decide))

/-- The pages whose numbers a line can hold: both bytes are less than 128. -/
def PageFits (pgnum : ℕ) : Prop := pgnum < 2 ^ 15 ∧ pgnum % 256 < 128

instance (pgnum : ℕ) : Decidable (PageFits pgnum) := inferInstanceAs (Decidable (_ ∧ _))

/-- The bytes that a lookup takes for a page number. -/
lemma eq_byteInt_pair_iff {pgnum : ℕ} (h : pgnum < 2 ^ 31) (a b : Byte) :
    BitVec.ofNat 32 pgnum = byteInt a <<< 8 ||| byteInt b ↔
      PageFits pgnum ∧ a = BitVec.ofNat 8 (pgnum / 256) ∧ b = BitVec.ofNat 8 pgnum := by
  have hpair : a.msb = false → b.msb = false →
      (byteInt a <<< 8 ||| byteInt b).toNat = a.toNat * 256 + b.toNat := by
    intro ha hb
    have halt := a.isLt
    rw [BitVec.toNat_or, BitVec.toNat_shiftLeft, toNat_byteInt ha, toNat_byteInt hb,
      Nat.mod_eq_of_lt (by rw [Nat.shiftLeft_eq]; omega), ← Nat.shiftLeft_add_eq_or_of_lt b.isLt,
      Nat.shiftLeft_eq]
  constructor
  · intro heq
    have htop : (BitVec.ofNat 32 pgnum).getLsbD 31 = (a.msb || b.msb) := by
      rw [heq, BitVec.getLsbD_or, BitVec.getLsbD_shiftLeft, byteInt, byteInt,
        BitVec.getLsbD_signExtend, BitVec.getLsbD_signExtend]
      simp
    rw [BitVec.getLsbD_ofNat, Nat.testBit_lt_two_pow h, Bool.and_false, eq_comm,
      Bool.or_eq_false_iff] at htop
    obtain ⟨ha, hb⟩ := htop
    have hnat := congrArg BitVec.toNat heq
    rw [hpair ha hb, BitVec.toNat_ofNat, Nat.mod_eq_of_lt (by omega)] at hnat
    rw [BitVec.msb_eq_false_iff_two_mul_lt] at ha hb
    refine ⟨⟨by omega, by omega⟩, ?_, ?_⟩
    · apply BitVec.eq_of_toNat_eq
      rw [BitVec.toNat_ofNat]
      omega
    · apply BitVec.eq_of_toNat_eq
      rw [BitVec.toNat_ofNat]
      omega
  · rintro ⟨⟨hlt, hlow⟩, rfl, rfl⟩
    have ha : (BitVec.ofNat 8 (pgnum / 256)).msb = false := by
      rw [BitVec.msb_eq_false_iff_two_mul_lt, BitVec.toNat_ofNat]
      omega
    have hb : (BitVec.ofNat 8 pgnum).msb = false := by
      rw [BitVec.msb_eq_false_iff_two_mul_lt, BitVec.toNat_ofNat]
      omega
    apply BitVec.eq_of_toNat_eq
    rw [hpair ha hb, BitVec.toNat_ofNat, BitVec.toNat_ofNat, BitVec.toNat_ofNat]
    omega

/-! ## Writing and reading a line -/

/-- The line of a process and a page exists: both numbers can be read back. -/
def LineFits (pid : Word) (pgnum : ℕ) : Prop :=
  (-128 ≤ pid.toInt ∧ pid.toInt < 128) ∧ PageFits pgnum

instance (pid : Word) (pgnum : ℕ) : Decidable (LineFits pid pgnum) :=
  inferInstanceAs (Decidable (_ ∧ _))

/-- The bytes that `tlb_cache_write` stores. -/
def lineByte (pid : Word) (pgnum : ℕ) (pte : Word) : ℕ → Byte
  | 0 => pid.setWidth 8
  | 1 => BitVec.ofNat 8 (pgnum / 256)
  | 2 => BitVec.ofNat 8 pgnum
  | 3 => (pte >>> 16).setWidth 8
  | 4 => (pte >>> 8).setWidth 8
  | _ => pte.setWidth 8

/-- The storage after a line was written. -/
lemma storage_tlbCacheWrite (mp : Memphy) (pid : Word) (pgnum : ℕ) (pte : Word) (x : ℤ) :
    (tlbCacheWrite mp pid pgnum pte).2.storage x =
      if 0 ≤ x - tlbnb mp pgnum ∧ x - tlbnb mp pgnum < 6 then
        lineByte pid pgnum pte (x - tlbnb mp pgnum).toNat
      else mp.storage x := by
  have hhigh : (BitVec.ofNat 32 pgnum >>> 8).setWidth 8 = BitVec.ofNat 8 (pgnum / 256) := by
    apply BitVec.eq_of_toNat_eq
    simp only [BitVec.toNat_setWidth, BitVec.toNat_ushiftRight, BitVec.toNat_ofNat,
      Nat.shiftRight_eq_div_pow]
    omega
  have hlow : (BitVec.ofNat 32 pgnum).setWidth 8 = BitVec.ofNat 8 pgnum := by
    apply BitVec.eq_of_toNat_eq
    simp only [BitVec.toNat_setWidth, BitVec.toNat_ofNat]
    omega
  obtain ⟨i, rfl⟩ : ∃ i, x = tlbnb mp pgnum + i := ⟨x - tlbnb mp pgnum, by omega⟩
  unfold tlbCacheWrite
  rw [if_neg (Int.not_lt.mpr (Int.natCast_nonneg _))]
  simp only [List.zipIdx_cons, List.zipIdx_nil, List.foldl_cons, List.foldl_nil,
    Function.update_apply, add_sub_cancel_left, add_right_inj, BitVec.ofInt_natCast, hhigh, hlow]
  by_cases hi : 0 ≤ i ∧ i < 6
  · rw [if_pos hi]
    obtain rfl | rfl | rfl | rfl | rfl | rfl : i = 0 ∨ i = 1 ∨ i = 2 ∨ i = 3 ∨ i = 4 ∨ i = 5 := by
      omega
    all_goals rfl
  · have hne : ∀ k : ℕ, k < 6 → i ≠ k := fun k hk => by omega
    rw [if_neg hi, if_neg (hne _ (by decide)), if_neg (hne _ (by decide)),
      if_neg (hne _ (by decide)), if_neg (hne _ (by decide)), if_neg (hne _ (by decide)),
      if_neg (hne _ (by decide))]

/-- A line carries the numbers of a lookup. -/
lemma tagMatches_iff (mp : Memphy) (pid : Word) {pgnum : ℕ} (h : pgnum < 2 ^ 31) :
    TagMatches mp pid pgnum ↔ LineFits pid pgnum ∧
      mp.storage (tlbnb mp pgnum) = pid.setWidth 8 ∧
      mp.storage (tlbnb mp pgnum + 1) = BitVec.ofNat 8 (pgnum / 256) ∧
      mp.storage (tlbnb mp pgnum + 2) = BitVec.ofNat 8 pgnum := by
  unfold TagMatches LineFits
  rw [BitVec.ofInt_natCast, eq_byteInt_pair_iff h, eq_byteInt_iff]
  tauto

/-! ## What a lookup delivers -/

instance (mp : Memphy) (pid : Word) (pgnum : ℤ) : Decidable (TagMatches mp pid pgnum) :=
  inferInstanceAs (Decidable (_ ∧ _))

/-- The frame that is decoded from the three bytes of an entry. -/
lemma pagingFpn_of_bytes (b₃ b₄ b₅ : Byte) :
    pagingFpn (byteInt b₃ <<< 16 ||| byteInt b₄ <<< 8 ||| byteInt b₅) =
      if b₅.msb then 3 else b₄.toNat % 4 := by
  apply Nat.eq_of_testBit_eq
  intro i
  rw [pagingFpn, pagingFpnMask, nbits_pagingMemramsz, pagingPageszBits_eq,
    testBit_getval (by omega)]
  by_cases hi : i < 2
  · have hbit : (byteInt b₃ <<< 16 ||| byteInt b₄ <<< 8 ||| byteInt b₅).getLsbD (8 + i) =
        (b₄.getLsbD i || b₅.msb) := by
      simp only [byteInt, BitVec.getLsbD_or, BitVec.getLsbD_shiftLeft, BitVec.getLsbD_signExtend]
      simp [show 8 + i < 16 by omega, show 8 + i < 32 by omega, show i < 32 by omega,
        show i < 8 by omega, show ¬ 8 + i < 8 by omega]
    rw [hbit, decide_eq_true (by omega), Bool.true_and]
    split
    · next hneg =>
      rw [hneg, Bool.or_true]
      obtain rfl | rfl : i = 0 ∨ i = 1 := by omega
      all_goals rfl
    · next hpos =>
      rw [Bool.eq_false_of_not_eq_true hpos, Bool.or_false, show (4 : ℕ) = 2 ^ 2 by rfl,
        Nat.testBit_mod_two_pow, decide_eq_true hi, Bool.true_and]
      rfl
  · rw [decide_eq_false (by omega), Bool.false_and]
    symm
    apply Nat.testBit_lt_two_pow
    apply lt_of_lt_of_le _ (Nat.pow_le_pow_right Nat.two_pos (not_lt.mp hi))
    split <;> omega

/-- A lookup, by its bytes. -/
lemma tlbCacheRead_eq (mp : Memphy) (pid : Word) (pgnum : ℤ) :
    tlbCacheRead mp pid pgnum =
      if TagMatches mp pid pgnum then
        if (mp.storage (tlbnb mp pgnum + 3)).msb || (mp.storage (tlbnb mp pgnum + 4)).msb ||
            (mp.storage (tlbnb mp pgnum + 5)).msb then
          (0, some (BitVec.ofNat 8 (if (mp.storage (tlbnb mp pgnum + 5)).msb then 3
            else (mp.storage (tlbnb mp pgnum + 4)).toNat % 4)))
        else (-1, some (-1))
      else (-1, none) := by
  unfold tlbCacheRead
  dsimp only
  rw [present_of_bytes, pagingFpn_of_bytes]
  refine if_congr Iff.rfl ?_ rfl
  cases (mp.storage (tlbnb mp pgnum + 3)).msb || (mp.storage (tlbnb mp pgnum + 4)).msb ||
    (mp.storage (tlbnb mp pgnum + 5)).msb <;> rfl

@[simp] lemma tlbnb_tlbCacheWrite (mp : Memphy) (pid : Word) (pgnum : ℤ) (pte : Word) (n : ℤ) :
    tlbnb (tlbCacheWrite mp pid pgnum pte).2 n = tlbnb mp n := by
  unfold tlbCacheWrite
  split <;> rfl

/-- A byte of the line that was written. -/
lemma storage_tlbCacheWrite_self (mp : Memphy) (pid : Word) (pgnum : ℕ) (pte : Word) {i : ℕ}
    (hi : i < 6) :
    (tlbCacheWrite mp pid pgnum pte).2.storage (tlbnb mp pgnum + i) = lineByte pid pgnum pte i := by
  rw [storage_tlbCacheWrite, add_sub_cancel_left, if_pos (by omega)]
  rfl

/-- A lookup of the page whose line was just written. -/
lemma tlbCacheRead_tlbCacheWrite (mp : Memphy) (pid : Word) {pgnum : ℕ} (h : pgnum < 2 ^ 31)
    (pte : Word) :
    tlbCacheRead (tlbCacheWrite mp pid pgnum pte).2 pid pgnum =
      if LineFits pid pgnum then
        if pte.getLsbD 23 || pte.getLsbD 15 || pte.getLsbD 7 then
          (0, some (BitVec.ofNat 8 (if pte.getLsbD 7 then 3 else pte.toNat / 256 % 4)))
        else (-1, some (-1))
      else (-1, none) := by
  have hbyte : ∀ i : ℕ, i < 6 → (tlbCacheWrite mp pid pgnum pte).2.storage
      (tlbnb (tlbCacheWrite mp pid pgnum pte).2 pgnum + i) = lineByte pid pgnum pte i := by
    intro i hi
    rw [tlbnb_tlbCacheWrite, storage_tlbCacheWrite_self mp pid pgnum pte hi]
  have htag : TagMatches (tlbCacheWrite mp pid pgnum pte).2 pid pgnum ↔ LineFits pid pgnum := by
    rw [tagMatches_iff _ _ h]
    refine and_iff_left ⟨?_, hbyte 1 (by decide), hbyte 2 (by decide)⟩
    have hfirst := hbyte 0 (by decide)
    push_cast at hfirst
    rwa [add_zero] at hfirst
  have h₃ := hbyte 3 (by decide)
  have h₄ := hbyte 4 (by decide)
  have h₅ := hbyte 5 (by decide)
  push_cast at h₃ h₄ h₅
  rw [tlbCacheRead_eq, h₃, h₄, h₅]
  simp only [htag, lineByte, msb_byte, BitVec.getLsbD_ushiftRight]
  have hfour : ((pte >>> 8).setWidth 8 : Byte).toNat % 4 = pte.toNat / 256 % 4 := by
    rw [BitVec.toNat_setWidth, BitVec.toNat_ushiftRight, Nat.shiftRight_eq_div_pow]
    omega
  rw [hfour]

/-- A lookup of the page hits and delivers the frame number. -/
def ReadsFrame (mp : Memphy) (pid : Word) (pgnum frame : ℕ) : Prop :=
  ∃ d : Byte, tlbCacheRead mp pid pgnum = (0, some d) ∧ d.toNat = frame

/-- A lookup undoes `tlb_cache_write` exactly for frame 0, and only if the line can hold both
numbers and bit 15 or bit 23 of the entry is set; after the write of `tlballoc` it never hits. -/
theorem readsFrame_iff (mp : Memphy) (pid : Word) {pgnum : ℕ} (h : pgnum < pagingMaxPgn)
    (pte : Word) :
    (ReadsFrame (tlbCacheWrite mp pid pgnum pte).2 pid pgnum (recordedFpn pte) ↔
      LineFits pid pgnum ∧ recordedFpn pte = 0 ∧
        (pte.getLsbD 15 = true ∨ pte.getLsbD 23 = true)) ∧
    ¬ ReadsFrame
      (tlbCacheWrite mp pid pgnum (byteInt (BitVec.ofNat 8 (pagingFpn pte)))).2 pid pgnum
      (recordedFpn pte) := by
  have hpgnum : pgnum < 2 ^ 31 := h.trans (by decide)
  unfold ReadsFrame
  rw [tlbCacheRead_tlbCacheWrite mp pid hpgnum, tlbCacheRead_tlbCacheWrite mp pid hpgnum]
  have hrecorded : recordedFpn pte = pte.toNat % 2 ^ 13 :=
    (toNat_getval (by omega) (by omega) pte).trans (by simp)
  constructor
  · by_cases hfits : LineFits pid pgnum
    · have hbit : pte.getLsbD 7 = decide (pte.toNat / 2 ^ 7 % 2 = 1) :=
        Nat.testBit_eq_decide_div_mod_eq
      rw [if_pos hfits, hrecorded]
      cases h₇ : pte.getLsbD 7 with
      | true =>
        -- the delivered frame is 3, and the recorded one is at least 128
        rw [h₇, eq_comm, decide_eq_true_iff] at hbit
        refine iff_of_false ?_ fun ⟨_, hzero, _⟩ => by omega
        rintro ⟨d, hread, hd⟩
        rw [if_pos (by simp)] at hread
        have hdata := Option.some.inj (congrArg Prod.snd hread)
        rw [if_pos rfl] at hdata
        rw [← hdata, BitVec.toNat_ofNat] at hd
        omega
      | false =>
        -- the delivered frame is made of two bits of the recorded one, not the lowest
        have hbits : pte.toNat / 256 % 4 = pte.toNat % 8192 / 256 % 4 := by omega
        have hdelivered : pte.toNat / 256 % 4 % 256 = pte.toNat % 8192 ↔
            pte.toNat % 8192 = 0 := by
          rw [hbits]
          generalize pte.toNat % 8192 = recorded
          constructor
          · intro hsame
            have hzero : recorded / 256 = 0 := Nat.div_eq_of_lt (by omega)
            rw [hzero] at hsame
            exact hsame.symm
          · rintro rfl
            rfl
        cases pte.getLsbD 15 <;> cases pte.getLsbD 23 <;> simp [hfits, hdelivered]
    · simp [hfits]
  · rintro ⟨d, hread, -⟩
    -- the frame number is less than 4, so no byte of it is negative
    have hsmall : (byteInt (BitVec.ofNat 8 (pagingFpn pte))).toNat < 4 := by
      have hlt := pagingFpn_lt pte
      have hbyte : (BitVec.ofNat 8 (pagingFpn pte)).toNat = pagingFpn pte := by
        rw [BitVec.toNat_ofNat]
        omega
      rw [toNat_byteInt, hbyte]
      · exact hlt
      · rw [BitVec.msb_eq_false_iff_two_mul_lt, hbyte]
        omega
    have hclear : ∀ i : ℕ, 2 ≤ i →
        (byteInt (BitVec.ofNat 8 (pagingFpn pte))).getLsbD i = false := fun i hi =>
      Nat.testBit_lt_two_pow (hsmall.trans_le (Nat.pow_le_pow_right Nat.two_pos hi))
    rw [hclear 23 (by decide), hclear 15 (by decide), hclear 7 (by decide)] at hread
    split at hread <;> cases hread

/-- A cleared TLB of the size that `read_config` sets. -/
def clearedTlb : Memphy := (TlbSys.fresh (fun _ : Unit => 1) 1024 0).tlb

/-- An entry of frame 0 with bit 15 set. -/
theorem readsFrame_iff_frame_zero :
    ReadsFrame (tlbCacheWrite clearedTlb 1 5 0x80008000#32).2 1 5 (recordedFpn 0x80008000#32) :=
  (readsFrame_iff clearedTlb 1 (by decide) 0x80008000#32).1.mpr ⟨by decide, by decide, by decide⟩

/-- The entry that `pte_set_fpn` makes of a cleared one for frame 1: of the present bit nothing is
stored. -/
theorem not_readsFrame : ¬ ∀ (mp : Memphy) (pid : Word) (pgnum : ℕ) (pte : Word),
    cacheLineSize ≤ mp.maxsz → pgnum < pagingMaxPgn → pteResident pte = true →
      ReadsFrame (tlbCacheWrite mp pid pgnum pte).2 pid pgnum (recordedFpn pte) := by
  intro h
  obtain ⟨d, hread, -⟩ := h clearedTlb 1 5 (pteSetFpn 0#32 1) (by decide) (by decide) (by decide)
  have hstatus : (tlbCacheRead (tlbCacheWrite clearedTlb 1 5 (pteSetFpn 0#32 1)).2 1 5).1 = 0 :=
    congrArg Prod.fst hread
  exact absurd hstatus (by decide +kernel)

/-! ## Two lines -/

/-- Writing the line of a page leaves a lookup as it was. -/
def KeepsRead (mp : Memphy) (pid : Word) (pgnum : ℕ) (pid' : Word) (pgnum' : ℕ) (pte : Word) :
    Prop :=
  tlbCacheRead (tlbCacheWrite mp pid' pgnum' pte).2 pid pgnum = tlbCacheRead mp pid pgnum

/-- The bytes of a line that starts six bytes away stay. -/
lemma storage_tlbCacheWrite_apart {mp : Memphy} {pgnum pgnum' : ℕ}
    (hapart : 6 ≤ (tlbnb mp pgnum - tlbnb mp pgnum').natAbs) (pid' pte : Word) {i : ℤ} (hlo : 0 ≤ i)
    (hhi : i < 6) :
    (tlbCacheWrite mp pid' pgnum' pte).2.storage (tlbnb mp pgnum + i) =
      mp.storage (tlbnb mp pgnum + i) := by
  rw [storage_tlbCacheWrite, if_neg (by omega)]

/-- The same six bytes give the same lookup. -/
lemma tlbCacheRead_congr {mp mp' : Memphy} {pgnum : ℕ} (hline : tlbnb mp' pgnum = tlbnb mp pgnum)
    (hbytes : ∀ i : ℤ, 0 ≤ i → i < 6 →
      mp'.storage (tlbnb mp pgnum + i) = mp.storage (tlbnb mp pgnum + i)) (pid : Word) :
    tlbCacheRead mp' pid pgnum = tlbCacheRead mp pid pgnum := by
  have hfirst := hbytes 0 le_rfl (by decide)
  rw [add_zero] at hfirst
  unfold tlbCacheRead
  dsimp only
  rw [hline, hfirst, hbytes 1 (by decide) (by decide), hbytes 2 (by decide) (by decide),
    hbytes 3 (by decide) (by decide), hbytes 4 (by decide) (by decide),
    hbytes 5 (by decide) (by decide)]

/-- A process or a page that no line can hold is never found. -/
lemma tlbCacheRead_of_not_fits {pid : Word} {pgnum : ℕ} (h : pgnum < 2 ^ 31)
    (hfits : ¬ LineFits pid pgnum) (mp : Memphy) : tlbCacheRead mp pid pgnum = (-1, none) := by
  rw [tlbCacheRead_eq, if_neg fun htag => hfits ((tagMatches_iff mp pid h).mp htag).1]

/-- A line that is overwritten in its process or page number is not found any more. -/
lemma not_tagMatches_of_byte {mp : Memphy} {pid : Word} {pgnum : ℕ} (h : pgnum < 2 ^ 31) {i : ℕ}
    (hi : i < 3) (pte : Word)
    (hbyte : mp.storage (tlbnb mp pgnum + i) ≠ lineByte pid pgnum pte i) :
    ¬ TagMatches mp pid pgnum := by
  rw [tagMatches_iff mp pid h]
  rintro ⟨-, h₀, h₁, h₂⟩
  obtain rfl | rfl | rfl : i = 0 ∨ i = 1 ∨ i = 2 := by omega
  · rw [Int.natCast_zero, add_zero] at hbyte
    exact hbyte h₀
  · exact hbyte h₁
  · exact hbyte h₂

/-- The word whose four bytes are all `b`. -/
def repeatedByte (b : Byte) : Word := b.setWidth 32 * 0x01010101#32

/-- A line into which one byte is written everywhere but for the page number. -/
lemma lineByte_repeatedByte (b : Byte) (pgnum : ℕ) {i : ℕ} (hi : i = 0 ∨ 3 ≤ i) :
    lineByte (repeatedByte b) pgnum (repeatedByte b) i = b := by
  have hbytes : ∀ b : Byte, (repeatedByte b).setWidth 8 = b ∧
      (repeatedByte b >>> 8).setWidth 8 = b ∧ (repeatedByte b >>> 16).setWidth 8 = b := by
    decide +kernel
  obtain ⟨hlow, hmid, hhigh⟩ := hbytes b
  rcases hi with rfl | hi
  · exact hlow
  · obtain ⟨j, rfl⟩ : ∃ j, i = j + 3 := ⟨i - 3, by omega⟩
    match j with
    | 0 => exact hhigh
    | 1 => exact hmid
    | _ + 2 => exact hlow

lemma tlbCacheWrite_eq (mp : Memphy) (pid : Word) (pgnum : ℕ) (pte : Word) :
    { mp with storage := (tlbCacheWrite mp pid pgnum pte).2.storage } =
      (tlbCacheWrite mp pid pgnum pte).2 := by
  unfold tlbCacheWrite
  split <;> rfl

/-- A line that starts in the entry of another one can make it present. -/
lemma not_keepsRead_of_late {mp : Memphy} {pgnum pgnum' : ℕ} {pid : Word} (h : pgnum < 2 ^ 31)
    (hfits : LineFits pid pgnum) (hlo : tlbnb mp pgnum + 3 ≤ tlbnb mp pgnum')
    (hhi : tlbnb mp pgnum' < tlbnb mp pgnum + 6) :
    ¬ KeepsRead (tlbCacheWrite mp pid pgnum 0#32).2 pid pgnum 0x80#32 pgnum' 0#32 := by
  intro hkeeps
  have hbefore : tlbCacheRead (tlbCacheWrite mp pid pgnum 0#32).2 pid pgnum = (-1, some (-1)) := by
    rw [tlbCacheRead_tlbCacheWrite mp pid h, if_pos hfits]
    rfl
  have hstorage := storage_tlbCacheWrite (tlbCacheWrite mp pid pgnum 0#32).2 0x80#32 pgnum' 0#32
  simp only [tlbnb_tlbCacheWrite] at hstorage
  have hhit : (tlbCacheRead (tlbCacheWrite (tlbCacheWrite mp pid pgnum 0#32).2 0x80#32 pgnum'
      0#32).2 pid pgnum).1 = 0 := by
    rw [tlbCacheRead_hit_iff, tagMatches_iff _ _ h]
    simp only [tlbnb_tlbCacheWrite]
    refine ⟨⟨hfits, ?_, ?_, ?_⟩, tlbnb mp pgnum' - tlbnb mp pgnum, ?_, ?_⟩
    · rw [hstorage, if_neg (by omega), storage_tlbCacheWrite, if_pos (by omega)]
      simp [lineByte]
    · rw [hstorage, if_neg (by omega), storage_tlbCacheWrite, if_pos (by omega)]
      simp [lineByte]
    · rw [hstorage, if_neg (by omega), storage_tlbCacheWrite, if_pos (by omega)]
      simp [lineByte]
    · simp only [List.mem_cons, List.not_mem_nil, or_false]
      omega
    · have hfirst : (tlbnb mp pgnum + (tlbnb mp pgnum' - tlbnb mp pgnum) -
          tlbnb mp pgnum').toNat = 0 := by omega
      have hmsb : ((0x80#32).setWidth 8 : Byte).msb = true := by decide
      rw [hstorage, if_pos (by omega), hfirst]
      exact hmsb
  rw [KeepsRead, hbefore] at hkeeps
  rw [hkeeps] at hhit
  exact absurd hhit (by decide)

/-- A line that overlaps the numbers of another one can spoil them. -/
lemma not_keepsRead_of_early {mp : Memphy} {pgnum pgnum' : ℕ} {pid : Word} (h : pgnum < 2 ^ 31)
    (hfits : LineFits pid pgnum) {i : ℕ} (hi : i < 3) {m : ℕ} (hm : m = 0 ∨ 3 ≤ m) (hlt : m < 6)
    (hbyte : tlbnb mp pgnum + i = tlbnb mp pgnum' + m) :
    ∃ b : Byte, ¬ KeepsRead (tlbCacheWrite mp pid pgnum 0x80#32).2 pid pgnum (repeatedByte b)
      pgnum' (repeatedByte b) := by
  refine ⟨lineByte pid pgnum 0x80#32 i + 1, fun hkeeps => ?_⟩
  have hbefore : (tlbCacheRead (tlbCacheWrite mp pid pgnum 0x80#32).2 pid pgnum).1 = 0 := by
    rw [tlbCacheRead_tlbCacheWrite mp pid h, if_pos hfits]
    rfl
  rw [KeepsRead] at hkeeps
  rw [← hkeeps, tlbCacheRead_hit_iff] at hbefore
  refine not_tagMatches_of_byte h hi 0x80#32 ?_ hbefore.1
  rw [tlbnb_tlbCacheWrite, tlbnb_tlbCacheWrite, hbyte]
  have hself := storage_tlbCacheWrite_self (tlbCacheWrite mp pid pgnum 0x80#32).2
    (repeatedByte (lineByte pid pgnum 0x80#32 i + 1)) pgnum'
    (repeatedByte (lineByte pid pgnum 0x80#32 i + 1)) hlt
  rw [tlbnb_tlbCacheWrite, lineByte_repeatedByte _ _ hm] at hself
  rw [hself]
  have hne : ∀ b : Byte, b + 1 ≠ b := by decide
  exact hne _

/-- Two lines that start less than six bytes apart: for some contents, writing the second one
changes a lookup of the first. -/
lemma exists_not_keepsRead {mp : Memphy} {pgnum pgnum' : ℕ} {pid : Word} (h : pgnum < 2 ^ 31)
    (hne : tlbnb mp pgnum ≠ tlbnb mp pgnum')
    (hnear : (tlbnb mp pgnum - tlbnb mp pgnum').natAbs < 6) (hfits : LineFits pid pgnum) :
    ∃ storage pid' pte, ¬ KeepsRead { mp with storage := storage } pid pgnum pid' pgnum' pte := by
  by_cases hlate : tlbnb mp pgnum + 3 ≤ tlbnb mp pgnum'
  · refine ⟨(tlbCacheWrite mp pid pgnum 0#32).2.storage, 0x80#32, 0#32, ?_⟩
    rw [tlbCacheWrite_eq]
    exact not_keepsRead_of_late h hfits hlate (by omega)
  · -- a byte of the process or page number, and the byte of the other line that overwrites it
    obtain ⟨i, m, hi, hm, hlt, hbyte⟩ : ∃ i m : ℕ, i < 3 ∧ (m = 0 ∨ 3 ≤ m) ∧ m < 6 ∧
        tlbnb mp pgnum + i = tlbnb mp pgnum' + m := by
      rcases lt_or_gt_of_ne hne with hlt | hgt
      · exact ⟨(tlbnb mp pgnum' - tlbnb mp pgnum).toNat, 0, by omega, .inl rfl, by omega, by omega⟩
      · by_cases hfar : tlbnb mp pgnum' + 3 ≤ tlbnb mp pgnum
        · exact ⟨0, (tlbnb mp pgnum - tlbnb mp pgnum').toNat, by omega, by omega, by omega,
            by omega⟩
        · exact ⟨(3 - (tlbnb mp pgnum - tlbnb mp pgnum')).toNat, 3, by omega, by omega, by omega,
            by omega⟩
    obtain ⟨b, hb⟩ := not_keepsRead_of_early h hfits hi hm hlt hbyte
    refine ⟨(tlbCacheWrite mp pid pgnum 0x80#32).2.storage, repeatedByte b, repeatedByte b, ?_⟩
    rw [tlbCacheWrite_eq]
    exact hb

/-- Writing the line of another page never changes a lookup exactly if the two lines start six bytes
apart or the lookup can find nothing anyway. -/
theorem keepsRead_iff (mp : Memphy) {pgnum pgnum' : ℕ} (h : pgnum < 2 ^ 31)
    (hne : tlbnb mp pgnum ≠ tlbnb mp pgnum') (pid : Word) :
    (∀ storage pid' pte, KeepsRead { mp with storage := storage } pid pgnum pid' pgnum' pte) ↔
      6 ≤ (tlbnb mp pgnum - tlbnb mp pgnum').natAbs ∨ ¬ LineFits pid pgnum := by
  constructor
  · intro hkeeps
    by_contra hnear
    obtain ⟨hnear, hfits⟩ := not_or.mp hnear
    obtain ⟨storage, pid', pte, hchanges⟩ := exists_not_keepsRead h hne (not_le.mp hnear)
      (not_not.mp hfits)
    exact hchanges (hkeeps storage pid' pte)
  · rintro (hapart | hfits) storage pid' pte
    · have hapart' : 6 ≤ (tlbnb { mp with storage := storage } pgnum -
          tlbnb { mp with storage := storage } pgnum').natAbs := hapart
      refine tlbCacheRead_congr (tlbnb_tlbCacheWrite _ _ _ _ _) (fun i hlo hhi => ?_) pid
      exact storage_tlbCacheWrite_apart hapart' pid' pte hlo hhi
    · unfold KeepsRead
      rw [tlbCacheRead_of_not_fits h hfits, tlbCacheRead_of_not_fits h hfits]

/-- Two lines that start six bytes apart. -/
theorem keepsRead_iff_six_apart : tlbnb clearedTlb 0 ≠ tlbnb clearedTlb 6 ∧
    ∀ storage pid pte, KeepsRead { clearedTlb with storage := storage } 1 0 pid 6 pte :=
  ⟨by decide, (keepsRead_iff clearedTlb (by decide) (by decide) 1).mpr (.inl (by decide))⟩

/-- The line of page 1 overwrites the page number in the line of page 0. -/
theorem not_keepsRead : ¬ ∀ (mp : Memphy) (pid : Word) (pgnum : ℕ) (pid' : Word) (pgnum' : ℕ)
    (pte : Word), cacheLineSize ≤ mp.maxsz → tlbnb mp pgnum ≠ tlbnb mp pgnum' →
      KeepsRead mp pid pgnum pid' pgnum' pte := by
  intro h
  have hkeeps := h (tlbCacheWrite clearedTlb 1 0 0x80#32).2 1 0 1 1 0x80#32 (by decide) (by decide)
  have hstatus := congrArg Prod.fst hkeeps
  exact absurd hstatus (by decide +kernel)

end Ossim
