import Ossim.Tlb.Lines

/-!
# Flushing a process

`tlb_flush_tlb_of` and `tlb_change_all_page_tables_of` are the same loop.  It walks entries of 16
bytes with a valid byte, of which it reads and writes one byte each, and the byte goes back where it
came from.  So a flush changes nothing (`tlbFlushLoop_eq`), and it empties the TLB of a process
exactly if no page of the process was in it (`empties_iff`).
-/

namespace Ossim

/-- A lookup of the page succeeds. -/
def Hits (mp : Memphy) (pid : Word) (pgnum : ℕ) : Prop := (tlbCacheRead mp pid pgnum).1 = 0

instance (mp : Memphy) (pid : Word) (pgnum : ℕ) : Decidable (Hits mp pid pgnum) :=
  inferInstanceAs (Decidable (_ = _))

/-! ## The flush loop -/

/-- `ENTRY_SIZE`. -/
def entrySize : ℤ := 16

/-- `VALID_OFFSET`. -/
def validOffset : ℕ := 12

/-- `PID_OFFSET`. -/
def pidOffset : ℕ := 0

/-- `decode_int` of the four bytes from `src` on. -/
def decodeInt (entry : ℕ → Byte) (src : ℕ) : Word :=
  (entry src).setWidth 32 ||| (entry (src + 1)).setWidth 32 <<< 8 |||
    (entry (src + 2)).setWidth 32 <<< 16 ||| (entry (src + 3)).setWidth 32 <<< 24

/-- The loop of both functions from entry `i` on, with `n` entries to go, the local buffer and the
number of entries that were taken out. -/
def tlbFlushLoop (pid : Word) : ℕ → ℤ → Memphy → (ℕ → Byte) → ℤ → ℤ × Memphy
  | 0, _, mp, _, entriesFlushed => (entriesFlushed, mp)
  | n + 1, i, mp, entry, entriesFlushed =>
    let entryAddr := i * entrySize
    if entryAddr + entrySize > mp.maxsz then (-1, mp)
    else
      -- one byte is read into the buffer, and one byte is written from it
      let entry := Function.update entry 0 (tlbmemphyRead mp entryAddr).2
      let entryPid := decodeInt entry pidOffset
      let valid := entry validOffset
      if valid ≠ 0 ∧ entryPid = pid then
        let entry := Function.update entry validOffset 0
        tlbFlushLoop pid n (i + 1) (tlbmemphyWrite mp entryAddr (entry 0)).2 entry
          (entriesFlushed + 1)
      else tlbFlushLoop pid n (i + 1) mp entry entriesFlushed

/-- `tlb_flush_tlb_of`: the status and the TLB.  `entry` is what the local buffer holds before. -/
def tlbFlushTlbOf (pid : Word) (mp : Memphy) (entry : ℕ → Byte) : ℤ × Memphy :=
  tlbFlushLoop pid (mp.maxsz.tdiv entrySize).toNat 0 mp entry 0

/-- `tlb_change_all_page_tables_of`. -/
def tlbChangeAllPageTablesOf (pid : Word) (mp : Memphy) (entry : ℕ → Byte) : ℤ × Memphy :=
  tlbFlushLoop pid (mp.maxsz.tdiv entrySize).toNat 0 mp entry 0

/-- The loop stores nothing new and counts up, as long as its entries lie in the TLB. -/
lemma tlbFlushLoop_eq (pid : Word) (n : ℕ) (i : ℤ) (mp : Memphy) (entry : ℕ → Byte) (flushed : ℤ)
    (hroom : (i + n) * entrySize ≤ mp.maxsz) :
    (tlbFlushLoop pid n i mp entry flushed).2 = mp ∧
      flushed ≤ (tlbFlushLoop pid n i mp entry flushed).1 := by
  induction n generalizing i entry flushed with
  | zero => exact ⟨rfl, le_rfl⟩
  | succ n ih =>
    have hentry : ¬ i * entrySize + entrySize > mp.maxsz := by
      unfold entrySize at hroom ⊢
      push_cast at hroom
      omega
    have hrest : (i + 1 + n) * entrySize ≤ mp.maxsz := by
      push_cast at hroom
      rwa [add_assoc, add_comm 1 (n : ℤ)]
    unfold tlbFlushLoop
    dsimp only
    rw [if_neg hentry]
    split
    · -- the byte that is written is the one that was read
      have hfirst : Function.update (Function.update entry 0
          (tlbmemphyRead mp (i * entrySize)).2) validOffset 0 0 = mp.storage (i * entrySize) := by
        rw [Function.update_of_ne (by decide), Function.update_self, tlbmemphyRead]
      have hsame : (tlbmemphyWrite mp (i * entrySize) (mp.storage (i * entrySize))).2 = mp := by
        rw [tlbmemphyWrite, Function.update_eq_self]
      rw [hfirst, hsame]
      obtain ⟨hmp, hle⟩ := ih (i + 1) _ (flushed + 1) hrest
      exact ⟨hmp, by omega⟩
    · exact ih (i + 1) _ flushed hrest

/-- A flush of the whole TLB changes nothing and succeeds. -/
lemma tlbFlushLoop_all (pid : Word) (mp : Memphy) (entry : ℕ → Byte) :
    (tlbFlushLoop pid (mp.maxsz.tdiv entrySize).toNat 0 mp entry 0).2 = mp ∧
      0 ≤ (tlbFlushLoop pid (mp.maxsz.tdiv entrySize).toNat 0 mp entry 0).1 := by
  rcases le_or_gt 0 mp.maxsz with hsize | hsize
  · refine tlbFlushLoop_eq pid _ 0 mp entry 0 ?_
    unfold entrySize
    rw [Int.tdiv_eq_ediv_of_nonneg hsize]
    omega
  · have hnone : (mp.maxsz.tdiv entrySize).toNat = 0 := by
      have hneg : mp.maxsz.tdiv entrySize ≤ 0 := by
        have hopp : 0 ≤ (-mp.maxsz).tdiv entrySize := Int.tdiv_nonneg (by omega) (by decide)
        rw [Int.neg_tdiv] at hopp
        omega
      omega
    rw [hnone]
    exact ⟨rfl, le_rfl⟩

/-- After a flush no page of the process is found, and lookups of other processes are as before. -/
structure Empties (flush : Word → Memphy → (ℕ → Byte) → ℤ × Memphy) (pid : Word) (mp : Memphy)
    (entry : ℕ → Byte) : Prop where
  /-- The process. -/
  own : ∀ pgnum, pgnum < 2 ^ 31 → ¬ Hits (flush pid mp entry).2 pid pgnum
  /-- Other processes. -/
  others : ∀ pid', pid' ≠ pid → ∀ pgnum : ℕ, pgnum < 2 ^ 31 →
    tlbCacheRead (flush pid mp entry).2 pid' pgnum = tlbCacheRead mp pid' pgnum

/-- A function that changes nothing empties what is empty. -/
lemma empties_of_eq {flush : Word → Memphy → (ℕ → Byte) → ℤ × Memphy} {pid : Word} {mp : Memphy}
    {entry : ℕ → Byte} (hsame : (flush pid mp entry).2 = mp)
    (hstatus : 0 ≤ (flush pid mp entry).1) :
    (0 ≤ (flush pid mp entry).1 → Empties flush pid mp entry) ↔
      ∀ pgnum, pgnum < 2 ^ 31 → ¬ Hits mp pid pgnum := by
  constructor
  · intro h
    have hown := (h hstatus).own
    rwa [hsame] at hown
  · intro h _
    constructor
    · rwa [hsame]
    · intro pid' _ pgnum _
      rw [hsame]

/-- Both flush functions empty the TLB of a process exactly if no page of the process was found
before. -/
theorem empties_iff (pid : Word) (mp : Memphy) (entry : ℕ → Byte) :
    ((0 ≤ (tlbFlushTlbOf pid mp entry).1 → Empties tlbFlushTlbOf pid mp entry) ↔
      ∀ pgnum, pgnum < 2 ^ 31 → ¬ Hits mp pid pgnum) ∧
    ((0 ≤ (tlbChangeAllPageTablesOf pid mp entry).1 →
        Empties tlbChangeAllPageTablesOf pid mp entry) ↔
      ∀ pgnum, pgnum < 2 ^ 31 → ¬ Hits mp pid pgnum) := by
  obtain ⟨hsame, hstatus⟩ := tlbFlushLoop_all pid mp entry
  constructor
  · exact empties_of_eq hsame hstatus
  · exact empties_of_eq hsame hstatus

/-- The TLB after writing lines. -/
def writeLines (mp : Memphy) (lines : List (Word × ℕ × Word)) : Memphy :=
  lines.foldl (fun mp line => (tlbCacheWrite mp line.1 line.2.1 line.2.2).2) mp

/-- A flush by that loop leaves a line of page 0 behind. -/
lemma not_empties_of_loop {flush : Word → Memphy → (ℕ → Byte) → ℤ × Memphy}
    (hloop : ∀ pid mp entry, flush pid mp entry =
      tlbFlushLoop pid (mp.maxsz.tdiv entrySize).toNat 0 mp entry 0) :
    ¬ ∀ lines pid entry, 0 ≤ (flush pid (writeLines clearedTlb lines) entry).1 →
      Empties flush pid (writeLines clearedTlb lines) entry := by
  have hhits : Hits (writeLines clearedTlb [(1, 0, 0x80#32)]) 1 0 := by decide +kernel
  obtain ⟨hsame, hstatus⟩ := tlbFlushLoop_all 1 (writeLines clearedTlb [(1, 0, 0x80#32)])
    fun _ => 0
  rw [← hloop] at hsame hstatus
  intro h
  have hown := (h _ _ _ hstatus).own 0 (by decide)
  rw [hsame] at hown
  exact hown hhits

/-- A line of page 0 is found after either flush. -/
theorem not_empties :
    (¬ ∀ lines pid entry, 0 ≤ (tlbFlushTlbOf pid (writeLines clearedTlb lines) entry).1 →
      Empties tlbFlushTlbOf pid (writeLines clearedTlb lines) entry) ∧
    ¬ ∀ lines pid entry, 0 ≤ (tlbChangeAllPageTablesOf pid (writeLines clearedTlb lines) entry).1 →
      Empties tlbChangeAllPageTablesOf pid (writeLines clearedTlb lines) entry :=
  ⟨not_empties_of_loop fun _ _ _ => rfl, not_empties_of_loop fun _ _ _ => rfl⟩

end Ossim
