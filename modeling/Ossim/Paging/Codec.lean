import Ossim.Paging.Effects

/-!
# What the decoders read back

`pte_set_fpn` and `pte_set_swap` fill the fields named by the masks `PAGING_PTE_*`, while
`PAGING_FPN`, `PAGING_SWP` and the test by which `pg_getpage` finds out whether a page is in RAM
look elsewhere.  `readBack_iff` says how little the decoders read back: nothing but frame 0.

The test is the reason why no page ever comes back from swap: `pte_set_swap` sets the present
bit too, so `pg_getpage` takes a page that was written out for a resident one
(`Caller.pgGetpage_swapped`) and swaps nothing.
-/

namespace Ossim

/-! ## Entries built by the setters -/

/-- A call of one of the two setters. -/
inductive PteSetter
  | setFpn (fpn : ℕ)
  | setSwap (swptyp swpoff : ℕ)
  deriving DecidableEq

namespace PteSetter

/-- The arguments fit the fields they are stored in. -/
def InRange : PteSetter → Prop
  | .setFpn fpn => fpn < 2 ^ 13
  | .setSwap swptyp swpoff => swptyp < 2 ^ 5 ∧ swpoff < 2 ^ 21

/-- The entry after the call. -/
def call (pte : Word) : PteSetter → Word
  | .setFpn fpn => pteSetFpn pte fpn
  | .setSwap swptyp swpoff => pteSetSwap pte swptyp swpoff

/-- The entry that a sequence of calls builds from 0. -/
def entry (calls : List PteSetter) : Word := calls.foldl call 0

/-- The decoders read back what a call stored: a frame and a page in RAM, or a swap frame and a
page that is not in RAM. -/
def ReadBack (pte : Word) : PteSetter → Prop
  | .setFpn fpn => pteResident pte = true ∧ pagingFpn pte = fpn
  | .setSwap _ swpoff => pagingSwp pte = swpoff ∧ pagingPagePresent pte = false

lemma entry_append (calls : List PteSetter) (last : PteSetter) :
    entry (calls ++ [last]) = call (entry calls) last := by
  simp [entry]

/-- The decoders read back what the last call stored exactly if it stored frame 0. -/
theorem readBack_iff (calls : List PteSetter) (last : PteSetter) :
    last.ReadBack (entry (calls ++ [last])) ↔ last = .setFpn 0 := by
  rw [entry_append]
  cases last with
  | setFpn fpn =>
    simp only [ReadBack, call, PteSetter.setFpn.injEq]
    rw [pagingFpn_pteSetFpn]
    constructor
    · rintro ⟨-, hfpn⟩
      -- the decoder delivers at most 3, and 0 for each of these frames
      have hlt : fpn < 4 := hfpn ▸ Nat.mod_lt _ (by decide)
      rw [← hfpn, Nat.div_eq_of_lt (by omega)]
    · rintro rfl
      exact ⟨by simp [pteResident], rfl⟩
  | setSwap swptyp swpoff =>
    simp only [ReadBack, call, reduceCtorEq, iff_false]
    rintro ⟨-, habsent⟩
    simp at habsent

/-- Frame 1 is not read back. -/
theorem not_readBack : ¬ ∀ (calls : List PteSetter) (last : PteSetter),
    (∀ call ∈ calls ++ [last], call.InRange) → last.ReadBack (entry (calls ++ [last])) := by
  intro h
  obtain ⟨-, hfpn⟩ := h [] (.setFpn 1) (by simp [InRange])
  exact absurd hfpn (by decide)

end PteSetter

/-! ## Pages that were written out -/

namespace Caller

/-- A page that was written out is not brought back: `pg_getpage` succeeds, delivers two bits of
the swap frame number and changes nothing. -/
lemma pgGetpage_swapped {c : Caller} {pgn swpfpn : ℕ} {pte : Word}
    (hpte : c.mm.pgd pgn = pteSetSwap pte 0 swpfpn) :
    c.pgGetpage pgn = (some (swpfpn / 8 % 4), c) := by
  unfold pgGetpage
  simp only [hpte, pagingPagePresent_pteSetSwap, Bool.not_true, Bool.false_eq_true, if_false]
  rw [pagingFpn_pteSetSwap]

/-- What swapping in the page `pgn` from the swap frame `swpfpn` promises. -/
structure SwapsIn (c : Caller) (pgn swpfpn : ℕ) : Prop where
  /-- The call succeeds and the RAM frame it delivers holds the bytes of the swap frame. -/
  restored : ∃ fpn, (c.pgGetpage pgn).1 = some fpn ∧ ∀ i < pagingPagesz,
    (c.pgGetpage pgn).2.mram.storage (phyaddr fpn i) = c.activeMswp.storage (phyaddr swpfpn i)
  /-- The entry of the victim names the swap frame that was taken for it, and this frame holds
  the bytes that the victim had in RAM. -/
  victim : ∃ vicpgn mm newfpn mswp,
    findVictimPage c.mm = some (vicpgn, mm) ∧ c.activeMswp.getFreefp = some (newfpn, mswp) ∧
    (c.pgGetpage pgn).2.activeMswp.freeFpList = mswp.freeFpList ∧
    pteSwapped ((c.pgGetpage pgn).2.mm.pgd vicpgn) = true ∧
    recordedSwpoff ((c.pgGetpage pgn).2.mm.pgd vicpgn) = newfpn ∧
    (∀ i < pagingPagesz, (c.pgGetpage pgn).2.activeMswp.storage (phyaddr newfpn i) =
      c.mram.storage (phyaddr (recordedFpn (c.mm.pgd vicpgn)) i)) ∧
    ∀ n, n ≠ pgn → n ≠ vicpgn → (c.pgGetpage pgn).2.mm.pgd n = c.mm.pgd n ∧
      (pteResident (c.mm.pgd n) = true → ∀ i < pagingPagesz,
        (c.pgGetpage pgn).2.mram.storage (phyaddr (recordedFpn (c.mm.pgd n)) i) =
          c.mram.storage (phyaddr (recordedFpn (c.mm.pgd n)) i)) ∧
      (pteSwapped (c.mm.pgd n) = true → ∀ i < pagingPagesz,
        (c.pgGetpage pgn).2.activeMswp.storage (phyaddr (recordedSwpoff (c.mm.pgd n)) i) =
          c.activeMswp.storage (phyaddr (recordedSwpoff (c.mm.pgd n)) i))

/-- Swapping in takes a frame off the free list of the swap device. -/
lemma SwapsIn.changes {c : Caller} {pgn swpfpn : ℕ} (h : c.SwapsIn pgn swpfpn) :
    (c.pgGetpage pgn).2 ≠ c := by
  obtain ⟨-, vicpgn, mm, newfpn, mswp, -, hfree, htaken, -⟩ := h
  obtain ⟨rest, hlist, rfl⟩ := Memphy.getFreefp_eq_some.mp hfree
  intro hsame
  rw [hsame, hlist] at htaken
  exact absurd htaken (List.cons_ne_self newfpn rest)

/-- No page is swapped in, whatever the state: nothing changes, so no victim gets a swap
frame. -/
theorem not_swapsIn {c : Caller} {pgn swpfpn : ℕ} {pte : Word}
    (hpte : c.mm.pgd pgn = pteSetSwap pte 0 swpfpn) :
    (c.pgGetpage pgn).2 = c ∧ ¬ c.SwapsIn pgn swpfpn := by
  have hsame : (c.pgGetpage pgn).2 = c := by rw [pgGetpage_swapped hpte]
  exact ⟨hsame, fun hin => hin.changes hsame⟩

/-- A process with page 0 in swap frame 0, page 1 in RAM frame 0 and one more swap frame. -/
def swappedOut : Caller where
  mm :=
    { pgd := Function.update (Function.update (fun _ => 0) 0 (pteSetSwap 0 0 0)) 1 (pteSetFpn 0 0)
      mmap := [⟨1, 0, 512, 512, []⟩]
      symrgtbl := fun _ => ⟨0, 0⟩
      fifoPgn := [1] }
  mram := ⟨fun _ => 0, 256, true, 0, []⟩
  activeMswp := ⟨fun _ => 0, 512, true, 0, [1]⟩

/-- There page 0 is not swapped in. -/
theorem not_swapsIn_swappedOut : ¬ swappedOut.SwapsIn 0 0 := by
  have hpte : swappedOut.mm.pgd 0 = pteSetSwap 0 0 0 := by decide
  exact (not_swapsIn hpte).2

/-- Not every page that was written out is swapped in when its process has a resident page and the
swap device a free frame. -/
theorem exists_not_swapsIn : ¬ ∀ (c : Caller) (pgn swpfpn : ℕ) (pte : Word), swpfpn < 2 ^ 21 →
    c.mm.pgd pgn = pteSetSwap pte 0 swpfpn →
    (∃ n ∈ c.mm.fifoPgn, pteResident (c.mm.pgd n) = true) → c.activeMswp.freeFpList ≠ [] →
    c.SwapsIn pgn swpfpn := by
  intro h
  have hpte : swappedOut.mm.pgd 0 = pteSetSwap 0 0 0 := by decide
  have hin := h swappedOut 0 0 0 (by decide) hpte ⟨1, by decide, by decide⟩ (by decide)
  exact hin.changes (by rw [pgGetpage_swapped hpte])

end Caller

end Ossim
