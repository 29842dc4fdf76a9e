import Ossim.Tlb.Flush
import Ossim.Tlb.Transparency

/-!
# Freed pages in the TLB

`tlbfree_data` goes through the pages that a freed region touches and writes the frame number `0xFF`
to the line of each one that a lookup finds.  As a signed byte this is `-1`, whose bytes are all
negative, and such an entry is present: the page is found again (`hits_withDummy`).

So a page that is found before stays, unless another dummy entry overwrites it.  The entry of a line
lies on the numbers of the lines behind it and on the entries of the two lines before it.  This is
how the pages at the ends of a region matter, which it may cover only partly: the dummy entry of the
first one can overwrite the lines of pages inside, and that of the last one can make their entries
present (`LeavesNothing`).
-/

namespace Ossim

/-! ## Dummy entries -/

/-- The TLB after the dummy frame number was written to the line of a page. -/
def withDummy (mp : Memphy) (pid : Word) (pgnum : ℕ) : Memphy :=
  (tlbCacheWrite mp pid pgnum (byteInt 0xFF#8)).2

@[simp] lemma tlbnb_withDummy (mp : Memphy) (pid : Word) (pgnum : ℕ) (n : ℤ) :
    tlbnb (withDummy mp pid pgnum) n = tlbnb mp n := tlbnb_tlbCacheWrite mp pid pgnum _ n

lemma Hits.tagMatches {mp : Memphy} {pid : Word} {pgnum : ℕ} (h : Hits mp pid pgnum) :
    TagMatches mp pid pgnum :=
  ((tlbCacheRead_hit_iff mp pid pgnum).mp h).1

/-- An entry that a lookup finds is found again after the dummy frame number was written to it. -/
lemma hits_withDummy {mp : Memphy} {pid : Word} {pgnum : ℕ} (hlt : pgnum < 2 ^ 31)
    (h : Hits mp pid pgnum) : Hits (withDummy mp pid pgnum) pid pgnum := by
  have hfits := ((tagMatches_iff mp pid hlt).mp h.tagMatches).1
  unfold Hits withDummy
  rw [tlbCacheRead_tlbCacheWrite mp pid hlt, if_pos hfits]
  rfl

/-- The line of the page has its numbers already, so only its entry changes. -/
lemma storage_withDummy {mp : Memphy} {pid : Word} {pgnum : ℕ} (hlt : pgnum < 2 ^ 31)
    (h : TagMatches mp pid pgnum) (x : ℤ) :
    (withDummy mp pid pgnum).storage x =
      if 3 ≤ x - tlbnb mp pgnum ∧ x - tlbnb mp pgnum < 6 then 0xFF#8 else mp.storage x := by
  obtain ⟨-, h₀, h₁, h₂⟩ := (tagMatches_iff mp pid hlt).mp h
  obtain ⟨i, rfl⟩ : ∃ i, x = tlbnb mp pgnum + i := ⟨x - tlbnb mp pgnum, by omega⟩
  unfold withDummy
  rw [storage_tlbCacheWrite, add_sub_cancel_left]
  by_cases hline : 0 ≤ i ∧ i < 6
  · rw [if_pos hline]
    obtain rfl | rfl | rfl | rfl | rfl | rfl : i = 0 ∨ i = 1 ∨ i = 2 ∨ i = 3 ∨ i = 4 ∨ i = 5 := by
      omega
    · rw [add_zero, h₀]
      rfl
    · rw [h₁]
      rfl
    · rw [h₂]
      rfl
    all_goals rfl
  · rw [if_neg hline, if_neg (by omega)]

/-- Entries whose bytes the dummy frame number does not reach. -/
lemma entry_withDummy {mp : Memphy} {pid : Word} {n : ℕ} (hn : n < 2 ^ 31)
    (htag : TagMatches mp pid n) {x : ℤ}
    (hapart : x + 5 < tlbnb mp n + 3 ∨ tlbnb mp n + 6 ≤ x + 3) :
    (∃ i ∈ [(3 : ℤ), 4, 5], ((withDummy mp pid n).storage (x + i)).msb = true) ↔
      ∃ i ∈ [(3 : ℤ), 4, 5], (mp.storage (x + i)).msb = true := by
  refine exists_congr fun i => and_congr_right fun hi => ?_
  simp only [List.mem_cons, List.not_mem_nil, or_false] at hi
  rw [storage_withDummy hn htag, if_neg (by omega)]

variable {mp : Memphy} {pid : Word} {n m : ℕ}

/-- The numbers in a line that starts before the one written stay. -/
lemma tagMatches_withDummy_before (hn : n < 2 ^ 31) (hm : m < 2 ^ 31)
    (htag : TagMatches mp pid n) (hle : tlbnb mp m ≤ tlbnb mp n) :
    TagMatches (withDummy mp pid n) pid m ↔ TagMatches mp pid m := by
  rw [tagMatches_iff _ pid hm, tagMatches_iff mp pid hm, tlbnb_withDummy,
    storage_withDummy hn htag, storage_withDummy hn htag, storage_withDummy hn htag,
    if_neg (by omega), if_neg (by omega), if_neg (by omega)]

/-- A page whose line starts before the one written is found afterwards if it was found, or if its
line has its numbers and the dummy frame number reaches into its entry. -/
lemma hits_withDummy_before (hn : n < 2 ^ 31) (hm : m < 2 ^ 31) (htag : TagMatches mp pid n)
    (hlt : tlbnb mp m < tlbnb mp n) :
    Hits (withDummy mp pid n) pid m ↔
      Hits mp pid m ∨ TagMatches mp pid m ∧ tlbnb mp n ≤ tlbnb mp m + 2 := by
  have hneg : (0xFF#8).msb = true := by decide
  unfold Hits
  rw [tlbCacheRead_hit_iff, tlbCacheRead_hit_iff,
    tagMatches_withDummy_before hn hm htag hlt.le, tlbnb_withDummy]
  by_cases hnear : tlbnb mp n ≤ tlbnb mp m + 2
  · have hlast : (withDummy mp pid n).storage (tlbnb mp m + 5) = 0xFF#8 := by
      rw [storage_withDummy hn htag, if_pos (by omega)]
    constructor
    · rintro ⟨h, -⟩
      exact .inr ⟨h, hnear⟩
    · rintro (⟨h, -⟩ | ⟨h, -⟩) <;> exact ⟨h, 5, by simp, by rw [hlast]; exact hneg⟩
  · rw [entry_withDummy hn htag (.inl (by omega))]
    simp only [hnear, and_false, or_false]

/-- The dummy frame number reaches into the numbers of a line that starts up to five bytes behind
the one written, and then they are those of no page of the process. -/
lemma tagMatches_withDummy_after (hn : n < 2 ^ 31) (hm : m < 2 ^ 31) (hpid : pid ≠ -1)
    (htag : TagMatches mp pid n) (hlt : tlbnb mp n < tlbnb mp m) :
    TagMatches (withDummy mp pid n) pid m ↔ TagMatches mp pid m ∧ tlbnb mp n + 6 ≤ tlbnb mp m := by
  rw [tagMatches_iff _ pid hm, tagMatches_iff mp pid hm, tlbnb_withDummy,
    storage_withDummy hn htag, storage_withDummy hn htag, storage_withDummy hn htag]
  by_cases hfar : tlbnb mp n + 6 ≤ tlbnb mp m
  · rw [if_neg (by omega), if_neg (by omega), if_neg (by omega)]
    exact (and_iff_left hfar).symm
  · refine iff_of_false ?_ fun h => hfar h.2
    rintro ⟨⟨hpidFits, hlarge, hlow⟩, h₀, h₁, h₂⟩
    have hdummy : (0xFF#8).toNat = 255 := rfl
    obtain hj | hj | hj : tlbnb mp m ≤ tlbnb mp n + 3 ∨ tlbnb mp m = tlbnb mp n + 4 ∨
        tlbnb mp m = tlbnb mp n + 5 := by omega
    · -- the low byte of the page number
      rw [if_pos (by omega)] at h₂
      have hbyte := congrArg BitVec.toNat h₂
      rw [hdummy, BitVec.toNat_ofNat] at hbyte
      omega
    · -- the high byte of the page number
      rw [if_pos (by omega)] at h₁
      have hbyte := congrArg BitVec.toNat h₁
      rw [hdummy, BitVec.toNat_ofNat] at hbyte
      omega
    · -- the process number
      rw [if_pos (by omega)] at h₀
      exact hpid ((eq_byteInt_iff pid 0xFF#8).mpr ⟨hpidFits, h₀⟩)

/-- So a page whose line starts behind the one written is found afterwards if it was found and is
not overwritten. -/
lemma hits_withDummy_after (hn : n < 2 ^ 31) (hm : m < 2 ^ 31) (hpid : pid ≠ -1)
    (htag : TagMatches mp pid n) (hlt : tlbnb mp n < tlbnb mp m) :
    Hits (withDummy mp pid n) pid m ↔ Hits mp pid m ∧ tlbnb mp n + 6 ≤ tlbnb mp m := by
  unfold Hits
  rw [tlbCacheRead_hit_iff, tlbCacheRead_hit_iff, tagMatches_withDummy_after hn hm hpid htag hlt,
    tlbnb_withDummy]
  by_cases hfar : tlbnb mp n + 6 ≤ tlbnb mp m
  · rw [entry_withDummy hn htag (.inr (by omega))]
    simp only [hfar, and_true]
  · simp only [hfar, and_false, false_and]

/-! ## The loop -/

namespace Pcb

lemma tlbfreePage_of_hits {p : Pcb} {pgnum : ℕ} (h : Hits p.tlb p.pid pgnum) :
    p.tlbfreePage pgnum = p.setTlb (withDummy p.tlb p.pid pgnum) :=
  if_pos h

lemma tlbfreePage_of_not_hits {p : Pcb} {pgnum : ℕ} (h : ¬ Hits p.tlb p.pid pgnum) :
    p.tlbfreePage pgnum = p :=
  if_neg h

section

variable {p : Pcb}

lemma hits_tlbfreePage_before (hn : n < 2 ^ 31) (hm : m < 2 ^ 31)
    (hlt : tlbnb p.tlb m < tlbnb p.tlb n) :
    Hits (p.tlbfreePage n).tlb p.pid m ↔ Hits p.tlb p.pid m ∨
      Hits p.tlb p.pid n ∧ TagMatches p.tlb p.pid m ∧ tlbnb p.tlb n ≤ tlbnb p.tlb m + 2 := by
  by_cases h : Hits p.tlb p.pid n
  · rw [tlbfreePage_of_hits h]
    refine (hits_withDummy_before hn hm h.tagMatches hlt).trans ?_
    simp only [h, true_and]
  · rw [tlbfreePage_of_not_hits h]
    simp only [h, false_and, or_false]

lemma hits_tlbfreePage_after (hn : n < 2 ^ 31) (hm : m < 2 ^ 31) (hpid : p.pid ≠ -1)
    (hlt : tlbnb p.tlb n < tlbnb p.tlb m) :
    Hits (p.tlbfreePage n).tlb p.pid m ↔ Hits p.tlb p.pid m ∧
      ¬ (Hits p.tlb p.pid n ∧ tlbnb p.tlb m < tlbnb p.tlb n + 6) := by
  by_cases h : Hits p.tlb p.pid n
  · rw [tlbfreePage_of_hits h]
    refine (hits_withDummy_after hn hm hpid h.tagMatches hlt).trans ?_
    simp only [h, true_and, not_lt]
  · rw [tlbfreePage_of_not_hits h]
    simp only [h, false_and, not_false_eq_true, and_true]

lemma tagMatches_tlbfreePage_after (hn : n < 2 ^ 31) (hm : m < 2 ^ 31) (hpid : p.pid ≠ -1)
    (hlt : tlbnb p.tlb n < tlbnb p.tlb m) :
    TagMatches (p.tlbfreePage n).tlb p.pid m ↔ TagMatches p.tlb p.pid m ∧
      ¬ (Hits p.tlb p.pid n ∧ tlbnb p.tlb m < tlbnb p.tlb n + 6) := by
  by_cases h : Hits p.tlb p.pid n
  · rw [tlbfreePage_of_hits h]
    refine (tagMatches_withDummy_after hn hm hpid h.tagMatches hlt).trans ?_
    simp only [h, true_and, not_lt]
  · rw [tlbfreePage_of_not_hits h]
    simp only [h, false_and, not_false_eq_true, and_true]

end

/-- The loop changes neither the process number nor where lines start. -/
lemma tlbfreePages_frame (p : Pcb) (pages : List ℕ) :
    (pages.foldl tlbfreePage p).pid = p.pid ∧
      ∀ n, tlbnb (pages.foldl tlbfreePage p).tlb n = tlbnb p.tlb n := by
  induction pages generalizing p with
  | nil => exact ⟨rfl, fun _ => rfl⟩
  | cons k pages ih =>
    rw [List.foldl_cons]
    by_cases h : Hits p.tlb p.pid k
    · rw [tlbfreePage_of_hits h]
      obtain ⟨hpid, hlines⟩ := ih (p.setTlb (withDummy p.tlb p.pid k))
      exact ⟨hpid, fun n => (hlines n).trans (tlbnb_withDummy _ _ _ n)⟩
    · rw [tlbfreePage_of_not_hits h]
      exact ih p

/-- The loop leaves a TLB alone in which none of its pages is found. -/
lemma tlbfreePages_of_not_hits {p : Pcb} {pages : List ℕ}
    (h : ∀ n ∈ pages, ¬ Hits p.tlb p.pid n) : pages.foldl tlbfreePage p = p := by
  induction pages with
  | nil => rfl
  | cons n pages ih =>
    rw [List.foldl_cons, tlbfreePage_of_not_hits (h n List.mem_cons_self)]
    exact ih fun m hm => h m (List.mem_cons_of_mem _ hm)

/-- If the loop finds a page before, it finds one afterwards: the one that it wrote last. -/
lemma exists_hits_tlbfreePages {p : Pcb} {pages : List ℕ} (hlt : ∀ n ∈ pages, n < 2 ^ 31)
    (h : ∃ n ∈ pages, Hits p.tlb p.pid n) :
    ∃ n ∈ pages, Hits (pages.foldl tlbfreePage p).tlb p.pid n := by
  induction pages generalizing p with
  | nil =>
    obtain ⟨n, hn, -⟩ := h
    cases hn
  | cons n pages ih =>
    have hrest : ∀ m ∈ pages, m < 2 ^ 31 := fun m hm => hlt m (List.mem_cons_of_mem _ hm)
    rw [List.foldl_cons]
    by_cases hn : Hits p.tlb p.pid n
    · rw [tlbfreePage_of_hits hn]
      by_cases hlater : ∃ m ∈ pages, Hits (withDummy p.tlb p.pid n) p.pid m
      · obtain ⟨m, hm, hhits⟩ := ih (p := p.setTlb _) hrest hlater
        exact ⟨m, List.mem_cons_of_mem _ hm, hhits⟩
      · have hnone : ∀ m ∈ pages, ¬ Hits (p.setTlb (withDummy p.tlb p.pid n)).tlb p.pid m :=
          fun m hm hhits => hlater ⟨m, hm, hhits⟩
        rw [tlbfreePages_of_not_hits hnone]
        exact ⟨n, List.mem_cons_self, hits_withDummy (hlt n List.mem_cons_self) hn⟩
    · obtain ⟨m, hm, hhits⟩ := h
      rcases List.mem_cons.mp hm with rfl | hm
      · exact absurd hhits hn
      · rw [tlbfreePage_of_not_hits hn]
        obtain ⟨m, hm, hhits⟩ := ih hrest ⟨m, hm, hhits⟩
        exact ⟨m, List.mem_cons_of_mem _ hm, hhits⟩

/-! ## The pages of a region -/

/-- The entry of the symbol table that `tlbfree_data` reads. -/
def region (p : Pcb) (regIndex : Word) : VmRg := p.caller.mm.symrgtbl regIndex.toNat

/-- The page lies wholly inside the region. -/
def WhollyIn (rg : VmRg) (pgnum : ℕ) : Prop :=
  rg.rgStart ≤ pgnum * pagingPagesz ∧ (pgnum + 1) * pagingPagesz ≤ rg.rgEnd

instance (rg : VmRg) (pgnum : ℕ) : Decidable (WhollyIn rg pgnum) :=
  inferInstanceAs (Decidable (_ ∧ _))

/-- The pages that the loop of `tlbfree_data` visits. -/
def freedPages (rg : VmRg) : List ℕ :=
  let startPage := pagingPgn (BitVec.ofNat 32 rg.rgStart)
  let endPage := pagingPgn (BitVec.ofInt 32 (rg.rgEnd - 1))
  List.range' startPage (endPage + 1 - startPage)

/-- The page of the first byte of a region. -/
def firstPage (rg : VmRg) : ℕ := rg.rgStart / pagingPagesz

/-- The page of the last byte. -/
def lastPage (rg : VmRg) : ℕ := (rg.rgEnd - 1) / pagingPagesz

/-- A page at an end of a region, if the region covers it partly. -/
def partPage (rg : VmRg) (pgnum : ℕ) : List ℕ := if WhollyIn rg pgnum then [] else [pgnum]

lemma lt_of_mem_freedPages {rg : VmRg} {n : ℕ} (h : n ∈ freedPages rg) : n < 2 ^ 31 := by
  obtain ⟨-, hn⟩ := List.mem_range'_1.mp h
  have hstart := pagingPgn_lt (BitVec.ofNat 32 rg.rgStart)
  have hend := pagingPgn_lt (BitVec.ofInt 32 (rg.rgEnd - 1))
  rw [pagingMaxPgn_eq] at hstart hend
  omega

lemma WhollyIn.between {rg : VmRg} (h : WhollyIn rg n) : firstPage rg ≤ n ∧ n ≤ lastPage rg := by
  obtain ⟨hlo, hhi⟩ := h
  unfold firstPage lastPage
  rw [pagingPagesz_eq] at hlo hhi ⊢
  omega

/-- The pages inside a region are those between the first and the last one and these, unless they
are covered partly. -/
lemma whollyIn_iff {rg : VmRg} (h : WhollyIn rg n) (k : ℕ) :
    WhollyIn rg k ↔ firstPage rg + (partPage rg (firstPage rg)).length ≤ k ∧
      k + (partPage rg (lastPage rg)).length ≤ lastPage rg := by
  have hinside : ∀ k, WhollyIn rg k ↔ rg.rgStart ≤ k * 256 ∧ (k + 1) * 256 ≤ rg.rgEnd :=
    fun _ => Iff.rfl
  have hfirst : firstPage rg = rg.rgStart / 256 := rfl
  have hlast : lastPage rg = (rg.rgEnd - 1) / 256 := rfl
  rw [hinside] at h
  unfold partPage
  simp only [hinside]
  split <;> split <;> simp only [List.length_nil, List.length_singleton] <;> omega

/-- The loop visits the first page, the pages inside and the last page. -/
lemma freedPages_split {rg : VmRg} (hsmall : rg.rgEnd ≤ 2 ^ 22) (h : WhollyIn rg n) :
    ∃ inner, freedPages rg = partPage rg (firstPage rg) ++ inner ++ partPage rg (lastPage rg) ∧
      ∀ k, k ∈ inner ↔ WhollyIn rg k := by
  obtain ⟨hlo, hhi⟩ := h
  rw [pagingPagesz_eq] at hlo hhi
  have hfirst : pagingPgn (BitVec.ofNat 32 rg.rgStart) = firstPage rg := by
    unfold firstPage
    rw [pagingPgn_eq, BitVec.toNat_ofNat, pagingPagesz_eq]
    omega
  have hlast : pagingPgn (BitVec.ofInt 32 (rg.rgEnd - 1)) = lastPage rg := by
    unfold lastPage
    rw [pagingPgn_eq, BitVec.toNat_ofInt, pagingPagesz_eq]
    omega
  have hpart : ∀ k, partPage rg k = List.range' k (partPage rg k).length ∧
      (partPage rg k).length ≤ 1 := by
    intro k
    unfold partPage
    split
    · exact ⟨rfl, Nat.zero_le 1⟩
    · exact ⟨rfl, le_rfl⟩
  have hinside := whollyIn_iff ⟨hlo, hhi⟩
  have hn := (hinside n).mp ⟨hlo, hhi⟩
  have hle := (hpart (lastPage rg)).2
  unfold freedPages
  dsimp only
  rw [hfirst, hlast, (hpart (firstPage rg)).1, (hpart (lastPage rg)).1]
  generalize (partPage rg (firstPage rg)).length = i at hinside hn ⊢
  generalize (partPage rg (lastPage rg)).length = j at hinside hn hle ⊢
  refine ⟨List.range' (firstPage rg + i) (lastPage rg + 1 - j - (firstPage rg + i)), ?_,
    fun k => ?_⟩
  · have hend : List.range' (lastPage rg) j = List.range'
        (firstPage rg + (i + (lastPage rg + 1 - j - (firstPage rg + i)))) j := by
      obtain rfl | rfl : j = 0 ∨ j = 1 := by omega
      · rfl
      · congr 1
        omega
    rw [hend, List.range'_append_1, List.range'_append_1]
    congr 1
    omega
  · rw [List.mem_range'_1, hinside k]
    omega

/-- When the bounds of the region are page bounds, the loop visits the pages inside it. -/
lemma mem_freedPages_iff {rg : VmRg} (hstart : pagingPagesz ∣ rg.rgStart)
    (hend : pagingPagesz ∣ rg.rgEnd) (hsmall : rg.rgEnd ≤ 2 ^ 22) (hne : rg.rgStart < rg.rgEnd)
    (k : ℕ) : k ∈ freedPages rg ↔ WhollyIn rg k := by
  have hfirst : WhollyIn rg (firstPage rg) := by
    unfold WhollyIn firstPage
    rw [pagingPagesz_eq] at hstart hend ⊢
    omega
  have hlast : WhollyIn rg (lastPage rg) := by
    unfold WhollyIn lastPage
    rw [pagingPagesz_eq] at hstart hend ⊢
    omega
  obtain ⟨inner, hsplit, hinner⟩ := freedPages_split hsmall hfirst
  rw [hsplit, partPage, partPage, if_pos hfirst, if_pos hlast, List.nil_append, List.append_nil]
  exact hinner k

/-! ## Which pages stay -/

/-- No page inside the region is found after `tlbfree_data`. -/
def LeavesTlb (p : Pcb) (regIndex : Word) : Prop :=
  ∀ pgnum, WhollyIn (p.region regIndex) pgnum →
    ¬ Hits (p.tlbfreeData regIndex).2.tlb p.pid pgnum

/-- The line of the page gets overwritten with the dummy frame number of the first page, which the
region covers partly. -/
def Overwritten (p : Pcb) (rg : VmRg) (pgnum : ℕ) : Prop :=
  ¬ WhollyIn rg (firstPage rg) ∧ Hits p.tlb p.pid (firstPage rg) ∧ pgnum < firstPage rg + 6

/-- The entry of the page gets present by the dummy frame number of the last page, which the region
covers partly. -/
def Revived (p : Pcb) (rg : VmRg) (pgnum : ℕ) : Prop :=
  ¬ WhollyIn rg (lastPage rg) ∧ Hits p.tlb p.pid (lastPage rg) ∧
    ¬ p.Overwritten rg (lastPage rg) ∧ TagMatches p.tlb p.pid pgnum ∧ lastPage rg ≤ pgnum + 2

/-- Every page inside the region is overwritten, or neither found nor revived. -/
def LeavesNothing (p : Pcb) (rg : VmRg) : Prop :=
  ∀ n, WhollyIn rg n → p.Overwritten rg n ∨ ¬ Hits p.tlb p.pid n ∧ ¬ p.Revived rg n

lemma tlbnb_of_lt {n : ℕ} (h : (n : ℤ) < mp.maxsz.tdiv cacheLineSize) : tlbnb mp n = n :=
  Int.tmod_eq_of_lt (Int.natCast_nonneg n) h

/-- The turn of the first page. -/
lemma hits_firstPage {p : Pcb} {rg : VmRg} (hm : m < 2 ^ 31) (hpid : p.pid ≠ -1)
    (hline : ∀ k : ℕ, k ≤ m → tlbnb p.tlb k = k)
    (hlt : WhollyIn rg (firstPage rg) ∨ firstPage rg < m) :
    (Hits ((partPage rg (firstPage rg)).foldl tlbfreePage p).tlb p.pid m ↔
      Hits p.tlb p.pid m ∧ ¬ p.Overwritten rg m) ∧
    (TagMatches ((partPage rg (firstPage rg)).foldl tlbfreePage p).tlb p.pid m ↔
      TagMatches p.tlb p.pid m ∧ ¬ p.Overwritten rg m) := by
  unfold partPage Overwritten
  by_cases hwhole : WhollyIn rg (firstPage rg)
  · rw [if_pos hwhole]
    simp [hwhole]
  · have hlt := hlt.resolve_left hwhole
    have hlines : tlbnb p.tlb (firstPage rg) < tlbnb p.tlb m := by
      rw [hline _ hlt.le, hline m le_rfl]
      omega
    have hnear : tlbnb p.tlb m < tlbnb p.tlb (firstPage rg) + 6 ↔ m < firstPage rg + 6 := by
      rw [hline _ hlt.le, hline m le_rfl]
      omega
    rw [if_neg hwhole, List.foldl_cons, List.foldl_nil,
      hits_tlbfreePage_after (hlt.trans hm) hm hpid hlines,
      tagMatches_tlbfreePage_after (hlt.trans hm) hm hpid hlines, hnear]
    simp only [hwhole, not_false_iff, true_and, and_self]

/-- The turn of the last page. -/
lemma hits_lastPage {p : Pcb} {rg : VmRg} (hlast : lastPage rg < 2 ^ 31)
    (hline : ∀ k : ℕ, k ≤ lastPage rg → tlbnb p.tlb k = k) (hm : WhollyIn rg m) :
    Hits ((partPage rg (lastPage rg)).foldl tlbfreePage p).tlb p.pid m ↔
      Hits p.tlb p.pid m ∨ ¬ WhollyIn rg (lastPage rg) ∧ Hits p.tlb p.pid (lastPage rg) ∧
        TagMatches p.tlb p.pid m ∧ lastPage rg ≤ m + 2 := by
  unfold partPage
  by_cases hwhole : WhollyIn rg (lastPage rg)
  · rw [if_pos hwhole]
    simp [hwhole]
  · have hlt : m < lastPage rg := lt_of_le_of_ne hm.between.2 fun heq => hwhole (heq ▸ hm)
    have hlines : tlbnb p.tlb m < tlbnb p.tlb (lastPage rg) := by
      rw [hline _ hlt.le, hline _ le_rfl]
      omega
    have hnear : tlbnb p.tlb (lastPage rg) ≤ tlbnb p.tlb m + 2 ↔ lastPage rg ≤ m + 2 := by
      rw [hline _ hlt.le, hline _ le_rfl]
      omega
    rw [if_neg hwhole, List.foldl_cons, List.foldl_nil,
      hits_tlbfreePage_before hlast (hlt.trans hlast) hlines, hnear]
    simp only [hwhole, not_false_iff, true_and]

/-- The turns of the pages inside and of the last page. -/
lemma not_hits_inner_iff {p : Pcb} {rg : VmRg} {inner : List ℕ} (hlast : lastPage rg < 2 ^ 31)
    (hline : ∀ k : ℕ, k ≤ lastPage rg → tlbnb p.tlb k = k)
    (hinner : ∀ k, k ∈ inner ↔ WhollyIn rg k) :
    (∀ k, WhollyIn rg k → ¬ Hits ((partPage rg (lastPage rg)).foldl tlbfreePage
      (inner.foldl tlbfreePage p)).tlb p.pid k) ↔
    ∀ k, WhollyIn rg k → ¬ Hits p.tlb p.pid k ∧ ¬ (¬ WhollyIn rg (lastPage rg) ∧
      Hits p.tlb p.pid (lastPage rg) ∧ TagMatches p.tlb p.pid k ∧ lastPage rg ≤ k + 2) := by
  obtain ⟨hpid, hlines⟩ := tlbfreePages_frame p inner
  constructor
  · intro hleaves
    have hnone : ∀ k ∈ inner, ¬ Hits p.tlb p.pid k := by
      intro k hk hhits
      -- the page that the loop leaves behind is found after the turn of the last page, too
      obtain ⟨m, hm, hfound⟩ := exists_hits_tlbfreePages (p := p)
        (fun k hk => ((hinner k).mp hk).between.2.trans_lt hlast) ⟨k, hk, hhits⟩
      have hinside := (hinner m).mp hm
      refine hleaves m hinside ?_
      rw [← hpid] at hfound ⊢
      exact (hits_lastPage hlast (fun k hk => (hlines k).trans (hline k hk)) hinside).mpr
        (.inl hfound)
    rw [tlbfreePages_of_not_hits hnone] at hleaves
    intro k hk
    have hleft := hleaves k hk
    rw [hits_lastPage hlast hline hk] at hleft
    exact not_or.mp hleft
  · intro hnothing k hk
    have hnone : ∀ k ∈ inner, ¬ Hits p.tlb p.pid k := fun k hk =>
      (hnothing k ((hinner k).mp hk)).1
    rw [tlbfreePages_of_not_hits hnone, hits_lastPage hlast hline hk]
    exact not_or.mpr (hnothing k hk)

/-- What `tlbfree_data` does to the TLB when it does not refuse. -/
lemma tlbfreeData_of_status {p : Pcb} {regIndex : Word} (h : (p.tlbfreeData regIndex).1 = 0) :
    ∃ caller, (p.tlbfreeData regIndex).2 =
      (freedPages (p.region regIndex)).foldl tlbfreePage { p with caller := caller } := by
  have hsym : (p.caller.free 0 regIndex.toInt).2.mm.symrgtbl = p.caller.mm.symrgtbl := by
    unfold Caller.free Mm.enlistVmFreergList
    split
    · rfl
    · dsimp only
      split
      · rfl
      · split <;> rfl
  have hfailed : (-1 : ℤ) ≠ 0 := by decide
  unfold tlbfreeData at h ⊢
  dsimp only at h ⊢
  split at h
  · exact absurd h hfailed
  · next hid =>
    split at h
    · exact absurd h hfailed
    · next hne =>
      rw [if_neg hid, if_neg hne, hsym]
      exact ⟨_, rfl⟩

/-- If none of the pages that the loop visits is found before, none of those inside is found
afterwards. -/
lemma leavesTlb_of_not_hits {p : Pcb} {regIndex : Word} (h : (p.tlbfreeData regIndex).1 = 0)
    (hnone : ∀ n, n ∈ freedPages (p.region regIndex) ∨ WhollyIn (p.region regIndex) n →
      ¬ Hits p.tlb p.pid n) : p.LeavesTlb regIndex := by
  obtain ⟨caller, hfree⟩ := tlbfreeData_of_status h
  intro n hn
  have hpages : ∀ m ∈ freedPages (p.region regIndex),
      ¬ Hits ({ p with caller := caller } : Pcb).tlb p.pid m := fun m hm => hnone m (.inl hm)
  rw [hfree, tlbfreePages_of_not_hits hpages]
  exact hnone n (.inr hn)

/-- Between page bounds the loop visits the pages inside the region and no others. -/
lemma leavesTlb_iff_of_dvd {p : Pcb} {regIndex : Word} (h : (p.tlbfreeData regIndex).1 = 0)
    (hstart : pagingPagesz ∣ (p.region regIndex).rgStart)
    (hend : pagingPagesz ∣ (p.region regIndex).rgEnd)
    (hsmall : (p.region regIndex).rgEnd ≤ 2 ^ 22) :
    p.LeavesTlb regIndex ↔ ∀ n, WhollyIn (p.region regIndex) n → ¬ Hits p.tlb p.pid n := by
  obtain ⟨caller, hfree⟩ := tlbfreeData_of_status h
  by_cases hne : (p.region regIndex).rgStart < (p.region regIndex).rgEnd
  · have hpages := mem_freedPages_iff hstart hend hsmall hne
    constructor
    · intro hleaves n hn hhits
      obtain ⟨m, hm, hfound⟩ := exists_hits_tlbfreePages (p := { p with caller := caller })
        (fun _ => lt_of_mem_freedPages) ⟨n, (hpages n).mpr hn, hhits⟩
      rw [← hfree] at hfound
      exact hleaves m ((hpages m).mp hm) hfound
    · intro hnone
      refine leavesTlb_of_not_hits h fun n hn => hnone n ?_
      rcases hn with hn | hn
      · exact (hpages n).mp hn
      · exact hn
  · -- an empty region has no pages
    have hempty : ∀ n, ¬ WhollyIn (p.region regIndex) n := by
      rintro n ⟨hlo, hhi⟩
      rw [pagingPagesz_eq] at hlo hhi
      omega
    exact iff_of_true (fun n hn => absurd hn (hempty n)) fun n hn => absurd hn (hempty n)

/-- When the lines of the pages start where the numbers of the pages say. -/
lemma leavesTlb_iff_leavesNothing {p : Pcb} {regIndex : Word}
    (h : (p.tlbfreeData regIndex).1 = 0) (hpid : p.pid ≠ -1)
    (hsmall : (p.region regIndex).rgEnd ≤ 2 ^ 22)
    (hlines : ((p.region regIndex).rgEnd : ℤ) ≤ p.tlb.maxsz.tdiv cacheLineSize * pagingPagesz) :
    p.LeavesTlb regIndex ↔ p.LeavesNothing (p.region regIndex) := by
  obtain ⟨caller, hfree⟩ := tlbfreeData_of_status h
  unfold LeavesTlb LeavesNothing
  rw [hfree]
  generalize p.region regIndex = rg at hsmall hlines ⊢
  by_cases hsome : ∃ n, WhollyIn rg n
  · obtain ⟨n, hn⟩ := hsome
    obtain ⟨inner, hsplit, hinner⟩ := freedPages_split hsmall hn
    have hlast : lastPage rg = (rg.rgEnd - 1) / 256 := rfl
    have hend : (n + 1) * 256 ≤ rg.rgEnd := hn.2
    have hline : ∀ k : ℕ, k ≤ lastPage rg → tlbnb p.tlb k = k := by
      intro k hk
      rw [pagingPagesz_cast] at hlines
      exact tlbnb_of_lt (by omega)
    -- the turn of the first page, from the pages behind it
    have hturn : ∀ k, k ≤ lastPage rg → WhollyIn rg (firstPage rg) ∨ firstPage rg < k →
        (Hits ((partPage rg (firstPage rg)).foldl tlbfreePage { p with caller := caller }).tlb
          p.pid k ↔ Hits p.tlb p.pid k ∧ ¬ p.Overwritten rg k) ∧
        (TagMatches ((partPage rg (firstPage rg)).foldl tlbfreePage
          { p with caller := caller }).tlb p.pid k ↔
            TagMatches p.tlb p.pid k ∧ ¬ p.Overwritten rg k) :=
      fun k hk hlt => hits_firstPage (p := { p with caller := caller }) (by omega) hpid
        (fun i hi => hline i (hi.trans hk)) hlt
    obtain ⟨hpid₁, hlines₁⟩ := tlbfreePages_frame ({ p with caller := caller } : Pcb)
      (partPage rg (firstPage rg))
    rw [hsplit, List.foldl_append, List.foldl_append]
    generalize (partPage rg (firstPage rg)).foldl tlbfreePage { p with caller := caller } = p₁
      at hpid₁ hlines₁ hturn ⊢
    have hrest := not_hits_inner_iff (p := p₁) (by omega)
      (fun k hk => (hlines₁ k).trans (hline k hk)) hinner
    rw [hpid₁] at hrest
    rw [hrest]
    refine forall₂_congr fun k hk => ?_
    have hinside := hturn k hk.between.2
      (hk.between.1.eq_or_lt.imp_left fun heq => by rwa [heq])
    rw [hinside.1, hinside.2]
    unfold Revived
    by_cases hover : p.Overwritten rg k
    · simp only [hover, not_true, and_false, false_and, not_false_iff, and_self, true_or]
    · by_cases hwhole : WhollyIn rg (lastPage rg)
      · simp only [hover, hwhole, not_true, not_false_iff, false_and, and_true, false_or]
      · have hlt : n < lastPage rg := lt_of_le_of_ne hn.between.2 fun heq => hwhole (heq ▸ hn)
        rw [(hturn (lastPage rg) le_rfl (.inr (hn.between.1.trans_lt hlt))).1]
        simp only [hover, hwhole, not_false_iff, true_and, and_true, false_or, and_assoc]
  · exact iff_of_true (fun n hn => absurd ⟨n, hn⟩ hsome) fun n hn => absurd ⟨n, hn⟩ hsome

/-- Freed pages leave the TLB exactly if `LeavesNothing` held before, for a region below the page
number at which lines start over.  For page bounds this is that no page inside was found, wherever
the region lies.  And wherever its bounds lie, it is enough that no page was found that the region
touches. -/
theorem leavesTlb_iff {p : Pcb} {regIndex : Word} (h : (p.tlbfreeData regIndex).1 = 0) :
    (p.pid ≠ -1 → (p.region regIndex).rgEnd ≤ 2 ^ 22 →
      ((p.region regIndex).rgEnd : ℤ) ≤ p.tlb.maxsz.tdiv cacheLineSize * pagingPagesz →
      (p.LeavesTlb regIndex ↔ p.LeavesNothing (p.region regIndex))) ∧
    (pagingPagesz ∣ (p.region regIndex).rgStart → pagingPagesz ∣ (p.region regIndex).rgEnd →
      (p.region regIndex).rgEnd ≤ 2 ^ 22 →
      (p.LeavesTlb regIndex ↔ ∀ n, WhollyIn (p.region regIndex) n → ¬ Hits p.tlb p.pid n)) ∧
    ((∀ n, n ∈ freedPages (p.region regIndex) ∨ WhollyIn (p.region regIndex) n →
      ¬ Hits p.tlb p.pid n) → p.LeavesTlb regIndex) :=
  ⟨leavesTlb_iff_leavesNothing h, leavesTlb_iff_of_dvd h, leavesTlb_of_not_hits h⟩

/-- A process with the region `[100, 1600)` under id 2.  The TLB has present entries of page 4 and
of page 0, and the entry of page 0 lies on the line of page 4. -/
def overlappingLines : Pcb :=
  let p : Pcb := ⟨1, fun _ => 0, (MemSys.fresh Unit 2048 0).caller (), clearedTlb⟩
  let p := ((((p.tlballoc 2000 0).2.tlbfreeData 0).2.tlballoc 100 1).2.tlballoc 1500 2).2
  p.setTlb (tlbCacheWrite (tlbCacheWrite p.tlb 1 4 0x800000#32).2 1 0 0x800100#32).2

/-- Page 4 is found before its region is freed, and overwritten with the dummy frame number of page
0. -/
theorem leavesTlb_iff_overwritten : WhollyIn (overlappingLines.region 2) 4 ∧
    Hits overlappingLines.tlb overlappingLines.pid 4 ∧ overlappingLines.LeavesTlb 2 := by
  have hregion : overlappingLines.region 2 = ⟨100, 1600⟩ := by decide +kernel
  refine ⟨by decide +kernel, by decide +kernel,
    ((leavesTlb_iff (p := overlappingLines) (by decide +kernel)).1 (by decide +kernel)
      (by decide +kernel) (by decide +kernel)).mpr fun n hn => .inl ?_⟩
  refine ⟨by decide +kernel, by decide +kernel, ?_⟩
  obtain ⟨-, hend⟩ := hn
  rw [hregion, pagingPagesz_eq] at hend
  have hfirst : firstPage (overlappingLines.region 2) = 0 := by decide +kernel
  dsimp only at hend
  omega

end Pcb

/-- Page 4 of a region of five pages was swapped out to swap frame 4, so that a byte of its entry is
negative, and read through the TLB.  The page is found after its region was freed. -/
theorem not_leavesTlb : ¬ ∀ w : TlbRun, tlbSystem.Reachable w → ∀ regIndex : Word,
    w.live regIndex = true → (w.pair.left.tlbfreeData regIndex).1 = 0 →
      w.pair.left.LeavesTlb regIndex := by
  intro h
  let p : Pcb := ⟨1, fun _ => 0, (MemSys.fresh Unit 1280 1280).caller (), clearedTlb⟩
  have hstart : tlbSystem.start ⟨⟨p, p, [], []⟩, fun _ => false⟩ :=
    ⟨rfl, rfl, rfl, rfl, ⟨_, rfl⟩, rfl, by decide⟩
  obtain ⟨w, hw, hP⟩ := LTS.exists_reachable_of_exec (T := tlbSystem)
    (fun w a => if w.Valid a.1 then some (w.exec a) else none)
    (fun w a w' hstep => by
      obtain ⟨hvalid, hexec⟩ := Option.ite_none_right_eq_some.mp hstep
      exact ⟨hvalid, (Option.some.inj hexec).symm⟩)
    (fun w => w.live 0 && decide ((w.pair.left.tlbfreeData 0).1 = 0) &&
      decide (w.pair.left.region 0 = ⟨0, 1280⟩) &&
      decide (Hits (w.pair.left.tlbfreeData 0).2.tlb w.pair.left.pid 4))
    [(.alloc 1280 0, 0), (.alloc 1280 1, 0), (.read 0 1024 1, 0)] hstart (by decide +kernel)
  simp only [Bool.and_eq_true, decide_eq_true_eq] at hP
  obtain ⟨⟨⟨hlive, hstatus⟩, hregion⟩, hhits⟩ := hP
  refine h w hw 0 hlive hstatus 4 ?_ hhits
  rw [hregion]
  exact ⟨by decide, by decide⟩

end Ossim
