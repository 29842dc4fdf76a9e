import Ossim.Paging.SwapFrames
import Mathlib.Algebra.BigOperators.Group.Multiset.Basic
import Mathlib.Algebra.Order.BigOperators.Group.List
import Mathlib.Algebra.Order.Ring.Nat
import Mathlib.Data.Fintype.Card
import Mathlib.Data.Fintype.Prod

/-!
# Releasing a process

`free_pcb_memph` of `src/mm-vm.c` puts one frame back for each of the entries of a page table.
It takes the branch for a page in RAM when the page is *not* present, so each page that was never
mapped puts frame 0 on the RAM list, and it puts what `PAGING_SWP` reads off every present entry
on the swap list, also off that of a page in RAM.

`returnsFrames_iff` says on which page tables this comes to the frames that the process owns: all
pages are swapped out, to swap frames on which `PAGING_SWP` is right.  There are 256 such frames,
and the swapped-out pages of a process took different ones, so no run comes to such a page table
(`not_returnsFrames_of_reachable`).
-/

namespace Ossim

namespace Caller

/-- One turn of the loop of `free_pcb_memph`. -/
def freePcbMemphPage (c : Caller) (pagenum : ℕ) : Caller :=
  let pte := c.mm.pgd pagenum
  if !pagingPagePresent pte then
    let fpn := pagingFpn pte
    { c with mram := c.mram.putFreefp fpn }
  else
    let fpn := pagingSwp pte
    { c with activeMswp := c.activeMswp.putFreefp fpn }

/-- `free_pcb_memph`. -/
def freePcbMemph (c : Caller) : ℤ × Caller :=
  (0, (List.range pagingMaxPgn).foldl freePcbMemphPage c)

/-- The RAM frames of a process: those of its pages that are present and not swapped. -/
def residentFrames (mm : Mm) : List ℕ :=
  ((List.range pagingMaxPgn).filter fun pgn => pteResident (mm.pgd pgn)).map
    fun pgn => recordedFpn (mm.pgd pgn)

/-- The swap frames of a process: those of its swapped-out pages. -/
def swappedFrames (mm : Mm) : List ℕ :=
  ((List.range pagingMaxPgn).filter fun pgn => pteSwappedOut (mm.pgd pgn)).map
    fun pgn => recordedSwpoff (mm.pgd pgn)

/-- Releasing the process puts exactly its frames back, each once. -/
structure ReturnsFrames (c : Caller) : Prop where
  /-- The RAM list. -/
  mram : (c.freePcbMemph.2.mram.freeFpList : Multiset ℕ) =
    residentFrames c.mm + c.mram.freeFpList
  /-- The swap list. -/
  activeMswp : (c.freePcbMemph.2.activeMswp.freeFpList : Multiset ℕ) =
    swappedFrames c.mm + c.activeMswp.freeFpList

/-! ## What the loop puts back -/

/-- The loop decodes a RAM frame from each entry that is not present and a swap frame from each
other one. -/
lemma foldl_freePcbMemphPage (l : List ℕ) (c : Caller) :
    (l.foldl freePcbMemphPage c).mm = c.mm ∧
    ((l.foldl freePcbMemphPage c).mram.freeFpList : Multiset ℕ) =
      (l.filter fun pgn => !pagingPagePresent (c.mm.pgd pgn)).map
        (fun pgn => pagingFpn (c.mm.pgd pgn)) + c.mram.freeFpList ∧
    ((l.foldl freePcbMemphPage c).activeMswp.freeFpList : Multiset ℕ) =
      (l.filter fun pgn => pagingPagePresent (c.mm.pgd pgn)).map
        (fun pgn => pagingSwp (c.mm.pgd pgn)) + c.activeMswp.freeFpList := by
  induction l generalizing c with
  | nil => exact ⟨rfl, (Multiset.zero_add _).symm, (Multiset.zero_add _).symm⟩
  | cons pgn l ih =>
    rw [List.foldl_cons]
    cases hpresent : pagingPagePresent (c.mm.pgd pgn) with
    | false =>
      have hpage : c.freePcbMemphPage pgn =
          { c with mram := c.mram.putFreefp (pagingFpn (c.mm.pgd pgn)) } := by
        simp [freePcbMemphPage, hpresent]
      rw [hpage]
      obtain ⟨hmm, hmram, hmswp⟩ := ih { c with
        mram := c.mram.putFreefp (pagingFpn (c.mm.pgd pgn)) }
      refine ⟨hmm, hmram.trans ?_, hmswp.trans ?_⟩
      · simp [hpresent, Memphy.putFreefp, ← Multiset.cons_coe]
      · simp [hpresent]
    | true =>
      have hpage : c.freePcbMemphPage pgn =
          { c with activeMswp := c.activeMswp.putFreefp (pagingSwp (c.mm.pgd pgn)) } := by
        simp [freePcbMemphPage, hpresent]
      rw [hpage]
      obtain ⟨hmm, hmram, hmswp⟩ := ih { c with
        activeMswp := c.activeMswp.putFreefp (pagingSwp (c.mm.pgd pgn)) }
      refine ⟨hmm, hmram.trans ?_, hmswp.trans ?_⟩
      · simp [hpresent]
      · simp [hpresent, Memphy.putFreefp, ← Multiset.cons_coe]

/-- The frames put back on the RAM list are counted by the entries that are not present. -/
lemma returnsFrames_iff_lists (c : Caller) : c.ReturnsFrames ↔
    (((List.range pagingMaxPgn).filter fun pgn => !pagingPagePresent (c.mm.pgd pgn)).map
      (fun pgn => pagingFpn (c.mm.pgd pgn)) : Multiset ℕ) = residentFrames c.mm ∧
    (((List.range pagingMaxPgn).filter fun pgn => pagingPagePresent (c.mm.pgd pgn)).map
      (fun pgn => pagingSwp (c.mm.pgd pgn)) : Multiset ℕ) = swappedFrames c.mm := by
  obtain ⟨-, hmram, hmswp⟩ := foldl_freePcbMemphPage (List.range pagingMaxPgn) c
  have hout : c.freePcbMemph.2 = (List.range pagingMaxPgn).foldl freePcbMemphPage c := by
    rw [freePcbMemph]
  rw [← hout] at hmram hmswp
  constructor
  · rintro ⟨hram, hswp⟩
    rw [hmram] at hram
    rw [hmswp] at hswp
    exact ⟨Multiset.add_left_inj.mp hram, Multiset.add_left_inj.mp hswp⟩
  · rintro ⟨hram, hswp⟩
    exact ⟨by rw [hmram, hram], by rw [hmswp, hswp]⟩

/-- Two functions with the same values in another order, one never above the other, are equal. -/
lemma eq_of_map_eq_of_le {l : List ℕ} {f g : ℕ → ℕ} (hle : ∀ x ∈ l, f x ≤ g x)
    (h : (l.map f : Multiset ℕ) = l.map g) : ∀ x ∈ l, f x = g x := by
  intro x hx
  by_contra hne
  have hlt : (l.map f).sum < (l.map g).sum :=
    List.sum_lt_sum f g hle ⟨x, hx, lt_of_le_of_ne (hle x hx) hne⟩
  have hsum := congrArg Multiset.sum h
  rw [Multiset.sum_coe, Multiset.sum_coe] at hsum
  omega

lemma pagingSwp_le (pte : Word) : pagingSwp pte ≤ recordedSwpoff pte := by
  rw [pagingSwp_eq]
  omega

/-- `PAGING_SWP` is right on the multiples of 8 below 512. -/
lemma pagingSwp_eq_iff (pte : Word) : pagingSwp pte = recordedSwpoff pte ↔
    recordedSwpoff pte % 8 = 0 ∧ recordedSwpoff pte < 512 := by
  rw [pagingSwp_eq]
  omega

/-- Releasing a process returns exactly its frames if and only if each of its pages is swapped
out to a swap frame whose number is a multiple of 8 below 512. -/
theorem returnsFrames_iff (c : Caller) : c.ReturnsFrames ↔
    ∀ pgn, pgn < pagingMaxPgn → pteSwappedOut (c.mm.pgd pgn) = true ∧
      recordedSwpoff (c.mm.pgd pgn) % 8 = 0 ∧ recordedSwpoff (c.mm.pgd pgn) < 512 := by
  rw [returnsFrames_iff_lists, residentFrames, swappedFrames]
  generalize hpages : List.range pagingMaxPgn = pages
  have hmem : ∀ pgn, pgn ∈ pages ↔ pgn < pagingMaxPgn := by
    intro pgn
    rw [← hpages, List.mem_range]
  constructor
  · rintro ⟨hram, hswp⟩
    have hramlen := congrArg Multiset.card hram
    have hswplen := congrArg Multiset.card hswp
    simp only [Multiset.coe_card, List.length_map] at hramlen hswplen
    -- there are as many present pages as swapped-out ones, so none is in RAM
    have hsub : (pages.filter fun pgn => pteSwappedOut (c.mm.pgd pgn)).Sublist
        (pages.filter fun pgn => pagingPagePresent (c.mm.pgd pgn)) :=
      List.monotone_filter_right _ fun pgn h => (Bool.and_eq_true_iff.mp h).1
    have heq := hsub.eq_of_length hswplen.symm
    have hpresent : ∀ pgn ∈ pages, pagingPagePresent (c.mm.pgd pgn) = true →
        pteSwappedOut (c.mm.pgd pgn) = true := by
      intro pgn hpgn h
      have hin : pgn ∈ pages.filter fun pgn => pagingPagePresent (c.mm.pgd pgn) :=
        List.mem_filter.mpr ⟨hpgn, h⟩
      rw [← heq] at hin
      exact (List.mem_filter.mp hin).2
    have hnone : pages.filter (fun pgn => pteResident (c.mm.pgd pgn)) = [] := by
      refine List.filter_eq_nil_iff.mpr fun pgn hpgn h => ?_
      have hswapped := hpresent pgn hpgn (Bool.and_eq_true_iff.mp h).1
      rw [pteSwappedOut, pteSwapped_of_resident h, Bool.and_false] at hswapped
      exact Bool.false_ne_true hswapped
    rw [hnone, List.length_nil, List.length_eq_zero_iff, List.filter_eq_nil_iff] at hramlen
    have hall : ∀ pgn ∈ pages, pagingPagePresent (c.mm.pgd pgn) = true := by
      intro pgn hpgn
      have h := hramlen pgn hpgn
      simpa using h
    have hout : ∀ pgn ∈ pages, pteSwappedOut (c.mm.pgd pgn) = true := fun pgn hpgn =>
      hpresent pgn hpgn (hall pgn hpgn)
    rw [List.filter_eq_self.mpr hall, List.filter_eq_self.mpr hout] at hswp
    have hdecoded := eq_of_map_eq_of_le (fun pgn _ => pagingSwp_le (c.mm.pgd pgn)) hswp
    intro pgn hpgn
    have hpgn := (hmem pgn).mpr hpgn
    exact ⟨hout pgn hpgn, (pagingSwp_eq_iff _).mp (hdecoded pgn hpgn)⟩
  · intro h
    have hout : ∀ pgn ∈ pages, pteSwappedOut (c.mm.pgd pgn) = true := fun pgn hpgn =>
      (h pgn ((hmem pgn).mp hpgn)).1
    have hall : ∀ pgn ∈ pages, pagingPagePresent (c.mm.pgd pgn) = true := fun pgn hpgn =>
      (Bool.and_eq_true_iff.mp (hout pgn hpgn)).1
    have habsent : pages.filter (fun pgn => !pagingPagePresent (c.mm.pgd pgn)) = [] := by
      refine List.filter_eq_nil_iff.mpr fun pgn hpgn hno => ?_
      rw [hall pgn hpgn] at hno
      exact Bool.false_ne_true hno
    have hnone : pages.filter (fun pgn => pteResident (c.mm.pgd pgn)) = [] := by
      refine List.filter_eq_nil_iff.mpr fun pgn hpgn hres => ?_
      have hswapped := hout pgn hpgn
      rw [pteSwappedOut, pteSwapped_of_resident hres, Bool.and_false] at hswapped
      exact Bool.false_ne_true hswapped
    rw [habsent, hnone, List.filter_eq_self.mpr hall, List.filter_eq_self.mpr hout]
    refine ⟨rfl, congrArg _ (List.map_congr_left fun pgn hpgn => ?_)⟩
    exact (pagingSwp_eq_iff _).mpr (h pgn ((hmem pgn).mp hpgn)).2

/-- A process without pages has no frames, and 16384 of them are put back. -/
lemma not_returnsFrames_of_unmapped {c : Caller} (h : ∀ pgn, c.mm.pgd pgn = 0#32) :
    ¬ c.ReturnsFrames := by
  rw [returnsFrames_iff_lists, residentFrames]
  generalize hpages : List.range pagingMaxPgn = pages
  rintro ⟨hram, -⟩
  have hlen := congrArg Multiset.card hram
  simp only [h, pagingPagePresent_zero, pteResident, Bool.false_and, Bool.not_false,
    List.filter_true, List.filter_false, Multiset.coe_card, List.length_map,
    List.length_nil] at hlen
  rw [← hpages, List.length_range] at hlen
  exact absurd hlen (by decide)

end Caller

/-- No run reaches a page table whose frames are returned: its pages took different swap frames, and
there are 256 frames that `PAGING_SWP` may read off an entry. -/
theorem not_returnsFrames_of_reachable {Pid : Type*} [DecidableEq Pid] {s : MemSys Pid}
    (hs : (swapSystem Pid).Reachable s) (p : Pid) : ¬ (s.caller p).ReturnsFrames := by
  rw [Caller.returnsFrames_iff]
  intro hall
  obtain ⟨taken, htaken⟩ := takenOnce_of_reachable hs p
  have hbound : ∀ pgn : Fin pagingMaxPgn,
      taken pgn / 2 ^ 21 < 4 ∧ taken pgn % 2 ^ 21 / 8 < 64 ∧ taken pgn % 2 ^ 21 % 8 = 0 := by
    intro pgn
    obtain ⟨hout, hmod, hlt⟩ := hall pgn pgn.isLt
    have hgone := (htaken.gone pgn hout).2
    have hnamed : recordedSwpoff ((s.caller p).mm.pgd pgn) = taken pgn % 2 ^ 21 :=
      htaken.named pgn hout
    rw [hnamed] at hmod hlt
    omega
  set place : Fin pagingMaxPgn → Fin 4 × Fin 64 := fun pgn =>
    (⟨_, (hbound pgn).1⟩, ⟨_, (hbound pgn).2.1⟩) with hplace
  have hinj : Function.Injective place := by
    intro pgn pgn' heq
    obtain ⟨hdiv, hmod⟩ := Prod.mk.inj heq
    have hdiv := Fin.mk.inj hdiv
    have hmod := Fin.mk.inj hmod
    have hsame : taken pgn = taken pgn' := by
      have h := (hbound pgn).2.2
      have h' := (hbound pgn').2.2
      omega
    exact Fin.ext (htaken.inj _ _ (hall pgn pgn.isLt).1 (hall pgn' pgn'.isLt).1 hsame)
  have hcard := Fintype.card_le_of_injective place hinj
  rw [Fintype.card_prod, Fintype.card_fin, Fintype.card_fin, Fintype.card_fin] at hcard
  exact absurd hcard (by decide)

/-- Releasing a process returns exactly its frames if and only if each of its pages is swapped
out to a swap frame whose number is a multiple of 8 below 512, and no run comes to that. -/
theorem returnsFrames_exact (Pid : Type*) [DecidableEq Pid] :
    (∀ c : Caller, c.ReturnsFrames ↔
      ∀ pgn, pgn < pagingMaxPgn → pteSwappedOut (c.mm.pgd pgn) = true ∧
        recordedSwpoff (c.mm.pgd pgn) % 8 = 0 ∧ recordedSwpoff (c.mm.pgd pgn) < 512) ∧
    ∀ s : MemSys Pid, (swapSystem Pid).Reachable s → ∀ p, ¬ (s.caller p).ReturnsFrames :=
  ⟨Caller.returnsFrames_iff, fun _ hs p => not_returnsFrames_of_reachable hs p⟩

/-- A process with one page in RAM. -/
theorem returnsFrames_exact_one_page :
    ¬ (((MemSys.fresh Unit 512 512).call () (.alloc 0 256)).caller ()).ReturnsFrames := by
  have hstart : (swapSystem Unit).Reachable (MemSys.fresh Unit 512 512) := by
    refine .start ⟨MemSys.initial_fresh 512 512, ?_, by decide⟩
    unfold Memphy.AllFree
    decide
  exact (returnsFrames_exact Unit).2 _ (hstart.step (a := ((), .alloc 0 256)) rfl) ()

/-- A process that never allocated anything gives its devices frames it does not have. -/
theorem not_returnsFrames_fresh : ¬ ∀ s : MemSys Unit, (callSystem Unit).Reachable s →
    ∀ p, (s.caller p).ReturnsFrames := by
  intro h
  have hreach : (callSystem Unit).Reachable (MemSys.fresh Unit 512 512) :=
    .start (MemSys.initial_fresh 512 512)
  exact Caller.not_returnsFrames_of_unmapped (fun _ => rfl) (h _ hreach ())

end Ossim
