import Ossim.Paging.Residency

/-!
# Mapping a range of pages

What `vmap_page_range` of `src/mm.c` does to the page table, the resident list and the region it
returns, for every range that fits into the page table.  The loop consumes one frame of its list
for each page; `pgd_vmapPageLoop` and `fifoPgn_vmapPageLoop` relate the two by induction on the
number of pages left.
-/

namespace Ossim

namespace Caller

/-- The page at distance `i` from the first one gets the frame at position `i`. -/
lemma pgd_vmapPageLoop {n pgn : ℕ} {frames : List ℕ} {mm : Mm} (hlen : n ≤ frames.length) {i : ℕ}
    (hi : i < n) : (vmapPageLoop n pgn frames mm).pgd (pgn + i) =
      pteSetFpn (mm.pgd (pgn + i)) (frames.get ⟨i, hi.trans_le hlen⟩) := by
  induction n generalizing pgn frames mm i with
  | zero => exact absurd hi (Nat.not_lt_zero i)
  | succ n ih =>
    obtain ⟨fpn, frames, rfl⟩ := List.exists_cons_of_length_pos (Nat.zero_lt_of_lt hlen)
    unfold vmapPageLoop
    cases i with
    | zero =>
      -- the later turns map pages behind this one
      rw [(vmapPageLoop_frame n (pgn + 1) frames _).2.2 (pgn + 0) (.inl (Nat.lt_succ_self pgn))]
      exact Function.update_self _ _ _
    | succ i =>
      have hpgn : pgn + (i + 1) = pgn + 1 + i := by omega
      have hne : pgn + 1 + i ≠ pgn := by omega
      rw [hpgn, ih (Nat.le_of_succ_le_succ hlen) (Nat.lt_of_succ_lt_succ hi)]
      exact congrArg (pteSetFpn · _) (Function.update_of_ne hne _ _)

/-- The page number of an address in the address space. -/
lemma pagingPgn_of_nonneg {addr : ℤ} (hlo : 0 ≤ addr) (hhi : addr / 256 < pagingMaxPgn) :
    pagingPgn (BitVec.ofInt 32 addr) = (addr / 256).toNat := by
  rw [pagingMaxPgn_eq] at hhi
  have hnat : (BitVec.ofInt 32 addr).toNat = addr.toNat := by
    rw [BitVec.toNat_ofInt]
    omega
  rw [pagingPgn_eq, hnat]
  omega

/-- The region that `vmap_page_range` returns. -/
lemma retRg_vmapPageRange (c : Caller) {addr pgnum : ℤ} (frames : List ℕ) (hlo : 0 ≤ addr)
    (hpgnum : 0 ≤ pgnum) (hroom : addr / 256 + pgnum ≤ pagingMaxPgn) :
    (c.vmapPageRange addr pgnum frames).1 =
      ⟨addr.toNat, (addr + pgnum * pagingPagesz).toNat⟩ := by
  rw [pagingMaxPgn_eq] at hroom
  have hcint : cint (pgnum * pagingPagesz) = pgnum * 256 :=
    cint_of_mem (by rw [pagingPagesz_cast]; omega) (by rw [pagingPagesz_cast]; omega)
  have haddr : (ulong addr : ℤ) = addr := ulong_of_mem hlo (by omega)
  have hend : (ulong (addr + pgnum * 256) : ℤ) = addr + pgnum * 256 :=
    ulong_of_mem (by omega) (by omega)
  unfold vmapPageRange
  dsimp only
  rw [hcint, haddr, VmRg.mk.injEq, pagingPagesz_cast]
  exact ⟨by omega, by omega⟩

/-- Mapping `pgnum` pages from the one of `addr` on: each page of the range gets its frame and is
present and not swapped, every other entry stays, the pages are put on the resident list in
ascending order, the returned region is the range, and nothing else of the process changes. -/
theorem vmapPageRange_exact (c : Caller) {addr pgnum : ℤ} {frames : List ℕ} (hlo : 0 ≤ addr)
    (hpgnum : 0 ≤ pgnum) (hroom : addr / pagingPagesz + pgnum ≤ pagingMaxPgn)
    (hlen : pgnum ≤ frames.length) (hfit : ∀ fpn ∈ frames, fpn < 2 ^ 13) :
    (∀ i (hi : i < pgnum.toNat),
      let pte := (c.vmapPageRange addr pgnum frames).2.mm.pgd ((addr / pagingPagesz).toNat + i)
      pagingPagePresent pte = true ∧ pteSwapped pte = false ∧
        recordedFpn pte = frames.get ⟨i, by omega⟩) ∧
    (∀ pgn, pgn < (addr / pagingPagesz).toNat ∨
        (addr / pagingPagesz).toNat + pgnum.toNat ≤ pgn →
      (c.vmapPageRange addr pgnum frames).2.mm.pgd pgn = c.mm.pgd pgn) ∧
    (c.vmapPageRange addr pgnum frames).2.mm.fifoPgn =
      (List.range' (addr / pagingPagesz).toNat pgnum.toNat).reverse ++ c.mm.fifoPgn ∧
    (c.vmapPageRange addr pgnum frames).1 =
      ⟨addr.toNat, (addr + pgnum * pagingPagesz).toNat⟩ ∧
    (c.vmapPageRange addr pgnum frames).2.mm.mmap = c.mm.mmap ∧
    (c.vmapPageRange addr pgnum frames).2.mm.symrgtbl = c.mm.symrgtbl ∧
    (c.vmapPageRange addr pgnum frames).2.mram = c.mram ∧
    (c.vmapPageRange addr pgnum frames).2.activeMswp = c.activeMswp := by
  rw [pagingPagesz_cast] at hroom ⊢
  have hlen' : pgnum.toNat ≤ frames.length := by omega
  obtain ⟨hmmap, hsym, hother⟩ := vmapPageLoop_frame pgnum.toNat
    (pagingPgn (BitVec.ofInt 32 addr)) frames c.mm
  have hret := c.retRg_vmapPageRange frames hlo hpgnum hroom
  -- the page number is cut to the bus width, which matters only behind the last page
  have hpgn : pgnum.toNat = 0 ∨ pagingPgn (BitVec.ofInt 32 addr) = (addr / 256).toNat := by
    rcases Nat.eq_zero_or_pos pgnum.toNat with hzero | hpos
    · exact .inl hzero
    · exact .inr (pagingPgn_of_nonneg hlo (by omega))
  refine ⟨fun i hi => ?_, fun pgn hout => ?_, ?_, hret, hmmap, hsym, rfl, rfl⟩
  · have hpgn := hpgn.resolve_left (by omega)
    have hpte : (c.vmapPageRange addr pgnum frames).2.mm.pgd ((addr / 256).toNat + i) =
        pteSetFpn (c.mm.pgd ((addr / 256).toNat + i)) (frames.get ⟨i, by omega⟩) := by
      rw [← hpgn]
      exact pgd_vmapPageLoop hlen' hi
    intro pte
    have hpte : pte = pteSetFpn _ _ := hpte
    have hlt := hfit _ (frames.get_mem ⟨i, by omega⟩)
    rw [hpte, pagingPagePresent_pteSetFpn, pteSwapped_pteSetFpn, recordedFpn_pteSetFpn,
      Nat.mod_eq_of_lt hlt]
    exact ⟨rfl, rfl, rfl⟩
  · apply hother
    rcases hpgn with hzero | hpgn
    · omega
    · omega
  · refine (fifoPgn_vmapPageLoop hlen').trans ?_
    rcases hpgn with hzero | hpgn
    · rw [hzero]
      rfl
    · rw [hpgn]

/-- Two pages mapped at address 512 with three frames at hand: page 3 gets the second one. -/
theorem vmapPageRange_exact_two :
    recordedFpn ((((MemSys.fresh Unit 1024 1024).caller ()).vmapPageRange 512 2
      [3, 1, 2]).2.mm.pgd 3) = 1 ∧
    (((MemSys.fresh Unit 1024 1024).caller ()).vmapPageRange 512 2 [3, 1, 2]).2.mm.fifoPgn =
      [3, 2] := by
  have hroom : (512 : ℤ) / pagingPagesz + 2 ≤ pagingMaxPgn := by decide
  have hlen : (2 : ℤ) ≤ [3, 1, 2].length := by decide
  have h := ((MemSys.fresh Unit 1024 1024).caller ()).vmapPageRange_exact (by decide) (by decide)
    hroom hlen (by decide)
  exact ⟨(h.1 1 (by decide)).2.2, h.2.2.1⟩

end Caller

end Ossim
