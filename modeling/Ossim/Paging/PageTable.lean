import Ossim.Paging.AddressSpace

/-!
# Pages behind the page table

A page table has `PAGING_MAX_PGN` entries, and `vmap_page_range` maps as many pages as it is told
to.  While no growth goes over the end of the table (`Caller.GrowsInside`), all pages that are
mapped or resident have an entry in it (`InTable`).  Pages that are swapped out have the present bit
too, since both setters of entries set it.
-/

namespace Ossim

/-- All pages that are mapped or resident have an entry in the page table. -/
structure InTable (mm : Mm) : Prop where
  /-- The mapped pages. -/
  present : ∀ n, pagingPagePresent (mm.pgd n) = true → n < pagingMaxPgn
  /-- The resident pages. -/
  fifo : ∀ n ∈ mm.fifoPgn, n < pagingMaxPgn
  /-- The pages that are swapped out are mapped. -/
  swapped : ∀ n, pteSwapped (mm.pgd n) = true → pagingPagePresent (mm.pgd n) = true

lemma InTable.maps {mm mm' : Mm} {lo hi : ℕ} (h : InTable mm) (hmap : MapsPages lo hi mm mm')
    (hhi : hi ≤ pagingMaxPgn) : InTable mm' := by
  refine ⟨fun n hn => ?_, fun n hn => ?_, fun n hn => ?_⟩
  · rcases hmap.only n hn with hn | hn | hn
    · exact h.present n hn
    · exact h.fifo n hn
    · exact hn.2.trans_le hhi
  · rcases hmap.fifo n hn with hn | hn
    · exact h.fifo n hn
    · exact hn.2.trans_le hhi
  · rcases hmap.entry n with hsame | hpresent
    · rw [hsame] at hn ⊢
      exact h.swapped n hn
    · exact hpresent

/-- A fresh page table maps nothing. -/
lemma inTable_initMm {mm : Mm} (hfifo : ∀ n ∈ mm.fifoPgn, n < pagingMaxPgn) (freerg : List VmRg) :
    InTable (initMm mm freerg) :=
  ⟨fun n hn => absurd (show pagingPagePresent 0#32 = true from hn) (by decide), hfifo,
    fun n hn => absurd (show pteSwapped 0#32 = true from hn) (by decide)⟩

lemma pagingPgn_lt (x : Word) : pagingPgn x < pagingMaxPgn := by
  rw [pagingPgn_eq, pagingMaxPgn_eq]
  omega

namespace Caller

/-- An allocation that has to grow the area, and gets the frames for it, maps entries of the page
table only. -/
def GrowsInside (c : Caller) (size : ℤ) : Prop :=
  ∀ c', c.getFreeVmrgArea 0 size = (none, c') →
    grownPages (pagingPageAlignsz size) ≤ c'.supply →
      firstGrownPage (c'.mm.curVma 0) + grownPages (pagingPageAlignsz size) ≤ pagingMaxPgn

/-- Growing the RAM mapping fails without frames for it, and then maps nothing. -/
lemma mapsPages_vmMapRam_of_lt {c : Caller} {incpgnum : ℤ} (hlt : c.supply < incpgnum.toNat)
    {lo hi : ℕ} (astart aend mapstart : ℤ) :
    MapsPages lo hi c.mm (c.vmMapRam astart aend mapstart incpgnum).2.mm := by
  have hgather : MapsPages lo hi c.mm (allocPagesLoop incpgnum.toNat [] c).2.2.mm :=
    mapsPages_allocPagesLoop _ _ _
  rcases c.vmMapRam_outcome astart aend mapstart incpgnum with ⟨hle, -, -⟩ | ⟨-, -, heq⟩
  · omega
  · rw [heq]
    exact hgather

lemma inTable_incVmaLimit {c : Caller} {v : VmArea} (hv : c.mm.mmap = [v]) (h : InTable c.mm)
    {incSz : ℤ} (hinside : grownPages incSz ≤ c.supply →
      firstGrownPage v + grownPages incSz ≤ pagingMaxPgn) :
    InTable (c.incVmaLimit 0 incSz).2.mm := by
  by_cases hle : grownPages incSz ≤ c.supply
  · exact h.maps (mapsPages_incVmaLimit hv incSz).1 (hinside hle)
  · obtain ⟨astart, aend, heq⟩ := incVmaLimit_eq hv incSz
    have hgrown : InTable (c.grown v incSz).mm := ⟨h.present, h.fifo, h.swapped⟩
    have hlt : (c.grown v incSz).supply < ((pagingPageAlignsz incSz).tdiv pagingPagesz).toNat :=
      Nat.lt_of_not_le hle
    rw [heq]
    have hmaps : MapsPages 0 0 (c.grown v incSz).mm ((c.grown v incSz).vmMapRam astart aend
        (cint v.vmEnd) ((pagingPageAlignsz incSz).tdiv pagingPagesz)).2.mm :=
      mapsPages_vmMapRam_of_lt hlt _ _ _
    exact hgrown.maps hmaps (Nat.zero_le _)

lemma inTable_alloc {c : Caller} {v : VmArea} (hv : c.mm.mmap = [v]) (h : InTable c.mm) {size : ℤ}
    (hinside : c.GrowsInside size) (rgid : ℤ) : InTable (c.alloc 0 rgid size).2.2.mm := by
  obtain ⟨list, hfree⟩ := getFreeVmrgArea_single hv size
  unfold GrowsInside at hinside
  unfold alloc
  generalize c.getFreeVmrgArea 0 size = found at hfree hinside ⊢
  obtain ⟨rg, c₁⟩ := found
  dsimp only at hfree
  have h₁ : InTable c₁.mm := by
    rw [hfree]
    exact ⟨h.present, h.fifo, h.swapped⟩
  cases rg with
  | some rgnode => exact ⟨h₁.present, h₁.fifo, h₁.swapped⟩
  | none =>
    have hv₁ : c₁.mm.mmap = [{ v with vmFreergList := list }] := by rw [hfree]
    have hgrows := hinside c₁ rfl
    rw [curVma_single hv₁] at hgrows
    have hlimit := inTable_incVmaLimit hv₁ h₁ hgrows
    have harea := (incVmaLimit_single hv₁ (pagingPageAlignsz size)).mmap
    obtain ⟨rg, list', hcarve⟩ := carveAtBrk_single harea rgid size (cint (c₁.mm.curVma 0).sbrk)
    dsimp only
    unfold allocAtBrk
    dsimp only
    rw [hcarve]
    exact ⟨hlimit.present, hlimit.fifo, hlimit.swapped⟩

/-- Bringing a page of the table to RAM. -/
lemma inTable_pgGetpage {c : Caller} (h : InTable c.mm) {pgn : ℕ} (hpgn : pgn < pagingMaxPgn) :
    InTable (c.pgGetpage pgn).2.mm :=
  h.maps (c.mapsPages_pgGetpage pgn) hpgn

end Caller

/-- An access goes to a page of the table. -/
lemma InTable.access {mm mm' : Mm} (h : InTable mm) {rgid offset : ℤ}
    (haccess : AccessMaps mm mm' rgid offset) : InTable mm' := by
  rcases haccess.pages with rfl | ⟨addr, -, hmap⟩
  · exact h
  · exact h.maps hmap (pagingPgn_lt addr)

/-- The growth of an allocation stays in the table; the other calls always do. -/
def Caller.MapsInside (c : Caller) : MemCall → Prop
  | .alloc _ size => c.GrowsInside size
  | _ => True

lemma MemCall.inTable_run {c : Caller} {v : VmArea} (hv : c.mm.mmap = [v]) (h : InTable c.mm)
    {k : MemCall} (hinside : c.MapsInside k) : InTable (k.run c).2.2.mm := by
  cases k with
  | alloc rgid size => exact Caller.inTable_alloc hv h hinside rgid
  | free rgid =>
    obtain ⟨list, hfree⟩ := Caller.free_single hv 0 rgid
    show InTable (c.free 0 rgid).2.mm
    rw [hfree]
    exact ⟨h.present, h.fifo, h.swapped⟩
  | read rgid offset => exact h.access (c.accessMaps_read 0 rgid offset)
  | write rgid offset value => exact h.access (c.accessMaps_write 0 rgid offset value)

end Ossim
