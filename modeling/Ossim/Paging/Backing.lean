import Ossim.Paging.AddressSpace
import Ossim.Paging.FrameOwnership

/-!
# Backed allocations

A region is backed if each of its pages has been mapped: its entry records a RAM frame or a swap
frame.  `__alloc` drops the status of `inc_vma_limit` and reports success also when there were not
enough frames.  `backed_iff` says when what it reports is true: a free region fits,
or the supply of frames suffices and the region ends below 4 MB.  Regions cut out of what an
earlier growth left over are backed because all pages below the end of the area are, and mapped
pages stay mapped.
-/

namespace Ossim

/-- The entry of the page records a RAM frame or a swap frame. -/
def Mm.Mapped (mm : Mm) (n : ℕ) : Prop :=
  n < pagingMaxPgn ∧ ((ramFrame (mm.pgd n)).isSome = true ∨ (swapFrame (mm.pgd n)).isSome = true)

/-- The page has an address of the region. -/
def VmRg.Overlaps (rg : VmRg) (n : ℕ) : Prop :=
  ∃ a, rg.rgStart ≤ a ∧ a < rg.rgEnd ∧ a / pagingPagesz = n

/-- A page with the present bit records a frame. -/
lemma mapped_of_present {mm : Mm} {n : ℕ} (hn : n < pagingMaxPgn)
    (h : pagingPagePresent (mm.pgd n) = true) : mm.Mapped n := by
  refine ⟨hn, ?_⟩
  unfold ramFrame swapFrame pteResident
  rw [h]
  cases pteSwapped (mm.pgd n) <;> simp

namespace Caller

/-- The free regions, or RAM and swap together, can supply the frames of an allocation. -/
def CanSupply (c : Caller) (size : ℤ) : Prop :=
  c.Fits size ∨ grownPages (pagingPageAlignsz size) ≤ c.supply

/-- An allocation is backed: on success each page of the new region is mapped, and without enough
frames the call does not succeed. -/
structure Backed (c : Caller) (rgid size : ℤ) : Prop where
  /-- Success. -/
  mapped : (c.alloc 0 rgid size).1 = 0 →
    ∀ n, ((c.alloc 0 rgid size).2.2.mm.symrgtbl rgid).Overlaps n →
      (c.alloc 0 rgid size).2.2.mm.Mapped n
  /-- Failure. -/
  fails : ¬ c.CanSupply size → (c.alloc 0 rgid size).1 ≠ 0

/-- The condition on a call under which all pages of the area stay mapped: an allocation has room
and frames. -/
def StaysMapped (c : Caller) : MemCall → Prop
  | .alloc _ size => c.RoomFor size ∧ c.CanSupply size
  | _ => True

end Caller

/-- All pages of the area are mapped. -/
structure AllMapped (mm : Mm) (v : VmArea) : Prop where
  /-- The area. -/
  laid : Laid mm v
  /-- Its pages. -/
  present : ∀ n, n < v.vmEnd / pagingPagesz → pagingPagePresent (mm.pgd n) = true

/-- An allocation with room and frames keeps all pages of the area mapped. -/
lemma AllMapped.gives {c c' : Caller} {v v' : VmArea} {rgid size : ℤ} (h : AllMapped c.mm v)
    (hgives : c.Gives c' v v' rgid size) (hsupply : c.CanSupply size) : AllMapped c'.mm v' := by
  refine ⟨hgives.laid, fun n hn => ?_⟩
  by_cases hold : n < v.vmEnd / pagingPagesz
  · exact hgives.maps.keep n (h.present n hold)
  · exact hgives.backed hsupply n (not_lt.mp hold) hn

/-- Every call that meets the condition keeps all pages of the area mapped. -/
lemma AllMapped.call {c : Caller} {v : VmArea} (h : AllMapped c.mm v) {k : MemCall}
    (hok : c.StaysMapped k) : ∃ v', AllMapped (k.run c).2.2.mm v' := by
  have haccess : ∀ mm' rgid offset, AccessMaps c.mm mm' rgid offset → AllMapped mm' v := by
    intro mm' rgid offset hacc
    refine ⟨h.laid.congr hacc.mmap hacc.symrgtbl, fun n hn => ?_⟩
    rcases hacc.pages with rfl | ⟨addr, -, hmap⟩
    · exact h.present n hn
    · exact hmap.keep n (h.present n hn)
  cases k with
  | alloc rgid size =>
    obtain ⟨v', hgives⟩ := Caller.gives_of_room h.laid hok.1 rgid
    exact ⟨v', h.gives hgives hok.2⟩
  | free rgid =>
    obtain ⟨v', hlaid, hend, hpgd, -⟩ := Caller.laid_free h.laid 0 rgid
    refine ⟨v', hlaid, fun n hn => ?_⟩
    rw [hend] at hn
    show pagingPagePresent ((c.free 0 rgid).2.mm.pgd n) = true
    rw [hpgd]
    exact h.present n hn
  | read rgid offset => exact ⟨v, haccess _ _ _ (c.accessMaps_read 0 rgid offset)⟩
  | write rgid offset value => exact ⟨v, haccess _ _ _ (c.accessMaps_write 0 rgid offset value)⟩

/-- A region that grows over the end of the address space has a page without an entry. -/
lemma overlaps_of_alloc_at_brk {c : Caller} {v : VmArea} (h : Laid c.mm v) (rgid : ℤ) {size : ℤ}
    (hhi : size < 2 ^ 31) (hfit : firstFit size v.vmFreergList = none)
    (hover : 2 ^ 22 < v.vmEnd + size) :
    ((c.alloc 0 rgid size).2.2.mm.symrgtbl rgid).Overlaps pagingMaxPgn := by
  obtain ⟨-, hsym⟩ := Caller.alloc_at_brk h.mmap hfit rgid
  have hsmall := h.small
  rw [hsym, h.sbrk, cint_of_mem (x := v.vmEnd) (by omega) (by omega)]
  have hstart : ulong v.vmEnd ≤ 2 ^ 22 := by
    unfold ulong
    omega
  -- an end that is no `int` is converted to a number close to 2 ^ 64
  have hend : 2 ^ 22 < ulong (cint (v.vmEnd + size)) := by
    unfold cint ulong
    rw [Int.bmod_def]
    split <;> omega
  refine ⟨2 ^ 22, hstart, hend, ?_⟩
  rw [pagingMaxPgn_eq, pagingPagesz_eq]
  omega

/-- When all pages of the area are mapped, an allocation is backed exactly if a free region fits, or
there are enough frames and the region ends below 4 MB. -/
lemma AllMapped.backed_of_supply {c : Caller} {v : VmArea} (h : AllMapped c.mm v) (rgid : ℤ)
    {size : ℤ} (hlo : 1 ≤ size) (hhi : size < 2 ^ 31) :
    c.Backed rgid size ↔ c.Fits size ∨ Caller.grownPages (pagingPageAlignsz size) ≤ c.supply ∧
      (c.mm.curVma 0).vmEnd + size ≤ 2 ^ 22 := by
  constructor
  · intro hbacked
    have hsupply : c.CanSupply size := by
      by_contra hfew
      exact hbacked.fails hfew (Caller.alloc_status c 0 rgid size)
    refine or_iff_not_imp_left.mpr fun hfits => ⟨hsupply.resolve_left hfits, ?_⟩
    rw [Caller.curVma_single h.laid.mmap]
    by_contra hover
    rw [Caller.Fits, Caller.curVma_single h.laid.mmap] at hfits
    have hpage := overlaps_of_alloc_at_brk h.laid rgid hhi (by simpa using hfits)
      (not_le.mp hover)
    have hmapped := hbacked.mapped (Caller.alloc_status c 0 rgid size) _ hpage
    exact absurd hmapped.1 (lt_irrefl _)
  · intro hok
    have hroom : c.RoomFor size := ⟨by omega, hhi, hok.imp_right And.right⟩
    have hsupply : c.CanSupply size := hok.imp_right And.left
    refine ⟨fun _ n hn => ?_, fun hfew => absurd hsupply hfew⟩
    obtain ⟨v', hgives⟩ := Caller.gives_of_room h.laid hroom rgid
    obtain ⟨a, hregion, hend⟩ := hgives.region
    obtain ⟨x, -, hx, rfl⟩ := hn
    rw [hregion] at hx
    dsimp only at hx
    have haligned := hgives.laid.aligned
    have hsmall := hgives.laid.small
    rw [pagingPagesz_eq] at haligned ⊢
    refine mapped_of_present ?_ ((h.gives hgives hsupply).present _ ?_)
    · rw [pagingMaxPgn_eq]
      omega
    · rw [pagingPagesz_eq]
      omega

/-! ## Runs -/

variable {Pid : Type*} [DecidableEq Pid]

omit [DecidableEq Pid] in
/-- At the start the area has no pages. -/
lemma allMapped_of_initial {s : MemSys Pid} (h : s.Initial) (hstale : s.NoStaleRegions) (p : Pid) :
    ∃ v, AllMapped (s.mm p) v := by
  obtain ⟨v, hlaid, hend⟩ := laid_of_initial h hstale p
  exact ⟨v, hlaid, fun n hn => absurd hn (by simp [hend])⟩

/-- An allocation is backed exactly if a free region fits, or there are enough frames and the region
ends below 4 MB, in every state reached by calls whose allocations met this, from a start without
stale regions. -/
theorem backed_iff {s : MemSys Pid}
    (hs : (((callSystem Pid).startIn MemSys.NoStaleRegions).restrict
      fun s a => (s.caller a.1).StaysMapped a.2).Reachable s) (p : Pid) (rgid : ℤ) {size : ℤ}
    (hlo : 1 ≤ size) (hhi : size < 2 ^ 31) :
    (s.caller p).Backed rgid size ↔ (s.caller p).Fits size ∨
      Caller.grownPages (pagingPageAlignsz size) ≤ (s.caller p).supply ∧
        ((s.mm p).curVma 0).vmEnd + size ≤ 2 ^ 22 := by
  have hall : ∀ q, ∃ v, AllMapped (s.mm q) v := by
    refine hs.invariant_restrict (I := fun s => ∀ q, ∃ v, AllMapped (s.mm q) v) ?_ ?_
    · rintro s ⟨hinit, hstale⟩ q
      exact allMapped_of_initial hinit hstale q
    · intro s a s' h ht hok
      obtain rfl : s' = s.call a.1 a.2 := ht
      obtain ⟨v, hv⟩ := h a.1
      exact MemSys.forall_call (P := fun mm => ∃ v, AllMapped mm v) h
        (AllMapped.call (c := s.caller a.1) hv hok)
  obtain ⟨v, hv⟩ := hall p
  exact AllMapped.backed_of_supply (c := s.caller p) hv rgid hlo hhi

/-- Ten bytes that fit into what an allocation of 300 bytes left over are backed. -/
theorem backed_second_alloc :
    (((MemSys.fresh Unit 1024 0).call () (.alloc 0 300)).caller ()).Backed 1 10 := by
  have hok : ((MemSys.fresh Unit 1024 0).caller ()).StaysMapped (.alloc 0 300) :=
    ⟨⟨by decide, by decide, .inr (by decide)⟩, .inr (by decide)⟩
  have hstart : ((callSystem Unit).startIn MemSys.NoStaleRegions).start
      (MemSys.fresh Unit 1024 0) := ⟨MemSys.initial_fresh 1024 0, noStaleRegions_fresh 1024 0⟩
  exact (backed_iff (.step (.start hstart) (a := ((), .alloc 0 300)) ⟨rfl, hok⟩) () 1
    (by decide) (by decide)).mpr (.inl (by decide))

/-- Two pages that a RAM of one frame cannot hold: the allocation reports success all the same. -/
theorem not_backed : ¬ ∀ s : MemSys Unit, (callSystem Unit).Reachable s →
    ∀ p rgid size, 0 ≤ rgid → rgid < pagingMaxSymtblSz → 1 ≤ size → size < 2 ^ 31 →
      (s.caller p).Backed rgid size := by
  intro h
  have hbacked := h _ (.start (MemSys.initial_fresh 256 0)) () 0 512 (by decide) (by decide)
    (by decide) (by decide)
  refine hbacked.fails ?_ (Caller.alloc_status _ _ _ _)
  rintro (hfits | hsupply)
  · exact absurd hfits (by decide)
  · exact absurd hsupply (by decide)

end Ossim
