import Ossim.Lib.Footprint
import Ossim.Paging.Devices

/-!
# What the calls write

A call writes to RAM in frames that `PAGING_FPN` decodes, of which there are four, and to swap in
frames that it takes off the free list (`MemCall.writes_run`).  This holds of every call in every
state, on devices in either mode.
-/

namespace Ossim

namespace Caller

/-- The cells of frames that `PAGING_FPN` can decode, and of these frames of swap. -/
def cellsOf (swpFrames : List ℕ) : Set (Device × ℤ) :=
  {cell | ∃ i < pagingPagesz, (∃ fpn < 4, cell = frameCell .mram fpn i) ∨
    ∃ fpn ∈ swpFrames, cell = frameCell .activeMswp fpn i}

/-- The cells that may still be written. -/
def writable (c : Caller) : Set (Device × ℤ) := cellsOf c.activeMswp.freeFpList

/-- From the first caller to the second, only such cells were written. -/
abbrev Writes (c c' : Caller) : Prop := WritesInside writable bytes c c'

lemma mem_cellsOf_mram {swpFrames : List ℕ} {fpn i : ℕ} (hfpn : fpn < 4) (hi : i < pagingPagesz) :
    frameCell .mram fpn i ∈ cellsOf swpFrames :=
  ⟨i, hi, .inl ⟨fpn, hfpn, rfl⟩⟩

/-- RAM behind the four frames. -/
lemma mram_notMem_cellsOf {swpFrames : List ℕ} {addr : ℤ}
    (haddr : addr < 0 ∨ 4 * pagingPagesz ≤ addr) : (Device.mram, addr) ∉ cellsOf swpFrames := by
  rintro ⟨i, hi, ⟨fpn, hfpn, hcell⟩ | ⟨fpn, -, hcell⟩⟩
  · have heq : addr = phyaddr fpn i := congrArg Prod.snd hcell
    unfold phyaddr at heq
    rw [pagingPageszBits_eq] at heq
    rw [pagingPagesz_eq] at hi haddr
    omega
  · cases congrArg Prod.fst hcell

/-- The frames of swap. -/
lemma mem_cellsOf_mswp {swpFrames : List ℕ} {fpn i : ℕ} (hi : i < pagingPagesz) :
    frameCell .activeMswp fpn i ∈ cellsOf swpFrames ↔ fpn ∈ swpFrames := by
  refine ⟨?_, fun hfpn => ⟨i, hi, .inr ⟨fpn, hfpn, rfl⟩⟩⟩
  rintro ⟨j, hj, ⟨f, -, hcell⟩ | ⟨f, hf, hcell⟩⟩
  · cases congrArg Prod.fst hcell
  · by_cases heq : fpn = f
    · exact heq ▸ hf
    · exact absurd hcell (frameCell_ne (fun h => absurd h heq) hi hj)

lemma cellsOf_mono {swpFrames swpFrames' : List ℕ} (h : swpFrames ⊆ swpFrames') :
    cellsOf swpFrames ⊆ cellsOf swpFrames' := by
  rintro cell ⟨i, hi, hram | ⟨fpn, hfpn, hcell⟩⟩
  · exact ⟨i, hi, .inl hram⟩
  · exact ⟨i, hi, .inr ⟨fpn, h hfpn, hcell⟩⟩

variable {c : Caller}

lemma bytes_withMm (c : Caller) (mm : Mm) : { c with mm := mm }.bytes = c.bytes := by
  funext ⟨d, addr⟩
  cases d <;> rfl

lemma writes_withMm (c : Caller) (mm : Mm) : c.Writes { c with mm := mm } :=
  .of_eq subset_rfl (c.bytes_withMm mm)

/-! ## Copying a page -/

/-- A device write stores at its address only. -/
lemma storage_write_of_ne (mp : Memphy) {addr a : ℤ} (h : a ≠ addr) (data : Byte) :
    (mp.write addr data).2.storage a = mp.storage a := by
  unfold Memphy.write Memphy.seqWrite
  cases mp.rdmflg with
  | true => exact Function.update_of_ne h _ _
  | false => rfl

lemma bytes_swapCpCell_of_ne (src : Device) (srcfpn : ℕ) {dst : Device} {dstfpn i : ℕ}
    {cell : Device × ℤ} (h : cell ≠ frameCell dst dstfpn i) :
    (c.swapCpCell src srcfpn dst dstfpn i).bytes cell = c.bytes cell := by
  obtain ⟨d, addr⟩ := cell
  unfold bytes
  by_cases hd : d = dst
  · subst hd
    have haddr : addr ≠ dstfpn * pagingPagesz + i := by
      rintro rfl
      exact h (by simp [frameCell, phyaddr, pagingPagesz_eq])
    unfold swapCpCell
    dsimp only
    rw [device_setDevice_self, storage_write_of_ne _ haddr]
    by_cases hsrc : d = src
    · subst hsrc
      rw [device_setDevice_self, Memphy.storage_read]
    · rw [device_setDevice_of_ne _ hsrc]
  · rw [storage_swapCpCell_of_ne _ _ _ _ _ hd]

lemma bytes_swapCpPage_of_ne (src : Device) (srcfpn : ℕ) {dst : Device} {dstfpn : ℕ}
    {cell : Device × ℤ} (h : ∀ i < pagingPagesz, cell ≠ frameCell dst dstfpn i) :
    (c.swapCpPage src srcfpn dst dstfpn).bytes cell = c.bytes cell := by
  have hcells : ∀ l : List ℕ, (∀ i ∈ l, i < pagingPagesz) → ∀ c : Caller,
      (l.foldl (fun c i => c.swapCpCell src srcfpn dst dstfpn i) c).bytes cell = c.bytes cell := by
    intro l hl
    induction l with
    | nil => exact fun _ => rfl
    | cons i l ih =>
      obtain ⟨hi, hl⟩ := List.forall_mem_cons.mp hl
      intro c
      rw [List.foldl_cons, ih hl, bytes_swapCpCell_of_ne src srcfpn (h i hi)]
  exact hcells _ (fun i hi => List.mem_range.mp hi) c

/-! ## Swapping pages -/

variable {victim swpfpn : ℕ} {list rest : List ℕ}

lemma bytes_picked (c : Caller) (list rest : List ℕ) : (c.picked list rest).bytes = c.bytes := by
  funext ⟨d, addr⟩
  cases d <;> rfl

lemma bytes_setPte (c : Caller) (pgn : ℕ) (pte : Word) : (c.setPte pgn pte).bytes = c.bytes :=
  c.bytes_withMm _

/-- Copying a page to the swap frame that was taken. -/
lemma bytes_swapCpPage_picked (hswap : c.activeMswp.freeFpList = swpfpn :: rest) (srcfpn : ℕ)
    {cell : Device × ℤ} (hcell : cell ∉ c.writable) :
    ((c.picked list rest).swapCpPage .mram srcfpn .activeMswp swpfpn).bytes cell =
      c.bytes cell := by
  rw [bytes_swapCpPage_of_ne, bytes_picked]
  rintro i hi rfl
  exact hcell ⟨i, hi, .inr ⟨swpfpn, by rw [hswap]; exact List.mem_cons_self, rfl⟩⟩

lemma writes_evictPage (hswap : c.activeMswp.freeFpList = swpfpn :: rest) :
    c.Writes ((c.picked list rest).evictPage victim swpfpn) where
  shrinks := by
    obtain ⟨-, hmswp⟩ := freeFpLists_eq ((c.picked list rest).freeFpList_evictPage victim swpfpn)
    refine cellsOf_mono ?_
    rw [hmswp, hswap]
    exact List.subset_cons_self swpfpn rest
  others cell hcell := by
    unfold evictPage
    dsimp only
    rw [bytes_setPte, bytes_swapCpPage_picked hswap _ hcell]

lemma writes_pageIn (hswap : c.activeMswp.freeFpList = swpfpn :: rest) (pgn tgtfpn : ℕ) :
    c.Writes ((c.picked list rest).pageIn pgn tgtfpn victim swpfpn) where
  shrinks := by
    obtain ⟨-, hmswp⟩ := freeFpLists_eq
      ((c.picked list rest).freeFpList_pageIn pgn tgtfpn victim swpfpn)
    refine cellsOf_mono ?_
    rw [hmswp, hswap]
    exact List.subset_cons_self swpfpn rest
  others cell hcell := by
    have hback : ∀ i < pagingPagesz,
        cell ≠ frameCell .mram (pagingFpn ((c.picked list rest).mm.pgd victim)) i := by
      rintro i hi rfl
      exact hcell (mem_cellsOf_mram (pagingFpn_lt _) hi)
    unfold pageIn
    dsimp only
    rw [bytes_withMm, bytes_setPte, bytes_setPte, bytes_swapCpPage_of_ne _ _ hback,
      bytes_swapCpPage_picked hswap _ hcell]

/-! ## The functions -/

lemma writes_allocPagesLoop (n : ℕ) (frmLst : List ℕ) (c : Caller) :
    c.Writes (allocPagesLoop n frmLst c).2.2 := by
  induction n generalizing frmLst c with
  | zero => exact .refl c
  | succ n ih =>
    have hturn := allocPagesLoop_turn n frmLst c
    generalize allocPagesLoop (n + 1) frmLst c = result at hturn ⊢
    cases hturn with
    | take fpn rest hfree =>
      have htaken : c.Writes { c with mram := { c.mram with freeFpList := rest } } := by
        refine .of_eq subset_rfl ?_
        funext ⟨d, addr⟩
        cases d <;> rfl
      exact htaken.trans (ih (fpn :: frmLst) _)
    | noVictim hfree hfifo =>
      rw [allocPagesFail_caller]
      exact .refl c
    | noSwap victim list hfree hvictim hswap =>
      rw [allocPagesFail_caller]
      exact c.writes_withMm _
    | evict victim swpfpn list rest hfree hvictim hswap =>
      exact (writes_evictPage hswap).trans (ih _ _)

lemma writes_vmMapRam (c : Caller) (astart aend mapstart incpgnum : ℤ) :
    c.Writes (c.vmMapRam astart aend mapstart incpgnum).2 := by
  have hgather := writes_allocPagesLoop incpgnum.toNat [] c
  rcases c.vmMapRam_outcome astart aend mapstart incpgnum with ⟨-, -, heq⟩ | ⟨-, -, heq⟩
  · rw [heq]
    exact hgather.trans (writes_withMm _ _)
  · rw [heq]
    exact hgather

lemma writes_incVmaLimit (c : Caller) (vmaid incSz : ℤ) :
    c.Writes (c.incVmaLimit vmaid incSz).2 := by
  have hgrow : c.Writes (c.growArea vmaid incSz) := c.writes_withMm _
  unfold incVmaLimit
  dsimp only
  split
  · exact .refl c
  · split
    · exact hgrow.trans (writes_vmMapRam _ _ _ _ _)
    · exact hgrow.trans (writes_vmMapRam _ _ _ _ _)

lemma writes_alloc (c : Caller) (vmaid rgid size : ℤ) : c.Writes (c.alloc vmaid rgid size).2.2 :=
  alloc_keeps rgid (.refl c) (fun c' mm h _ => h.trans (c'.writes_withMm mm))
    fun c₁ _ h => h.trans (c₁.writes_incVmaLimit vmaid _)

lemma writes_pgGetpage (c : Caller) (pgn : ℕ) : c.Writes (c.pgGetpage pgn).2 := by
  have houtcome := c.pgGetpage_outcome pgn
  generalize c.pgGetpage pgn = result at houtcome ⊢
  cases houtcome with
  | present | noVictim => exact .refl c
  | noSwap => exact c.writes_withMm _
  | exchange victim swpfpn list rest habsent hvictim hswap => exact writes_pageIn hswap pgn _

/-- A byte is stored in RAM. -/
lemma writes_write (c : Caller) {fpn off : ℕ} (hfpn : fpn < 4) (hoff : off < pagingPagesz)
    (data : Byte) : c.Writes { c with mram := (c.mram.write (phyaddr fpn off) data).2 } := by
  refine ⟨subset_rfl, ?_⟩
  rintro ⟨d, addr⟩ hcell
  cases d with
  | activeMswp => rfl
  | mram =>
    refine storage_write_of_ne c.mram ?_ data
    rintro rfl
    exact hcell (mem_cellsOf_mram hfpn hoff)

lemma writes_pgSetval (c : Caller) (addr : Word) (value : Byte) :
    c.Writes (c.pgSetval addr value).2 := by
  have hpage := c.writes_pgGetpage (pagingPgn addr)
  unfold pgSetval
  dsimp only
  rcases hgot : c.pgGetpage (pagingPgn addr) with ⟨_ | fpn, c'⟩
  · rwa [hgot] at hpage
  · rw [hgot] at hpage
    exact hpage.trans (c'.writes_write (pgGetpage_lt hgot) (pagingOffst_lt addr) value)

end Caller

/-- What a call writes. -/
lemma MemCall.writes_run (k : MemCall) (c : Caller) : c.Writes (k.run c).2.2 := by
  cases k with
  | alloc rgid size => exact c.writes_alloc 0 rgid size
  | free rgid =>
    show c.Writes (c.free 0 rgid).2
    unfold Caller.free
    split
    · exact .refl c
    · exact c.writes_withMm _
  | read rgid offset =>
    refine read_keeps (P := c.Writes) (.refl c) (fun addr _ => c.writes_pgGetpage _)
      fun c' cell h => h.trans ?_
    refine .of_eq subset_rfl ?_
    funext ⟨d, addr⟩
    cases d with
    | mram => exact congrFun (c'.mram.storage_read cell) addr
    | activeMswp => rfl
  | write rgid offset value =>
    show c.Writes (c.write 0 rgid offset value).2
    rcases write_cases c 0 rgid offset value with hsame | ⟨addr, -, heq⟩
    · rw [hsame]
      exact .refl c
    · rw [heq]
      exact c.writes_pgSetval addr value

end Ossim
