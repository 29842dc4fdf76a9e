import Ossim.Paging.Footprint
import Ossim.Tlb.Accesses

/-!
# What instructions change

The lists of `Ossim.Tlb.Accesses` stand beside the functions.  Here they are compared with what the
functions do: a register, a symbol, a page table entry or a byte of RAM that an instruction changes
is on its list (`changesOnly_run`).
-/

namespace Ossim

namespace Caller

/-- From the first caller to the second, only elements of the list changed. -/
structure ChangesOnly (c c' : Caller) (l : List Access) : Prop where
  /-- The symbol table. -/
  symrgtbl : ∀ i, .symrgtbl i ∉ l → c'.mm.symrgtbl i = c.mm.symrgtbl i
  /-- The page table. -/
  pgd : ∀ n, .pgd n ∉ l → c'.mm.pgd n = c.mm.pgd n
  /-- RAM. -/
  mram : ∀ i, .mram i ∉ l → c'.mram.storage i = c.mram.storage i

variable {c c' c'' : Caller} {l l' : List Access}

namespace ChangesOnly

lemma of_eq (hsym : c'.mm.symrgtbl = c.mm.symrgtbl) (hpgd : c'.mm.pgd = c.mm.pgd)
    (hmram : c'.mram.storage = c.mram.storage) : c.ChangesOnly c' l :=
  ⟨fun i _ => congrFun hsym i, fun n _ => congrFun hpgd n, fun i _ => congrFun hmram i⟩

lemma refl (c : Caller) : c.ChangesOnly c l := .of_eq rfl rfl rfl

lemma mono (h : c.ChangesOnly c' l) (hsub : l ⊆ l') : c.ChangesOnly c' l' :=
  ⟨fun i hi => h.symrgtbl i fun hl => hi (hsub hl), fun n hn => h.pgd n fun hl => hn (hsub hl),
    fun i hi => h.mram i fun hl => hi (hsub hl)⟩

lemma trans (h : c.ChangesOnly c' l) (h' : c'.ChangesOnly c'' l') :
    c.ChangesOnly c'' (l ++ l') where
  symrgtbl i hi := by
    rw [List.mem_append, not_or] at hi
    rw [h'.symrgtbl i hi.2, h.symrgtbl i hi.1]
  pgd n hn := by
    rw [List.mem_append, not_or] at hn
    rw [h'.pgd n hn.2, h.pgd n hn.1]
  mram i hi := by
    rw [List.mem_append, not_or] at hi
    rw [h'.mram i hi.2, h.mram i hi.1]

end ChangesOnly

/-! ## Growing -/

lemma changesOnly_picked (c : Caller) (list rest : List ℕ) :
    c.ChangesOnly (c.picked list rest) [] := .of_eq rfl rfl rfl

/-- Swapping a page out reads RAM and writes the entry of the page. -/
lemma changesOnly_evictPage (c : Caller) (victim swpfpn : ℕ) :
    c.ChangesOnly (c.evictPage victim swpfpn) [.pgd victim] where
  symrgtbl i _ := by rw [mm_evictPage]
  pgd n hn := by
    have hne : n ≠ victim := by
      rintro rfl
      exact hn List.mem_cons_self
    rw [mm_evictPage]
    exact Function.update_of_ne hne _ _
  mram i _ := by
    rw [mram_evictPage, storage_swapCpPage_of_ne _ _ _ _ (by decide)]
    rfl

lemma changesOnly_allocPagesLoop (n : ℕ) (frmLst : List ℕ) (c : Caller) :
    c.ChangesOnly (allocPagesLoop n frmLst c).2.2 (gatherAccesses n c) := by
  induction n generalizing frmLst c with
  | zero => exact .refl c
  | succ n ih =>
    have hturn := allocPagesLoop_turn n frmLst c
    generalize allocPagesLoop (n + 1) frmLst c = result at hturn ⊢
    cases hturn with
    | take fpn rest hfree =>
      have htaken : c.ChangesOnly { c with mram := { c.mram with freeFpList := rest } } [] :=
        .of_eq rfl rfl rfl
      unfold gatherAccesses
      rw [Memphy.getFreefp_eq_some.mpr ⟨rest, hfree, rfl⟩]
      exact htaken.trans (ih (fpn :: frmLst) _)
    | noVictim hfree hfifo =>
      rw [allocPagesFail_caller]
      exact .refl c
    | noSwap victim list hfree hvictim hswap =>
      rw [allocPagesFail_caller]
      exact .of_eq rfl rfl rfl
    | evict victim swpfpn list rest hfree hvictim hswap =>
      have hvic := findVictimPage_eq_some.mpr ⟨list, hvictim, rfl⟩
      unfold gatherAccesses
      rw [Memphy.getFreefp_eq_none.mpr hfree, hvic]
      dsimp only
      rw [Memphy.getFreefp_eq_some.mpr ⟨rest, hswap, rfl⟩]
      have hevict := (c.changesOnly_picked list rest).trans
        (changesOnly_evictPage (c.picked list rest) victim swpfpn)
      refine (hevict.trans (ih (pagingFpn (c.mm.pgd victim) :: frmLst) _)).mono ?_
      refine List.append_subset.mpr ⟨?_, List.subset_append_right _ _⟩
      exact List.cons_subset.mpr ⟨List.mem_cons_self, List.nil_subset _⟩

/-- Growing the RAM mapping. -/
lemma changesOnly_vmMapRam (c : Caller) (astart aend mapstart incpgnum : ℤ) :
    c.ChangesOnly (c.vmMapRam astart aend mapstart incpgnum).2
      (c.mapAccesses mapstart incpgnum) := by
  have hgather := c.changesOnly_allocPagesLoop incpgnum.toNat []
  unfold mapAccesses
  rcases c.vmMapRam_outcome astart aend mapstart incpgnum with ⟨hle, -, heq⟩ | ⟨-, -, heq⟩
  · rw [heq, vmMapRamWrites_eq, if_pos hle]
    obtain ⟨-, hsym, hpgd⟩ := vmapPageLoop_frame incpgnum.toNat
      (pagingPgn (BitVec.ofInt 32 mapstart)) (allocPagesLoop incpgnum.toNat [] c).2.1
      (allocPagesLoop incpgnum.toNat [] c).2.2.mm
    refine hgather.trans ⟨fun i _ => congrFun hsym i, fun n hn => hpgd n ?_, fun _ _ => rfl⟩
    by_contra hin
    exact hn (List.mem_map.mpr ⟨n, List.mem_range'_1.mpr (by omega), rfl⟩)
  · rw [heq]
    exact hgather.mono (List.subset_append_left _ _)

/-- New bounds of an area. -/
lemma changesOnly_setCurVma (c : Caller) (vmaid : ℤ) (vma : VmArea) :
    c.ChangesOnly { c with mm := c.mm.setCurVma vmaid vma } [] := by
  unfold Mm.setCurVma
  split <;> exact .of_eq rfl rfl rfl

lemma changesOnly_enlistVmFreergList (c : Caller) (rg : VmRg) :
    c.ChangesOnly { c with mm := c.mm.enlistVmFreergList rg } [] := by
  unfold Mm.enlistVmFreergList
  split
  · exact .refl c
  · split <;> exact .of_eq rfl rfl rfl

lemma changesOnly_setSymrg (c : Caller) (rgid : ℤ) (rg : VmRg) :
    c.ChangesOnly { c with mm := c.mm.setSymrg rgid rg } [.symrgtbl rgid] where
  symrgtbl i hi := by
    have hne : i ≠ rgid := by
      rintro rfl
      exact hi List.mem_cons_self
    exact Function.update_of_ne hne _ _
  pgd _ _ := rfl
  mram _ _ := rfl

lemma changesOnly_incVmaLimit (c : Caller) (vmaid incSz : ℤ) :
    c.ChangesOnly (c.incVmaLimit vmaid incSz).2 (c.growAccesses vmaid incSz) := by
  have hgrow : c.ChangesOnly (c.growArea vmaid incSz) [] := c.changesOnly_setCurVma vmaid _
  unfold incVmaLimit growAccesses
  dsimp only
  split
  · exact .refl c
  · split <;> exact hgrow.trans (changesOnly_vmMapRam _ _ _ _ _)

lemma changesOnly_getFreeVmrgArea (c : Caller) (vmaid size : ℤ) :
    c.ChangesOnly (c.getFreeVmrgArea vmaid size).2 [] := by
  unfold getFreeVmrgArea
  dsimp only
  split
  · exact .refl c
  · split <;> exact c.changesOnly_setCurVma vmaid _

lemma changesOnly_carveAtBrk (c : Caller) (vmaid rgid size oldSbrk : ℤ) :
    c.ChangesOnly (c.carveAtBrk vmaid rgid size oldSbrk) [.symrgtbl rgid] := by
  have hset := c.changesOnly_setSymrg rgid ⟨ulong oldSbrk, ulong (cint (oldSbrk + size))⟩
  unfold carveAtBrk
  dsimp only
  split
  · exact hset.trans (changesOnly_enlistVmFreergList _ _)
  · exact hset

lemma changesOnly_alloc (c : Caller) (rgid size : ℤ) :
    c.ChangesOnly (c.alloc 0 rgid size).2.2 (c.allocAccesses rgid size) := by
  have hfree := c.changesOnly_getFreeVmrgArea 0 size
  unfold alloc allocAccesses allocAtBrk
  generalize c.getFreeVmrgArea 0 size = found at hfree ⊢
  obtain ⟨rg, c₁⟩ := found
  cases rg with
  | some rgnode => exact hfree.trans (changesOnly_setSymrg c₁ rgid rgnode)
  | none =>
    have hgrown := hfree.trans (c₁.changesOnly_incVmaLimit 0 (pagingPageAlignsz size))
    exact hgrown.trans (changesOnly_carveAtBrk _ 0 rgid size _)

/-! ## Accesses -/

lemma bytes_mram (c : Caller) (addr : ℤ) : c.bytes (.mram, addr) = c.mram.storage addr := rfl

/-- Swapping a page in writes the entries of both pages and the frame of the victim. -/
lemma changesOnly_pageIn (c : Caller) (pgn tgtfpn vicpgn swpfpn : ℕ) :
    c.ChangesOnly (c.pageIn pgn tgtfpn vicpgn swpfpn)
      (.pgd pgn :: .pgd vicpgn :: frameAccesses (pagingFpn (c.mm.pgd vicpgn))) where
  symrgtbl i _ := by rw [mm_pageIn]
  pgd n hn := by
    have hpgn : n ≠ pgn := by
      rintro rfl
      exact hn List.mem_cons_self
    have hvic : n ≠ vicpgn := by
      rintro rfl
      exact hn (List.mem_cons_of_mem _ List.mem_cons_self)
    rw [mm_pageIn]
    exact (Function.update_of_ne hpgn _ _).trans (Function.update_of_ne hvic _ _)
  mram addr haddr := by
    have hout : ∀ i < pagingPagesz,
        (Device.mram, addr) ≠ frameCell .mram (pagingFpn (c.mm.pgd vicpgn)) i := by
      intro i hi heq
      refine haddr (List.mem_cons_of_mem _ (List.mem_cons_of_mem _ (List.mem_map.mpr
        ⟨i, List.mem_range.mpr hi, congrArg Access.mram ?_⟩)))
      exact (congrArg Prod.snd heq).symm
    have hfirst : ((c.swapCpPage .mram (pagingFpn (c.mm.pgd vicpgn)) .activeMswp swpfpn).device
        .mram).storage = (c.device .mram).storage :=
      storage_swapCpPage_of_ne c .mram _ swpfpn (by decide)
    rw [device_mram, device_mram] at hfirst
    rw [← bytes_mram, ← bytes_mram]
    unfold pageIn
    dsimp only
    rw [bytes_withMm, bytes_setPte, bytes_setPte, bytes_swapCpPage_of_ne _ _ hout, bytes_mram,
      hfirst, bytes_mram]

lemma changesOnly_pgGetpage (c : Caller) (pgn : ℕ) :
    c.ChangesOnly (c.pgGetpage pgn).2 (c.getpageAccesses pgn) := by
  have houtcome := c.pgGetpage_outcome pgn
  generalize c.pgGetpage pgn = result at houtcome ⊢
  cases houtcome with
  | present => exact .refl c
  | noVictim => exact .refl c
  | noSwap => exact .of_eq rfl rfl rfl
  | exchange victim swpfpn list rest habsent hvictim hswap =>
    have hvic := findVictimPage_eq_some.mpr ⟨list, hvictim, rfl⟩
    have hswp := Memphy.getFreefp_eq_some.mpr ⟨rest, hswap, rfl⟩
    unfold getpageAccesses
    rw [habsent, if_neg Bool.false_ne_true, hvic]
    dsimp only
    rw [hswp]
    exact (c.changesOnly_picked list rest).trans (changesOnly_pageIn (c.picked list rest) pgn _ _ _)

/-- A byte is stored in RAM. -/
lemma changesOnly_write (c : Caller) (addr : ℤ) (data : Byte) :
    c.ChangesOnly { c with mram := (c.mram.write addr data).2 } [.mram addr] where
  symrgtbl _ _ := rfl
  pgd _ _ := rfl
  mram i hi := by
    refine storage_write_of_ne c.mram ?_ data
    rintro rfl
    exact hi List.mem_cons_self

lemma changesOnly_pgSetval (c : Caller) (addr : Word) (value : Byte) :
    c.ChangesOnly (c.pgSetval addr value).2 (c.valAccesses addr) := by
  have hpage := c.changesOnly_pgGetpage (pagingPgn addr)
  unfold pgSetval valAccesses
  dsimp only
  generalize c.pgGetpage (pagingPgn addr) = got at hpage ⊢
  obtain ⟨_ | fpn, c₁⟩ := got
  · exact hpage.mono (List.subset_append_left _ _)
  · exact hpage.trans (changesOnly_write c₁ _ value)

lemma changesOnly_pgGetval (c : Caller) (addr : Word) :
    c.ChangesOnly (c.pgGetval addr).2.2 (c.valAccesses addr) := by
  have hpage := c.changesOnly_pgGetpage (pagingPgn addr)
  unfold pgGetval valAccesses
  dsimp only
  generalize c.pgGetpage (pagingPgn addr) = got at hpage ⊢
  obtain ⟨_ | fpn, c₁⟩ := got
  · exact hpage.mono (List.subset_append_left _ _)
  · have hread : c₁.ChangesOnly
        { c₁ with mram := (c₁.mram.read (phyaddr fpn (pagingOffst addr))).2.1 } [] :=
      .of_eq rfl rfl (Memphy.storage_read _ _)
    exact (hpage.trans hread).mono (List.append_subset.mpr
      ⟨List.subset_append_left _ _, List.nil_subset _⟩)

lemma changesOnly_regionRead (c : Caller) (rgid offset : ℤ) :
    c.ChangesOnly (c.read 0 rgid offset).2.2 (c.regionAccesses rgid offset) := by
  unfold read regionAccesses
  cases c.mm.getSymrgByid rgid with
  | none => exact .refl c
  | some currg =>
    cases c.mm.getVmaByNum 0 with
    | none => exact .refl c
    | some curVma => exact (c.changesOnly_pgGetval _).mono (List.subset_cons_self _ _)

lemma changesOnly_regionWrite (c : Caller) (rgid offset : ℤ) (value : Byte) :
    c.ChangesOnly (c.write 0 rgid offset value).2 (c.regionAccesses rgid offset) := by
  unfold write regionAccesses
  cases c.mm.getSymrgByid rgid with
  | none => exact .refl c
  | some currg =>
    cases c.mm.getVmaByNum 0 with
    | none => exact .refl c
    | some curVma => exact (c.changesOnly_pgSetval _ value).mono (List.subset_cons_self _ _)

end Caller

/-! ## Instructions -/

namespace Pcb

/-- From the first process to the second, only elements of the list changed. -/
structure ChangesOnly (p p' : Pcb) (l : List Access) : Prop where
  /-- The registers. -/
  regs : ∀ i, .regs i ∉ l → p'.regs i = p.regs i
  /-- The memory. -/
  caller : p.caller.ChangesOnly p'.caller l

variable {p p' p'' : Pcb} {l l' : List Access}

namespace ChangesOnly

lemma of_caller {caller : Caller} (h : p.caller.ChangesOnly caller l) :
    p.ChangesOnly { p with caller := caller } l := ⟨fun _ _ => rfl, h⟩

/-- The TLB is not on the list. -/
lemma setTlb (h : p.ChangesOnly p' l) (tlb : Memphy) : p.ChangesOnly (p'.setTlb tlb) l :=
  ⟨h.regs, h.caller⟩

lemma mono (h : p.ChangesOnly p' l) (hsub : l ⊆ l') : p.ChangesOnly p' l' :=
  ⟨fun i hi => h.regs i fun hl => hi (hsub hl), h.caller.mono hsub⟩

lemma trans (h : p.ChangesOnly p' l) (h' : p'.ChangesOnly p'' l') :
    p.ChangesOnly p'' (l ++ l') where
  regs i hi := by
    rw [List.mem_append, not_or] at hi
    rw [h'.regs i hi.2, h.regs i hi.1]
  caller := h.caller.trans h'.caller

end ChangesOnly

lemma changesOnly_setReg (p : Pcb) (r x : Word) : p.ChangesOnly (p.setReg r x) [.regs r.toNat] where
  regs i hi := by
    have hne : i ≠ r.toNat := by
      rintro rfl
      exact hi List.mem_cons_self
    exact Function.update_of_ne hne _ _
  caller := .refl _

/-- Finding the page of an access. -/
lemma changesOnly_located {i offset : Word} {frmnum : ℤ} {c : Caller}
    (h : p.located i offset = some (frmnum, c)) :
    p.caller.ChangesOnly c (p.findAccesses i offset) := by
  have hpage := p.caller.changesOnly_pgGetpage (p.lookupPgn i offset)
  unfold located at h
  unfold findAccesses
  split at h
  · next hfetch =>
    rw [if_pos hfetch]
    split at h
    · cases h
    · next hgot =>
      obtain ⟨rfl, rfl⟩ := Prod.mk.inj (Option.some.inj h)
      rw [hgot] at hpage
      exact hpage.mono (List.subset_cons_self _ _)
  · obtain ⟨rfl, rfl⟩ := Prod.mk.inj (Option.some.inj h)
    exact .refl _

/-- The page cannot be found. -/
lemma changesOnly_not_located {i offset : Word} (h : p.located i offset = none) :
    p.caller.ChangesOnly (p.caller.pgGetpage (p.lookupPgn i offset)).2
      (p.findAccesses i offset) := by
  have hpage := p.caller.changesOnly_pgGetpage (p.lookupPgn i offset)
  unfold located at h
  unfold findAccesses
  split at h
  · next hfetch =>
    rw [if_pos hfetch]
    exact hpage.mono (List.subset_cons_self _ _)
  · cases h

lemma changesOnly_tlballoc (p : Pcb) (size regIndex : Word) :
    p.ChangesOnly (p.tlballoc size regIndex).2 (p.tlballocAccesses size regIndex) := by
  obtain ⟨tlb, htlb⟩ := p.tlballoc_eq size regIndex
  have halloc := p.caller.changesOnly_alloc regIndex.toInt size.toInt
  rw [htlb]
  refine (ChangesOnly.of_caller halloc).setTlb tlb |>.mono ?_
  unfold tlballocAccesses
  exact List.subset_append_left _ _

lemma changesOnly_tlbfreeData (p : Pcb) (regIndex : Word) :
    p.ChangesOnly (p.tlbfreeData regIndex).2 (p.tlbfreeAccesses regIndex) := by
  unfold tlbfreeData
  dsimp only
  split
  · exact .of_caller (.refl _)
  · split
    · exact .of_caller (.refl _)
    · obtain ⟨tlb, htlb⟩ := foldl_setTlb tlbfreePage_setTlb _ _
      rw [htlb]
      refine (ChangesOnly.of_caller ?_).setTlb tlb
      unfold Caller.free
      split
      · exact .refl _
      · exact (Caller.changesOnly_enlistVmFreergList _ _).mono (List.nil_subset _)

lemma changesOnly_tlbread (junk : Byte) (p : Pcb) (source offset destination : Word) :
    p.ChangesOnly (p.tlbread junk source offset destination).2
      (p.tlbreadAccesses source offset destination) := by
  rw [tlbread_located]
  unfold tlbreadAccesses
  cases hfound : p.located source offset with
  | none =>
    exact (ChangesOnly.of_caller (changesOnly_not_located hfound)).mono
      (List.subset_append_left _ _)
  | some found =>
    obtain ⟨frmnum, c⟩ := found
    have hfind : p.ChangesOnly { p with caller := c } (p.findAccesses source offset) :=
      .of_caller (changesOnly_located hfound)
    dsimp only
    unfold tlbreadFrom
    split
    · exact hfind.trans ((changesOnly_setReg _ _ _).mono (List.subset_append_right _ _))
    · have hread : ({ p with caller := c } : Pcb).ChangesOnly
          { p with caller := (c.read 0 source.toInt offset.toInt).2.2 }
          (c.regionAccesses source.toInt offset.toInt) :=
        .of_caller (c.changesOnly_regionRead _ _)
      refine hfind.trans (((hread.setTlb _).trans (changesOnly_setReg _ _ _)).mono ?_)
      refine List.append_subset.mpr ⟨?_, List.subset_append_right _ _⟩
      intro a ha
      simp only [List.mem_append, ha, true_or, or_true]

lemma changesOnly_tlbwrite (p : Pcb) (data : Byte) (destination offset : Word) :
    p.ChangesOnly (p.tlbwrite data destination offset).2
      (p.tlbwriteAccesses destination offset) := by
  rw [tlbwrite_located]
  unfold tlbwriteAccesses
  cases hfound : p.located destination offset with
  | none =>
    exact (ChangesOnly.of_caller (changesOnly_not_located hfound)).mono
      (List.subset_append_left _ _)
  | some found =>
    obtain ⟨frmnum, c⟩ := found
    have hfind : p.ChangesOnly { p with caller := c } (p.findAccesses destination offset) :=
      .of_caller (changesOnly_located hfound)
    dsimp only
    unfold tlbwriteTo
    split
    · exact hfind.trans ((ChangesOnly.of_caller (c.changesOnly_write _ data)).mono
        (List.subset_append_right _ _))
    · have hwrite : ({ p with caller := c } : Pcb).ChangesOnly
          { p with caller := (c.write 0 destination.toInt offset.toInt data).2 }
          (c.regionAccesses destination.toInt offset.toInt) :=
        .of_caller (c.changesOnly_regionWrite _ _ data)
      refine hfind.trans ((hwrite.setTlb _).mono fun a ha => ?_)
      simp only [List.mem_append, ha, true_or, or_true]

/-- What an instruction changes is on its list. -/
theorem changesOnly_run (junk : Byte) (ins : Inst) (p : Pcb) :
    p.ChangesOnly (BackEnd.tlb.run junk ins p).2 (p.accesses ins) := by
  cases ins with
  | «calc» => exact .of_caller (.refl _)
  | alloc size regIndex => exact p.changesOnly_tlballoc size regIndex
  | free regIndex => exact p.changesOnly_tlbfreeData regIndex
  | read source offset destination => exact p.changesOnly_tlbread junk source offset destination
  | write data destination offset =>
    exact p.changesOnly_tlbwrite (data.setWidth 8) destination offset

end Pcb

end Ossim
