import Ossim.Lib.Ownership
import Ossim.Paging.Faults

/-!
# Who owns a frame

A resident page records its RAM frame in bits `0 .. 12` of its entry, a swapped page its swap
frame in bits `5 .. 25`.  Frames that no page records are on the free lists of the two devices,
and a request for frames carries the ones it has gathered so far.

A page that is evicted gives its frame to the new page, and the code decodes the number of that
frame with `PAGING_FPN`, which reads other bits than `pte_set_fpn` fills.  As long as the decoded
frame is recorded by no page but the victim and is neither free nor gathered already, every frame
stays with one page; `frames_exclusive` proves this for all runs.
-/

namespace Ossim

/-! ## Recorded frames -/

/-- The RAM frame that an entry records. -/
def ramFrame (pte : Word) : Option ℕ := if pteResident pte then some (recordedFpn pte) else none

/-- The swap frame that an entry records. -/
def swapFrame (pte : Word) : Option ℕ := if pteSwapped pte then some (recordedSwpoff pte) else none

lemma ramFrame_pteSetFpn (pte : Word) {fpn : ℕ} (h : fpn < 2 ^ 13) :
    ramFrame (pteSetFpn pte fpn) = some fpn := by
  rw [ramFrame, recordedFpn_pteSetFpn, Nat.mod_eq_of_lt h]
  simp [pteResident]

lemma swapFrame_pteSetFpn (pte : Word) (fpn : ℕ) : swapFrame (pteSetFpn pte fpn) = none := by
  simp [swapFrame]

lemma ramFrame_pteSetSwap (pte : Word) (swptyp swpoff : ℕ) :
    ramFrame (pteSetSwap pte swptyp swpoff) = none := by
  simp [ramFrame, pteResident]

lemma swapFrame_pteSetSwap (pte : Word) (swptyp : ℕ) {swpoff : ℕ} (h : swpoff < 2 ^ 21) :
    swapFrame (pteSetSwap pte swptyp swpoff) = some swpoff := by
  rw [swapFrame, recordedSwpoff_pteSetSwap, Nat.mod_eq_of_lt h]
  simp

variable {Pid : Type*}

/-- What the entry of each page of each process records. -/
def MemSys.owner (record : Word → Option ℕ) (s : MemSys Pid) (a : Pid × ℕ) : Option ℕ :=
  record ((s.mm a.1).pgd a.2)

/-- Frame exclusivity: no frame is recorded by two pages, none is recorded and free. -/
structure FrameExclusive (s : MemSys Pid) : Prop where
  /-- No RAM frame is recorded by two pages. -/
  ram : ∀ a b f, s.owner ramFrame a = some f → s.owner ramFrame b = some f → a = b
  /-- No recorded RAM frame is free. -/
  ramFree : ∀ a f, s.owner ramFrame a = some f → f ∉ s.mram.freeFpList
  /-- No swap frame is recorded by two pages. -/
  swap : ∀ a b f, s.owner swapFrame a = some f → s.owner swapFrame b = some f → a = b
  /-- No recorded swap frame is free. -/
  swapFree : ∀ a f, s.owner swapFrame a = some f → f ∉ s.activeMswp.freeFpList

variable [DecidableEq Pid]

/-- Changes of a caller that leave its page table alone change no record. -/
lemma owner_put_of_pgd {s : MemSys Pid} {p : Pid} {c c' : Caller} (record : Word → Option ℕ)
    (h : c'.mm.pgd = c.mm.pgd) : (s.put p c').owner record = (s.put p c).owner record := by
  funext ⟨q, n⟩
  by_cases hq : q = p
  · subst hq
    simp [MemSys.owner, h]
  · simp [MemSys.owner, MemSys.mm_put_of_ne _ hq]

/-- A new entry changes one record. -/
lemma owner_put_of_update {s : MemSys Pid} {p : Pid} {c c' : Caller} (record : Word → Option ℕ)
    {n : ℕ} {pte : Word} (h : c'.mm.pgd = Function.update c.mm.pgd n pte) :
    (s.put p c').owner record =
      Function.update ((s.put p c).owner record) (p, n) (record pte) := by
  funext ⟨q, m⟩
  by_cases hq : q = p
  · subst hq
    by_cases hm : m = n
    · subst hm
      simp [MemSys.owner, h]
    · rw [Function.update_of_ne (by simp [hm])]
      simp [MemSys.owner, h, hm]
  · rw [Function.update_of_ne (by simp [hq])]
    simp [MemSys.owner, MemSys.mm_put_of_ne _ hq]

/-! ## Frames in transit -/

/-- The state in the middle of a call of process `p`, which has gathered the frames `frmLst`:
recorded, gathered and free frames are kept apart. -/
structure Transit (s : MemSys Pid) (p : Pid) (frmLst : List ℕ) (c : Caller) : Prop where
  /-- RAM frames. -/
  ram : Exclusive ((s.put p c).owner ramFrame) (frmLst ++ c.mram.freeFpList)
  /-- Swap frames. -/
  swap : Exclusive ((s.put p c).owner swapFrame) c.activeMswp.freeFpList
  /-- The gathered frames fit the field of an entry. -/
  bound : ∀ f ∈ frmLst, f < 2 ^ 13

/-- The condition on the eviction of a page: the frame decoded from its entry is recorded by no
other page and is neither free nor gathered, and the swap frame fits the field of an entry. -/
structure EvictOk (s : MemSys Pid) (p : Pid) (frmLst : List ℕ) (c : Caller)
    (victimPage swpfpn : ℕ) : Prop where
  /-- No other page records the decoded frame. -/
  only : ∀ a, a ≠ (p, victimPage) →
    (s.put p c).owner ramFrame a ≠ some (pagingFpn (c.mm.pgd victimPage))
  /-- The decoded frame is neither gathered nor free. -/
  fresh : pagingFpn (c.mm.pgd victimPage) ∉ frmLst ++ c.mram.freeFpList
  /-- The swap frame fits. -/
  fits : swpfpn < 2 ^ 21

/-- The condition on a request for frames: it holds for each page evicted on the way, and each
frame taken from the free list fits the field of an entry. -/
def GatherOk (s : MemSys Pid) (p : Pid) : ℕ → List ℕ → Caller → Prop
  | 0, _, _ => True
  | n + 1, frmLst, c =>
    match c.mram.getFreefp with
    | some (fpn, mram) => fpn < 2 ^ 13 ∧ GatherOk s p n (fpn :: frmLst) { c with mram := mram }
    | none =>
      match findVictimPage c.mm with
      | none => True
      | some (victimPage, mm) =>
        match c.activeMswp.getFreefp with
        | none => True
        | some (swpfpn, mswp) =>
          let c : Caller := { c with mm := mm, activeMswp := mswp }
          EvictOk s p frmLst c victimPage swpfpn ∧
            GatherOk s p n (pagingFpn (c.mm.pgd victimPage) :: frmLst)
              (c.evictPage victimPage swpfpn)

section
variable {s : MemSys Pid} {p : Pid} {frmLst : List ℕ} {c c' : Caller}

/-- A caller with the same page table and free lists is in the same state. -/
lemma Transit.congr (h : Transit s p frmLst c) (hpgd : c'.mm.pgd = c.mm.pgd)
    (hmram : c'.mram.freeFpList = c.mram.freeFpList)
    (hmswp : c'.activeMswp.freeFpList = c.activeMswp.freeFpList) : Transit s p frmLst c' where
  ram := by
    rw [owner_put_of_pgd ramFrame hpgd, hmram]
    exact h.ram
  swap := by
    rw [owner_put_of_pgd swapFrame hpgd, hmswp]
    exact h.swap
  bound := h.bound

/-- The frames gathered so far may get lost. -/
lemma Transit.drop (h : Transit s p frmLst c) {frmLst' : List ℕ} (hsub : frmLst'.Sublist frmLst) :
    Transit s p frmLst' c where
  ram := h.ram.sublist (hsub.append_right _)
  swap := h.swap
  bound f hf := h.bound f (hsub.mem hf)

/-- Gathering a free frame. -/
lemma Transit.take {fpn : ℕ} {rest : List ℕ} (h : Transit s p frmLst c)
    (hfree : c.mram.freeFpList = fpn :: rest) (hfpn : fpn < 2 ^ 13) :
    Transit s p (fpn :: frmLst) { c with mram := { c.mram with freeFpList := rest } } := by
  have hsame : ∀ record, (s.put p { c with
      mram := { c.mram with freeFpList := rest } }).owner record = (s.put p c).owner record :=
    fun record => owner_put_of_pgd record rfl
  refine ⟨?_, ?_, ?_⟩
  · have hram := h.ram
    rw [hfree] at hram
    rw [hsame]
    exact hram.perm List.perm_middle
  · rw [hsame]
    exact h.swap
  · intro f hf
    rcases List.mem_cons.mp hf with rfl | hf
    · exact hfpn
    · exact h.bound f hf

/-- Swapping a victim out: its swap frame is recorded, its decoded frame is gathered. -/
lemma Transit.evict {victim swpfpn : ℕ} {list rest : List ℕ} (h : Transit s p frmLst c)
    (hfree : c.activeMswp.freeFpList = swpfpn :: rest)
    (hok : EvictOk s p frmLst (c.picked list rest) victim swpfpn) :
    Transit s p (pagingFpn (c.mm.pgd victim) :: frmLst)
      ((c.picked list rest).evictPage victim swpfpn) := by
  have htaken : ∀ record, (s.put p (c.picked list rest)).owner record =
      (s.put p c).owner record := fun record => owner_put_of_pgd record rfl
  have hram := h.ram
  have hswap := h.swap
  rw [← htaken] at hram
  rw [← htaken, hfree] at hswap
  have hpgd := congrArg Mm.pgd (Caller.mm_evictPage (c.picked list rest) victim swpfpn)
  obtain ⟨hmram, hmswp⟩ :=
    Caller.freeFpLists_eq ((c.picked list rest).freeFpList_evictPage victim swpfpn)
  refine ⟨?_, ?_, ?_⟩
  · rw [owner_put_of_update ramFrame hpgd, ramFrame_pteSetSwap, hmram]
    exact hram.reclaim hok.only hok.fresh
  · rw [owner_put_of_update swapFrame hpgd, swapFrame_pteSetSwap _ _ hok.fits, hmswp]
    exact hswap.assign _
  · intro f hf
    rcases List.mem_cons.mp hf with rfl | hf
    · exact (pagingFpn_lt _).trans (by decide)
    · exact h.bound f hf

lemma GatherOk.of_take {n fpn : ℕ} {rest : List ℕ} (h : GatherOk s p (n + 1) frmLst c)
    (hfree : c.mram.freeFpList = fpn :: rest) :
    fpn < 2 ^ 13 ∧
      GatherOk s p n (fpn :: frmLst) { c with mram := { c.mram with freeFpList := rest } } := by
  unfold GatherOk at h
  rwa [Memphy.getFreefp_eq_some.mpr ⟨rest, hfree, rfl⟩] at h

lemma GatherOk.of_evict {n victim swpfpn : ℕ} {list rest : List ℕ}
    (h : GatherOk s p (n + 1) frmLst c) (hfree : c.mram.freeFpList = [])
    (hvictim : takeTail c.mm.fifoPgn = some (victim, list))
    (hswap : c.activeMswp.freeFpList = swpfpn :: rest) :
    EvictOk s p frmLst (c.picked list rest) victim swpfpn ∧
      GatherOk s p n (pagingFpn (c.mm.pgd victim) :: frmLst)
        ((c.picked list rest).evictPage victim swpfpn) := by
  have hvic := Caller.findVictimPage_eq_some.mpr ⟨list, hvictim, rfl⟩
  unfold GatherOk at h
  rwa [Memphy.getFreefp_eq_none.mpr hfree, hvic,
    Memphy.getFreefp_eq_some.mpr ⟨rest, hswap, rfl⟩] at h

/-- Frames that a request gathers are kept apart from all others. -/
lemma Transit.allocPagesLoop {n : ℕ} (h : Transit s p frmLst c) (hok : GatherOk s p n frmLst c) :
    Transit s p (Caller.allocPagesLoop n frmLst c).2.1 (Caller.allocPagesLoop n frmLst c).2.2 := by
  induction n generalizing frmLst c with
  | zero => exact h
  | succ n ih =>
    have hfail : ∀ c', Transit s p frmLst c' → Transit s p (c'.allocPagesFail frmLst).2.1
        (c'.allocPagesFail frmLst).2.2 := by
      intro c' h'
      unfold Caller.allocPagesFail
      split <;> exact h'.drop (List.nil_sublist _)
    have hturn := Caller.allocPagesLoop_turn n frmLst c
    generalize Caller.allocPagesLoop (n + 1) frmLst c = result at hturn ⊢
    cases hturn with
    | take fpn rest hfree =>
      obtain ⟨hfpn, hrest⟩ := hok.of_take hfree
      exact ih (h.take hfree hfpn) hrest
    | noVictim hfree hfifo => exact hfail c h
    | noSwap victim list hfree hvictim hswap =>
      exact hfail { c with mm := { c.mm with fifoPgn := list } } (h.congr rfl rfl rfl)
    | evict victim swpfpn list rest hfree hvictim hswap =>
      obtain ⟨hevict, hrest⟩ := hok.of_evict hfree hvictim hswap
      exact ih (h.evict hswap hevict) hrest

/-- Mapping the gathered frames. -/
lemma Transit.vmapPageLoop {n pgn : ℕ} (h : Transit s p frmLst c) :
    Transit s p [] { c with mm := Caller.vmapPageLoop n pgn frmLst c.mm } := by
  induction n generalizing pgn frmLst c with
  | zero => exact h.drop (List.nil_sublist _)
  | succ n ih =>
    cases frmLst with
    | nil => exact h
    | cons fpn frames =>
      have hfpn : fpn < 2 ^ 13 := h.bound fpn List.mem_cons_self
      refine ih (c := { c with
        mm := { c.mm with
          pgd := Function.update c.mm.pgd pgn (pteSetFpn (c.mm.pgd pgn) fpn)
          fifoPgn := enlistPgnNode c.mm.fifoPgn pgn } }) ⟨?_, ?_, fun f hf => ?_⟩
      · rw [owner_put_of_update ramFrame rfl, ramFrame_pteSetFpn _ hfpn]
        exact h.ram.assign _
      · rw [owner_put_of_update swapFrame rfl, swapFrame_pteSetFpn]
        exact h.swap.release _
      · exact h.bound f (List.mem_cons_of_mem _ hf)

/-- Growing the RAM mapping of a caller. -/
lemma Transit.vmMapRam {incpgnum : ℤ} (h : Transit s p [] c)
    (hok : GatherOk s p incpgnum.toNat [] c) (astart aend mapstart : ℤ) :
    Transit s p [] (c.vmMapRam astart aend mapstart incpgnum).2 := by
  have halloc := h.allocPagesLoop hok
  rcases c.vmMapRam_outcome astart aend mapstart incpgnum with ⟨-, -, heq⟩ | ⟨-, -, heq⟩
  · rw [heq]
    exact halloc.vmapPageLoop
  · rw [heq]
    exact halloc.drop (List.nil_sublist _)

/-- Growing an area. -/
lemma Transit.incVmaLimit (h : Transit s p [] c) {vmaid incSz : ℤ}
    (hok : GatherOk s p (Caller.grownPages incSz) [] (c.growArea vmaid incSz)) :
    Transit s p [] (c.incVmaLimit vmaid incSz).2 := by
  have hgrow : Transit s p [] (c.growArea vmaid incSz) :=
    h.congr (by simp [Caller.growArea]) rfl rfl
  unfold Caller.incVmaLimit
  dsimp only
  split
  · exact h
  · split <;> exact hgrow.vmMapRam hok _ _ _

/-- The condition on `__alloc`: if no free region fits, the request for the new pages meets its
condition. -/
def AllocOk (s : MemSys Pid) (p : Pid) (c : Caller) (size : ℤ) : Prop :=
  ∀ c', c.getFreeVmrgArea 0 size = (none, c') →
    GatherOk s p (Caller.grownPages (pagingPageAlignsz size)) []
      (c'.growArea 0 (pagingPageAlignsz size))

/-- An allocation keeps the frames apart. -/
lemma Transit.alloc (h : Transit s p [] c) {rgid size : ℤ} (hok : AllocOk s p c size) :
    Transit s p [] (c.alloc 0 rgid size).2.2 :=
  Caller.alloc_keeps rgid h (fun _ _ h' hpgd => h'.congr hpgd rfl rfl)
    fun c₁ hfound h₁ => h₁.incVmaLimit (hok c₁ hfound)

/-- The condition on an access to a page that is not present: the eviction it needs meets its
condition. -/
def PageInOk (s : MemSys Pid) (p : Pid) (c : Caller) (pgn : ℕ) : Prop :=
  pagingPagePresent (c.mm.pgd pgn) = false → ∀ vicpgn mm swpfpn mswp,
    findVictimPage c.mm = some (vicpgn, mm) → c.activeMswp.getFreefp = some (swpfpn, mswp) →
    EvictOk s p [] { c with mm := mm, activeMswp := mswp } vicpgn swpfpn

/-- Swapping a page in: the victim's frame goes to the new page. -/
lemma Transit.pageIn {victim swpfpn : ℕ} {list rest : List ℕ} (h : Transit s p [] c)
    (hfree : c.activeMswp.freeFpList = swpfpn :: rest)
    (hok : EvictOk s p [] (c.picked list rest) victim swpfpn) (pgn tgtfpn : ℕ) :
    Transit s p [] ((c.picked list rest).pageIn pgn tgtfpn victim swpfpn) := by
  have hevict := h.evict hfree hok
  have hfits : pagingFpn (c.mm.pgd victim) < 2 ^ 13 := (pagingFpn_lt _).trans (by decide)
  have hpgd : ((c.picked list rest).pageIn pgn tgtfpn victim swpfpn).mm.pgd =
      Function.update ((c.picked list rest).evictPage victim swpfpn).mm.pgd pgn
        (pteSetFpn (((c.picked list rest).evictPage victim swpfpn).mm.pgd pgn)
          (pagingFpn (c.mm.pgd victim))) := by
    rw [Caller.mm_pageIn, Caller.mm_evictPage]
    rfl
  obtain ⟨hmram, hmswp⟩ := Caller.freeFpLists_eq fun d =>
    ((c.picked list rest).freeFpList_pageIn pgn tgtfpn victim swpfpn d).trans
      ((c.picked list rest).freeFpList_evictPage victim swpfpn d).symm
  refine ⟨?_, ?_, fun f hf => by simp at hf⟩
  · rw [owner_put_of_update ramFrame hpgd, ramFrame_pteSetFpn _ hfits, hmram]
    exact hevict.ram.assign _
  · rw [owner_put_of_update swapFrame hpgd, swapFrame_pteSetFpn, hmswp]
    exact hevict.swap.release _

/-- Bringing a page to RAM. -/
lemma Transit.pgGetpage {pgn : ℕ} (h : Transit s p [] c) (hok : PageInOk s p c pgn) :
    Transit s p [] (c.pgGetpage pgn).2 := by
  have houtcome := c.pgGetpage_outcome pgn
  generalize c.pgGetpage pgn = result at houtcome ⊢
  cases houtcome with
  | present hpresent => exact h
  | noVictim habsent hfifo => exact h
  | noSwap victim list habsent hvictim hswap => exact h.congr rfl rfl rfl
  | exchange victim swpfpn list rest habsent hvictim hswap =>
    have hvic := Caller.findVictimPage_eq_some.mpr ⟨list, hvictim, rfl⟩
    have hswp := Memphy.getFreefp_eq_some.mpr ⟨rest, hswap, rfl⟩
    have hevict : EvictOk s p [] (c.picked list rest) victim swpfpn :=
      hok habsent victim _ swpfpn _ hvic hswp
    exact h.pageIn hswap hevict pgn (pagingSwp (c.mm.pgd pgn))

end

/-! ## Runs -/

/-- Recorded and free frames are kept apart, on both devices. -/
structure FramesApart (s : MemSys Pid) : Prop where
  /-- RAM frames. -/
  ram : Exclusive (s.owner ramFrame) s.mram.freeFpList
  /-- Swap frames. -/
  swap : Exclusive (s.owner swapFrame) s.activeMswp.freeFpList

lemma FramesApart.transit {s : MemSys Pid} (h : FramesApart s) (p : Pid) :
    Transit s p [] (s.caller p) where
  ram := by
    rw [MemSys.put_caller]
    exact h.ram
  swap := by
    rw [MemSys.put_caller]
    exact h.swap
  bound f hf := by simp at hf

lemma Transit.framesApart {s : MemSys Pid} {p : Pid} {c : Caller} (h : Transit s p [] c) :
    FramesApart (s.put p c) :=
  ⟨h.ram, h.swap⟩

omit [DecidableEq Pid] in
lemma FramesApart.frameExclusive {s : MemSys Pid} (h : FramesApart s) : FrameExclusive s :=
  ⟨h.ram.inj, h.ram.free, h.swap.inj, h.swap.free⟩

/-- The free list of a device is all its frames, once each. -/
def Memphy.AllFree (mp : Memphy) : Prop :=
  mp.freeFpList.Perm (List.range (mp.maxsz.tdiv pagingPagesz).toNat)

/-- Processes that allocate, read and write in any order, while the address spaces stay below
4 MB. -/
def frameSystem (Pid : Type*) [DecidableEq Pid] : LTS (MemSys Pid) (Pid × MemCall) where
  start s := (∀ p, ∃ mm freerg, s.mm p = initMm mm freerg) ∧ s.mram.AllFree ∧ s.activeMswp.AllFree
  step s a s' := (∀ rgid, a.2 ≠ .free rgid) ∧ s' = s.call a.1 a.2 ∧ s'.Small

/-- The condition under which every frame stays with one page. -/
def MemSys.FramesOk (s : MemSys Pid) (a : Pid × MemCall) : Prop :=
  match a.2 with
  | .alloc _ size => AllocOk s a.1 (s.caller a.1) size
  | .free _ => True
  | .read rgid offset | .write rgid offset _ =>
    ∀ addr, (s.mm a.1).target rgid offset = some addr →
      PageInOk s a.1 (s.caller a.1) (pagingPgn addr)

lemma framesApart_of_start {s : MemSys Pid} (h : (frameSystem Pid).start s) : FramesApart s := by
  obtain ⟨hmm, hmram, hmswp⟩ := h
  have hnone : ∀ record : Word → Option ℕ, record 0#32 = none →
      s.owner record = fun _ => none := by
    intro record hzero
    funext ⟨p, n⟩
    obtain ⟨mm, freerg, hp⟩ := hmm p
    simp [MemSys.owner, hp, initMm, hzero]
  refine ⟨?_, ?_⟩
  · rw [hnone ramFrame (by decide)]
    exact .of_pool (hmram.nodup_iff.mpr List.nodup_range)
  · rw [hnone swapFrame (by decide)]
    exact .of_pool (hmswp.nodup_iff.mpr List.nodup_range)

/-- Every call that meets the condition keeps the frames apart. -/
lemma FramesApart.call {s : MemSys Pid} (h : FramesApart s) (p : Pid) {k : MemCall}
    (hok : s.FramesOk (p, k)) : FramesApart (s.call p k) := by
  refine Transit.framesApart ?_
  have hp := h.transit p
  cases k with
  | alloc rgid size => exact hp.alloc hok
  | free rgid =>
    show Transit s p [] ((s.caller p).free 0 rgid).2
    unfold Caller.free
    split
    · exact hp
    · exact hp.congr (Caller.pgd_enlistVmFreergList _ _) rfl rfl
  | read rgid offset =>
    exact read_keeps hp (fun addr htarget => hp.pgGetpage (hok addr htarget))
      fun _ _ h => h.congr rfl (Memphy.freeFpList_read _ _) rfl
  | write rgid offset value =>
    exact write_keeps hp (fun addr htarget => hp.pgGetpage (hok addr htarget))
      fun _ _ h => h.congr rfl (Memphy.freeFpList_write _ _ _) rfl

/-- Every step that meets the condition keeps the frames apart. -/
lemma FramesApart.step {s s' : MemSys Pid} {a : Pid × MemCall} (h : FramesApart s)
    (ht : (frameSystem Pid).step s a s') (hok : s.FramesOk a) : FramesApart s' := by
  obtain ⟨-, rfl, -⟩ := ht
  exact h.call a.1 hok

/-- No frame is recorded twice or both recorded and free, in every run whose evictions hand over
a frame that no other page has. -/
theorem frames_exclusive {s : MemSys Pid}
    (hs : ((frameSystem Pid).restrict MemSys.FramesOk).Reachable s) : FrameExclusive s :=
  (hs.invariant_restrict (fun _ => framesApart_of_start)
    fun _ _ _ h ht hok => h.step ht hok : FramesApart s).frameExclusive

/-- With one RAM frame, the second page evicts the first one, is given its frame, and the frames
stay apart. -/
theorem frames_exclusive_eviction :
    FrameExclusive (((MemSys.fresh Unit 256 256).call () (.alloc 0 256)).call ()
      (.alloc 1 256)) := by
  have hstart : (frameSystem Unit).start (MemSys.fresh Unit 256 256) :=
    ⟨fun _ => ⟨_, _, rfl⟩, by unfold Memphy.AllFree; decide, by unfold Memphy.AllFree; decide⟩
  -- the victim has frame 0, which is what PAGING_FPN makes of its entry
  have hpgd : (((MemSys.fresh Unit 256 256).call () (.alloc 0 256)).mm ()).pgd =
      Function.update (fun _ => 0#32) 0 (pteSetFpn 0#32 0) := rfl
  refine frames_exclusive (.step (.step (.start hstart) (a := ((), .alloc 0 256))
    ⟨⟨by simp, rfl, by decide⟩, ?_⟩) (a := ((), .alloc 1 256))
    ⟨⟨by simp, rfl, by decide +kernel⟩, ?_⟩)
  · intro c' hc'
    obtain rfl : _ = c' := congrArg Prod.snd hc'
    exact ⟨by decide, trivial⟩
  · intro c' hc'
    obtain rfl : _ = c' := congrArg Prod.snd hc'
    refine ⟨⟨?_, by decide, by decide⟩, trivial⟩
    rintro ⟨⟨⟩, n⟩ hn howner
    have hzero : (((MemSys.fresh Unit 256 256).call () (.alloc 0 256)).mm ()).pgd n = 0#32 := by
      rw [hpgd, Function.update_of_ne fun h0 => hn (by rw [h0]; rfl)]
    have hnone : ramFrame 0#32 = none := by decide
    rw [← hzero] at hnone
    exact absurd (hnone.symm.trans howner) (by simp)

/-- The steps of `frameSystem` for a single process, as a partial function. -/
def MemSys.frameNext (s : MemSys Unit) (a : Unit × MemCall) : Option (MemSys Unit) :=
  match a.2 with
  | .free _ => none
  | k => if (s.call a.1 k).Small then some (s.call a.1 k) else none

lemma MemSys.step_of_frameNext (s : MemSys Unit) (a : Unit × MemCall) (s' : MemSys Unit)
    (h : s.frameNext a = some s') : (frameSystem Unit).step s a s' := by
  obtain ⟨p, k⟩ := a
  unfold MemSys.frameNext at h
  cases k <;> simp only [reduceCtorEq, Option.ite_none_right_eq_some, Option.some.injEq] at h <;>
    obtain ⟨hsmall, rfl⟩ := h <;> exact ⟨by simp, rfl, hsmall⟩

/-- With two RAM frames, the third page evicts the page with frame 1 and is given frame 0, which
the other page still records. -/
theorem frames_shared :
    ¬ ∀ s : MemSys Unit, (frameSystem Unit).Reachable s → FrameExclusive s := by
  intro h
  have hstart : (frameSystem Unit).start (MemSys.fresh Unit 512 256) :=
    ⟨fun _ => ⟨_, _, rfl⟩, by unfold Memphy.AllFree; decide, by unfold Memphy.AllFree; decide⟩
  obtain ⟨s, hs, hP⟩ := LTS.exists_reachable_of_exec (T := frameSystem Unit)
    MemSys.frameNext MemSys.step_of_frameNext
    (fun s => (s.owner ramFrame ((), 1) = some 0) && (s.owner ramFrame ((), 2) = some 0))
    [((), .alloc 0 512), ((), .alloc 1 256)] hstart (by decide +kernel)
  simp only [Bool.and_eq_true, decide_eq_true_eq] at hP
  exact absurd ((h s hs).ram _ _ 0 hP.1 hP.2) (by decide)

end Ossim
