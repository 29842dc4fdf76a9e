import Ossim.Paging.Devices
import Ossim.Paging.FrameOwnership

/-!
# What a request for frames delivers

A page that is evicted is clean if it is in RAM and `PAGING_FPN` decodes the frame that its entry
records.  While all evictions are clean, frames only change hands: the frames that are recorded,
gathered or free stay the same ones (`Kept`), so a request that succeeds delivers distinct frames of
the device that no page records, and each evicted page finds its bytes in the swap frame that its
entry names (`delivers_of_clean`).

`Kept` also says when no frame is lost: a request must not fail half-way, and the entries that it
fills must not record a frame already.
-/

namespace Ossim

/-! ## Clean evictions -/

/-- The entry of a page in RAM whose frame is decoded as it was recorded. -/
def CleanPte (pte : Word) : Prop := pteResident pte = true ∧ pagingFpn pte = recordedFpn pte

instance (pte : Word) : Decidable (CleanPte pte) := inferInstanceAs (Decidable (_ ∧ _))

lemma CleanPte.ramFrame {pte : Word} (h : CleanPte pte) : ramFrame pte = some (pagingFpn pte) := by
  unfold Ossim.ramFrame
  rw [if_pos h.1, h.2]

lemma CleanPte.swapFrame {pte : Word} (h : CleanPte pte) : swapFrame pte = none := by
  unfold Ossim.swapFrame
  simp [pteSwapped_of_resident h.1]

/-- An entry that records no frame. -/
def ClearPte (pte : Word) : Prop := ramFrame pte = none ∧ swapFrame pte = none

lemma not_resident_of_clear {pte : Word} (h : ClearPte pte) : ¬ pteResident pte = true := by
  intro hres
  have hram := h.1
  unfold ramFrame at hram
  rw [if_pos hres] at hram
  cases hram

/-- Each page that a request for `n` frames evicts is clean. -/
def GatherClean : ℕ → Caller → Prop
  | 0, _ => True
  | n + 1, c =>
    match c.mram.getFreefp with
    | some (_, mram) => GatherClean n { c with mram := mram }
    | none =>
      match findVictimPage c.mm with
      | none => True
      | some (victimPage, mm) =>
        match c.activeMswp.getFreefp with
        | none => True
        | some (swpfpn, mswp) =>
          CleanPte (c.mm.pgd victimPage) ∧
            GatherClean n ({ c with mm := mm, activeMswp := mswp }.evictPage victimPage swpfpn)

lemma GatherClean.of_take {n : ℕ} {c : Caller} {fpn : ℕ} {rest : List ℕ}
    (h : GatherClean (n + 1) c) (hfree : c.mram.freeFpList = fpn :: rest) :
    GatherClean n { c with mram := { c.mram with freeFpList := rest } } := by
  unfold GatherClean at h
  rwa [Memphy.getFreefp_eq_some.mpr ⟨rest, hfree, rfl⟩] at h

lemma GatherClean.of_evict {n : ℕ} {c : Caller} {victim swpfpn : ℕ} {list rest : List ℕ}
    (h : GatherClean (n + 1) c) (hfree : c.mram.freeFpList = [])
    (hvictim : takeTail c.mm.fifoPgn = some (victim, list))
    (hswap : c.activeMswp.freeFpList = swpfpn :: rest) :
    CleanPte (c.mm.pgd victim) ∧
      GatherClean n ((c.picked list rest).evictPage victim swpfpn) := by
  have hvic := Caller.findVictimPage_eq_some.mpr ⟨list, hvictim, rfl⟩
  unfold GatherClean at h
  rwa [Memphy.getFreefp_eq_none.mpr hfree, hvic,
    Memphy.getFreefp_eq_some.mpr ⟨rest, hswap, rfl⟩] at h

/-- Each page that an allocation evicts is clean. -/
def AllocClean (c : Caller) (size : ℤ) : Prop :=
  ∀ c', c.getFreeVmrgArea 0 size = (none, c') →
    GatherClean (Caller.grownPages (pagingPageAlignsz size))
      (c'.growArea 0 (pagingPageAlignsz size))

/-- The page that is evicted to bring in an absent page is clean. -/
def PageInClean (c : Caller) (pgn : ℕ) : Prop :=
  pagingPagePresent (c.mm.pgd pgn) = false → ∀ vicpgn mm swpfpn mswp,
    findVictimPage c.mm = some (vicpgn, mm) → c.activeMswp.getFreefp = some (swpfpn, mswp) →
    CleanPte (c.mm.pgd vicpgn)

/-- Each page that a call evicts is clean. -/
def Caller.EvictsClean (c : Caller) : MemCall → Prop
  | .alloc _ size => AllocClean c size
  | .free _ => True
  | .read rgid offset | .write rgid offset _ => ∀ addr, c.mm.target rgid offset = some addr →
    PageInClean c (pagingPgn addr)

/-! ## Stocks of frames -/

variable {Pid : Type*} [DecidableEq Pid]

/-- The RAM frames that are recorded, gathered or free while process `p` is in a call. -/
def MemSys.ramStock (s : MemSys Pid) (p : Pid) (frmLst : List ℕ) (c : Caller) : Set ℕ :=
  stock ((s.put p c).owner ramFrame) (frmLst ++ c.mram.freeFpList)

/-- The swap frames that are recorded or free. -/
def MemSys.swapStock (s : MemSys Pid) (p : Pid) (c : Caller) : Set ℕ :=
  stock ((s.put p c).owner swapFrame) c.activeMswp.freeFpList

/-- No frame is added to the stocks, and none is lost if `lossless` holds. -/
structure Kept (lossless : Prop) (s : MemSys Pid) (p : Pid) (frmLst : List ℕ) (c : Caller)
    (frmLst' : List ℕ) (c' : Caller) : Prop where
  /-- RAM frames. -/
  ram : Keeps lossless (s.ramStock p frmLst c) (s.ramStock p frmLst' c')
  /-- Swap frames. -/
  swap : Keeps lossless (s.swapStock p c) (s.swapStock p c')

/-- All frames in the stocks fit the fields of an entry. -/
structure Fitting (s : MemSys Pid) (p : Pid) (frmLst : List ℕ) (c : Caller) : Prop where
  /-- RAM frames. -/
  ram : ∀ f ∈ s.ramStock p frmLst c, f < 2 ^ 13
  /-- Swap frames. -/
  swap : ∀ f ∈ s.swapStock p c, f < 2 ^ 21

section
variable {lossless : Prop} {s : MemSys Pid} {p : Pid} {frmLst frmLst' frmLst'' : List ℕ}
  {c c' c'' : Caller}

lemma Kept.trans (h : Kept lossless s p frmLst c frmLst' c')
    (h' : Kept lossless s p frmLst' c' frmLst'' c'') : Kept lossless s p frmLst c frmLst'' c'' :=
  ⟨h.ram.trans h'.ram, h.swap.trans h'.swap⟩

/-- The same page table and free lists. -/
lemma Kept.congr (hpgd : c'.mm.pgd = c.mm.pgd) (hmram : c'.mram.freeFpList = c.mram.freeFpList)
    (hmswp : c'.activeMswp.freeFpList = c.activeMswp.freeFpList) :
    Kept lossless s p frmLst c frmLst c' := by
  refine ⟨.of_eq ?_, .of_eq ?_⟩
  · unfold MemSys.ramStock
    rw [owner_put_of_pgd ramFrame hpgd, hmram]
  · unfold MemSys.swapStock
    rw [owner_put_of_pgd swapFrame hpgd, hmswp]

lemma Kept.refl (c : Caller) : Kept lossless s p frmLst c frmLst c := .congr rfl rfl rfl

lemma Fitting.of_kept (h : Fitting s p frmLst c) (hkept : Kept lossless s p frmLst c frmLst' c') :
    Fitting s p frmLst' c' :=
  ⟨fun f hf => h.ram f (hkept.ram.sound hf), fun f hf => h.swap f (hkept.swap.sound hf)⟩

/-- A free frame of RAM fits. -/
lemma Fitting.ram_of_free (h : Fitting s p frmLst c) {fpn : ℕ} {rest : List ℕ}
    (hfree : c.mram.freeFpList = fpn :: rest) : fpn < 2 ^ 13 := by
  refine h.ram fpn (.inl (List.mem_append_right _ ?_))
  rw [hfree]
  exact List.mem_cons_self

/-- A free frame of swap fits. -/
lemma Fitting.swap_of_free (h : Fitting s p frmLst c) {swpfpn : ℕ} {rest : List ℕ}
    (hswap : c.activeMswp.freeFpList = swpfpn :: rest) : swpfpn < 2 ^ 21 := by
  refine h.swap swpfpn (.inl ?_)
  rw [hswap]
  exact List.mem_cons_self

/-- Gathering a free frame. -/
lemma Kept.take {fpn : ℕ} {rest : List ℕ} (hfree : c.mram.freeFpList = fpn :: rest) :
    Kept lossless s p frmLst c (fpn :: frmLst)
      { c with mram := { c.mram with freeFpList := rest } } := by
  have hsame : ∀ record, (s.put p { c with
      mram := { c.mram with freeFpList := rest } }).owner record = (s.put p c).owner record :=
    fun record => owner_put_of_pgd record rfl
  refine ⟨?_, .of_eq ?_⟩
  · unfold MemSys.ramStock
    rw [hsame, hfree]
    exact .perm List.perm_middle
  · unfold MemSys.swapStock
    rw [hsame]

/-- The gathered frames get lost. -/
lemma Kept.drop (c : Caller) (hnone : lossless → frmLst = []) :
    Kept lossless s p frmLst c [] c :=
  ⟨.sublist (List.sublist_append_right _ _) fun hl => by rw [hnone hl], .refl _⟩

/-- Swapping out a clean page. -/
lemma Kept.evict {victim swpfpn : ℕ} {list rest : List ℕ}
    (hswap : c.activeMswp.freeFpList = swpfpn :: rest) (hfits : swpfpn < 2 ^ 21)
    (hclean : CleanPte (c.mm.pgd victim)) :
    Kept lossless s p frmLst c (pagingFpn (c.mm.pgd victim) :: frmLst)
      ((c.picked list rest).evictPage victim swpfpn) := by
  have hpgd : ((c.picked list rest).evictPage victim swpfpn).mm.pgd =
      Function.update c.mm.pgd victim (pteSetSwap (c.mm.pgd victim) 0 swpfpn) := by
    rw [Caller.mm_evictPage]
    rfl
  obtain ⟨hmram, hmswp⟩ :=
    Caller.freeFpLists_eq ((c.picked list rest).freeFpList_evictPage victim swpfpn)
  refine ⟨?_, ?_⟩
  · unfold MemSys.ramStock
    rw [owner_put_of_update ramFrame hpgd, ramFrame_pteSetSwap, hmram]
    refine Keeps.reclaim ?_
    rw [MemSys.owner, MemSys.mm_put_self, hclean.ramFrame]
  · unfold MemSys.swapStock
    rw [owner_put_of_update swapFrame hpgd, swapFrame_pteSetSwap _ _ hfits, hmswp, hswap]
    refine Keeps.assign fun _ => ?_
    rw [MemSys.owner, MemSys.mm_put_self, hclean.swapFrame]

/-- Recording a gathered frame in an entry; nothing is lost if the entry recorded none. -/
lemma Kept.assign {fpn pgn : ℕ}
    (hpgd : c'.mm.pgd = Function.update c.mm.pgd pgn (pteSetFpn (c.mm.pgd pgn) fpn))
    (hmram : c'.mram.freeFpList = c.mram.freeFpList)
    (hmswp : c'.activeMswp.freeFpList = c.activeMswp.freeFpList) (hfpn : fpn < 2 ^ 13)
    (hclear : lossless → ClearPte (c.mm.pgd pgn)) :
    Kept lossless s p (fpn :: frmLst) c frmLst c' := by
  refine ⟨?_, ?_⟩
  · unfold MemSys.ramStock
    rw [owner_put_of_update ramFrame hpgd, ramFrame_pteSetFpn _ hfpn, hmram]
    refine Keeps.assign fun hl => ?_
    rw [MemSys.owner, MemSys.mm_put_self]
    exact (hclear hl).1
  · unfold MemSys.swapStock
    rw [owner_put_of_update swapFrame hpgd, swapFrame_pteSetFpn, hmswp]
    refine Keeps.release fun hl => ?_
    rw [MemSys.owner, MemSys.mm_put_self]
    exact (hclear hl).2

/-- A clean eviction hands over a frame that no other page has. -/
lemma evictOk_of_clean {victim swpfpn : ℕ} {list rest : List ℕ} (h : Transit s p frmLst c)
    (hfits : swpfpn < 2 ^ 21) (hclean : CleanPte (c.mm.pgd victim)) :
    EvictOk s p frmLst (c.picked list rest) victim swpfpn := by
  have hsame : (s.put p (c.picked list rest)).owner ramFrame = (s.put p c).owner ramFrame :=
    owner_put_of_pgd ramFrame rfl
  have hheld : (s.put p c).owner ramFrame (p, victim) = some (pagingFpn (c.mm.pgd victim)) := by
    rw [MemSys.owner, MemSys.mm_put_self, hclean.ramFrame]
  refine ⟨fun a ha hshared => ?_, h.ram.free _ _ hheld, hfits⟩
  rw [hsame] at hshared
  exact ha (h.ram.inj _ _ _ hshared hheld)

/-- A request whose evictions are clean meets the condition under which frames stay apart. -/
lemma gatherOk_of_clean {n : ℕ} (h : Transit s p frmLst c) (hfit : Fitting s p frmLst c)
    (hclean : GatherClean n c) : GatherOk s p n frmLst c := by
  induction n generalizing frmLst c with
  | zero => trivial
  | succ n ih =>
    unfold GatherClean at hclean
    unfold GatherOk
    cases hget : c.mram.getFreefp with
    | some found =>
      obtain ⟨fpn, mram⟩ := found
      obtain ⟨rest, hfree, rfl⟩ := Memphy.getFreefp_eq_some.mp hget
      rw [hget] at hclean
      have hfpn := hfit.ram_of_free hfree
      have htaken : Kept False s p frmLst c (fpn :: frmLst)
          { c with mram := { c.mram with freeFpList := rest } } := .take hfree
      exact ⟨hfpn, ih (h.take hfree hfpn) (hfit.of_kept htaken) hclean⟩
    | none =>
      rw [hget] at hclean
      cases hvic : findVictimPage c.mm with
      | none => trivial
      | some found =>
        obtain ⟨victim, mm⟩ := found
        obtain ⟨list, -, rfl⟩ := Caller.findVictimPage_eq_some.mp hvic
        rw [hvic] at hclean
        dsimp only at hclean ⊢
        cases hswp : c.activeMswp.getFreefp with
        | none => trivial
        | some found =>
          obtain ⟨swpfpn, mswp⟩ := found
          obtain ⟨rest, hswap, rfl⟩ := Memphy.getFreefp_eq_some.mp hswp
          rw [hswp] at hclean
          obtain ⟨hpte, hclean⟩ := hclean
          have hfits := hfit.swap_of_free hswap
          have hevict : EvictOk s p frmLst (c.picked list rest) victim swpfpn :=
            evictOk_of_clean h hfits hpte
          have hevicted : Kept False s p frmLst c (pagingFpn (c.mm.pgd victim) :: frmLst)
              ((c.picked list rest).evictPage victim swpfpn) := .evict hswap hfits hpte
          have hrest := ih (h.evict hswap hevict) (hfit.of_kept hevicted) hclean
          exact ⟨hevict, hrest⟩

/-- A request that fails drops what it has gathered. -/
lemma Kept.allocPagesFail (hkept : Kept lossless s p frmLst c frmLst c')
    (hnone : lossless → frmLst = []) :
    Kept lossless s p frmLst c (c'.allocPagesFail frmLst).2.1 (c'.allocPagesFail frmLst).2.2 := by
  unfold Caller.allocPagesFail
  split
  · next hnil => exact hnil ▸ hkept
  · exact hkept.trans (.drop c' hnone)

/-- A request whose evictions are clean keeps the stocks.  Nothing is lost if it does not fail, or
fails at once. -/
lemma Kept.allocPagesLoop {n : ℕ} (hfit : Fitting s p frmLst c) (hclean : GatherClean n c)
    (hsupply : lossless → n ≤ c.supply ∨ c.supply = 0 ∧ frmLst = []) :
    Kept lossless s p frmLst c (Caller.allocPagesLoop n frmLst c).2.1
      (Caller.allocPagesLoop n frmLst c).2.2 := by
  induction n generalizing frmLst c with
  | zero => exact .refl c
  | succ n ih =>
    have hturn := Caller.allocPagesLoop_turn n frmLst c
    generalize Caller.allocPagesLoop (n + 1) frmLst c = result at hturn ⊢
    cases hturn with
    | take fpn rest hfree =>
      have hsame := Caller.supply_take hfree
      have htaken : Kept lossless s p frmLst c (fpn :: frmLst)
          { c with mram := { c.mram with freeFpList := rest } } := .take hfree
      refine htaken.trans (ih (hfit.of_kept htaken) (hclean.of_take hfree) fun hl => .inl ?_)
      have hle := hsupply hl
      omega
    | noVictim hfree hfifo =>
      have hzero : c.supply = 0 := by simp [Caller.supply, hfree, hfifo]
      exact (Kept.refl c).allocPagesFail fun hl =>
        (hsupply hl).elim (fun hle => by omega) And.right
    | noSwap victim list hfree hvictim hswap =>
      have hzero : c.supply = 0 := by simp [Caller.supply, hfree, hswap]
      have hsame : Kept lossless s p frmLst c frmLst
          { c with mm := { c.mm with fifoPgn := list } } := .congr rfl rfl rfl
      exact hsame.allocPagesFail fun hl => (hsupply hl).elim (fun hle => by omega) And.right
    | evict victim swpfpn list rest hfree hvictim hswap =>
      obtain ⟨hpte, hclean⟩ := hclean.of_evict hfree hvictim hswap
      have hsame := Caller.supply_evict hvictim hswap
      have hevicted : Kept lossless s p frmLst c (pagingFpn (c.mm.pgd victim) :: frmLst)
          ((c.picked list rest).evictPage victim swpfpn) :=
        .evict hswap (hfit.swap_of_free hswap) hpte
      refine hevicted.trans (ih (hfit.of_kept hevicted) hclean fun hl => .inl ?_)
      have hle := hsupply hl
      omega

/-! ## Mapping the frames -/

/-- An eviction changes entries of pages in RAM only. -/
lemma entry_of_clean (frmLst : List ℕ) {n : ℕ} (hclean : GatherClean n c) (m : ℕ) :
    (Caller.allocPagesLoop n frmLst c).2.2.mm.pgd m = c.mm.pgd m ∨
      pteResident (c.mm.pgd m) = true := by
  induction n generalizing frmLst c with
  | zero => exact .inl rfl
  | succ n ih =>
    have hturn := Caller.allocPagesLoop_turn n frmLst c
    generalize Caller.allocPagesLoop (n + 1) frmLst c = result at hturn ⊢
    cases hturn with
    | take fpn rest hfree => exact ih _ (hclean.of_take hfree)
    | noVictim hfree hfifo => exact .inl (by rw [Caller.allocPagesFail_caller])
    | noSwap victim list hfree hvictim hswap => exact .inl (by rw [Caller.allocPagesFail_caller])
    | evict victim swpfpn list rest hfree hvictim hswap =>
      obtain ⟨hpte, hclean⟩ := hclean.of_evict hfree hvictim hswap
      by_cases hm : m = victim
      · exact .inr (hm ▸ hpte.1)
      · have hsame : ((c.picked list rest).evictPage victim swpfpn).mm.pgd m = c.mm.pgd m := by
          rw [Caller.mm_evictPage]
          exact Function.update_of_ne hm _ _
        rw [← hsame]
        exact ih _ hclean

/-- Recording the gathered frames in entries; nothing is lost if there are as many of them as frames
and they record nothing. -/
lemma Kept.vmapPageLoop {n pgn : ℕ} (hfit : ∀ f ∈ frmLst, f < 2 ^ 13)
    (hlen : lossless → frmLst.length = n)
    (hclear : lossless → ∀ m, pgn ≤ m → m < pgn + n → ClearPte (c.mm.pgd m)) :
    Kept lossless s p frmLst c [] { c with mm := Caller.vmapPageLoop n pgn frmLst c.mm } := by
  induction n generalizing pgn frmLst c with
  | zero => exact .drop c fun hl => List.length_eq_zero_iff.mp (hlen hl)
  | succ n ih =>
    cases frmLst with
    | nil => exact .refl c
    | cons fpn frames =>
      have hfpn : fpn < 2 ^ 13 := hfit fpn List.mem_cons_self
      have hfirst : Kept lossless s p (fpn :: frames) c frames { c with
          mm := { c.mm with
            pgd := Function.update c.mm.pgd pgn (pteSetFpn (c.mm.pgd pgn) fpn)
            fifoPgn := enlistPgnNode c.mm.fifoPgn pgn } } :=
        .assign rfl rfl rfl hfpn fun hl => hclear hl pgn le_rfl (by omega)
      refine hfirst.trans (ih (fun f hf => hfit f (List.mem_cons_of_mem _ hf))
        (fun hl => by simpa using hlen hl) fun hl m hlo hhi => ?_)
      have hne : m ≠ pgn := by omega
      dsimp only
      rw [Function.update_of_ne hne]
      exact hclear hl m (by omega) (by omega)

/-- Mapping `n` pages from page `pgn` loses nothing: there are no frames for any, or there are
enough for all and the entries record nothing. -/
def MapLossless (c : Caller) (pgn n : ℕ) : Prop :=
  c.supply = 0 ∨ n ≤ c.supply ∧ ∀ m, pgn ≤ m → m < pgn + n → ClearPte (c.mm.pgd m)

/-- Growing the RAM mapping. -/
lemma Kept.vmMapRam {incpgnum mapstart : ℤ} (hfit : Fitting s p [] c)
    (hclean : GatherClean incpgnum.toNat c)
    (hmap : lossless → MapLossless c (pagingPgn (BitVec.ofInt 32 mapstart)) incpgnum.toNat)
    (astart aend : ℤ) :
    Kept lossless s p [] c [] (c.vmMapRam astart aend mapstart incpgnum).2 := by
  have hkept : Kept lossless s p [] c (Caller.allocPagesLoop incpgnum.toNat [] c).2.1
      (Caller.allocPagesLoop incpgnum.toNat [] c).2.2 :=
    .allocPagesLoop hfit hclean fun hl => (hmap hl).symm.imp And.left fun hzero => ⟨hzero, rfl⟩
  have hgathered : ∀ f ∈ (Caller.allocPagesLoop incpgnum.toNat [] c).2.1, f < 2 ^ 13 :=
    fun f hf => (hfit.of_kept hkept).ram f (.inl (List.mem_append_left _ hf))
  have hentry := entry_of_clean [] hclean
  rcases c.vmMapRam_outcome astart aend mapstart incpgnum with
    ⟨hle, hlen, heq⟩ | ⟨-, hnil, heq⟩
  · rw [heq]
    refine hkept.trans (Kept.vmapPageLoop hgathered (fun _ => hlen) fun hl m hlo hhi => ?_)
    have hcl : ClearPte (c.mm.pgd m) := by
      rcases hmap hl with hzero | ⟨-, hclear⟩
      · omega
      · exact hclear m hlo hhi
    rcases hentry m with heq | hres
    · rwa [heq]
    · exact absurd hres (not_resident_of_clear hcl)
  · rw [hnil] at hkept
    rw [heq]
    exact hkept

/-- Storing into an area keeps the resident list. -/
lemma fifoPgn_setCurVma (mm : Mm) (vmaid : ℤ) (vma : VmArea) :
    (mm.setCurVma vmaid vma).fifoPgn = mm.fifoPgn := by
  unfold Mm.setCurVma
  split <;> rfl

/-- Growing an area. -/
lemma Kept.incVmaLimit {incSz : ℤ} (hfit : Fitting s p [] c)
    (hclean : GatherClean (Caller.grownPages incSz) (c.growArea 0 incSz))
    (hmap : lossless →
      MapLossless c (Caller.firstGrownPage (c.mm.curVma 0)) (Caller.grownPages incSz)) :
    Kept lossless s p [] c [] (c.incVmaLimit 0 incSz).2 := by
  have hpgd : (c.growArea 0 incSz).mm.pgd = c.mm.pgd := by simp [Caller.growArea]
  have hkept : Kept lossless s p [] c [] (c.growArea 0 incSz) := .congr hpgd rfl rfl
  have hsame : (c.growArea 0 incSz).supply = c.supply := by
    simp only [Caller.supply, Caller.growArea, fifoPgn_setCurVma]
  have hgrown : lossless → MapLossless (c.growArea 0 incSz)
      (Caller.firstGrownPage (c.mm.curVma 0)) (Caller.grownPages incSz) := by
    intro hl
    unfold MapLossless
    rw [hsame, hpgd]
    exact hmap hl
  have hmapped : ∀ astart aend, Kept lossless s p [] (c.growArea 0 incSz) []
      ((c.growArea 0 incSz).vmMapRam astart aend (cint (c.mm.curVma 0).vmEnd)
        ((pagingPageAlignsz incSz).tdiv pagingPagesz)).2 :=
    Kept.vmMapRam (hfit.of_kept hkept) hclean hgrown
  unfold Caller.incVmaLimit
  dsimp only
  split
  · exact .refl c
  · split <;> exact hkept.trans (hmapped _ _)

end

/-- Nothing is lost by an allocation: if no free region fits, mapping the new pages loses nothing.
-/
def AllocLossless (c : Caller) (size : ℤ) : Prop :=
  ∀ c', c.getFreeVmrgArea 0 size = (none, c') →
    MapLossless c' (Caller.firstGrownPage (c'.mm.curVma 0))
      (Caller.grownPages (pagingPageAlignsz size))

/-- Nothing is lost by bringing in a page: the entry of an absent page records nothing. -/
def PageInLossless (c : Caller) (pgn : ℕ) : Prop :=
  pagingPagePresent (c.mm.pgd pgn) = false → ClearPte (c.mm.pgd pgn)

/-- A call loses no frame. -/
def Caller.Lossless (c : Caller) : MemCall → Prop
  | .alloc _ size => AllocLossless c size
  | .free _ => True
  | .read rgid offset | .write rgid offset _ => ∀ addr, c.mm.target rgid offset = some addr →
    PageInLossless c (pagingPgn addr)

section
variable {lossless : Prop} {s : MemSys Pid} {p : Pid} {c : Caller}

/-- An allocation whose evictions are clean meets the condition under which frames stay apart. -/
lemma allocOk_of_clean {size : ℤ} (h : Transit s p [] c) (hfit : Fitting s p [] c)
    (hclean : AllocClean c size) : AllocOk s p c size := by
  intro c' hc'
  obtain ⟨mm, hfree, hpgd⟩ := c.getFreeVmrgArea_frame 0 size
  have hclean := hclean c' hc'
  rw [hc'] at hfree
  dsimp only at hfree
  have hgrown : (c'.growArea 0 (pagingPageAlignsz size)).mm.pgd = c.mm.pgd := by
    simp [Caller.growArea, hfree, hpgd]
  have hram : (c'.growArea 0 (pagingPageAlignsz size)).mram = c.mram := by
    simp [Caller.growArea, hfree]
  have hswap : (c'.growArea 0 (pagingPageAlignsz size)).activeMswp = c.activeMswp := by
    simp [Caller.growArea, hfree]
  have hkept : Kept False s p [] c [] (c'.growArea 0 (pagingPageAlignsz size)) :=
    .congr hgrown (by rw [hram]) (by rw [hswap])
  have htransit : Transit s p [] (c'.growArea 0 (pagingPageAlignsz size)) :=
    h.congr hgrown (by rw [hram]) (by rw [hswap])
  exact gatherOk_of_clean htransit (hfit.of_kept hkept) hclean

/-- An allocation whose evictions are clean keeps the stocks. -/
lemma Kept.alloc {size : ℤ} (hfit : Fitting s p [] c) (hclean : AllocClean c size)
    (hl : lossless → AllocLossless c size) (rgid : ℤ) :
    Kept lossless s p [] c [] (c.alloc 0 rgid size).2.2 := by
  refine Caller.alloc_keeps rgid (.refl c) (fun _ _ h hpgd => ?_) fun c₁ hfound hkept => ?_
  · exact h.trans (.congr hpgd rfl rfl)
  · refine hkept.trans (.incVmaLimit (hfit.of_kept hkept) (hclean c₁ hfound) fun hl' => ?_)
    exact hl hl' c₁ hfound

/-- Bringing in a page by a clean eviction meets the condition under which frames stay apart. -/
lemma pageInOk_of_clean {pgn : ℕ} (h : Transit s p [] c) (hfit : Fitting s p [] c)
    (hclean : PageInClean c pgn) : PageInOk s p c pgn := by
  intro habsent vicpgn mm swpfpn mswp hvic hswp
  have hpte := hclean habsent vicpgn mm swpfpn mswp hvic hswp
  obtain ⟨list, -, rfl⟩ := Caller.findVictimPage_eq_some.mp hvic
  obtain ⟨rest, hswap, rfl⟩ := Memphy.getFreefp_eq_some.mp hswp
  exact evictOk_of_clean h (hfit.swap_of_free hswap) hpte

/-- The victim's frame goes to the new page. -/
lemma Kept.pageIn {pgn vicpgn swpfpn : ℕ} {list rest : List ℕ}
    (hswap : c.activeMswp.freeFpList = swpfpn :: rest) (hfits : swpfpn < 2 ^ 21)
    (hpte : CleanPte (c.mm.pgd vicpgn)) (habsent : pagingPagePresent (c.mm.pgd pgn) = false)
    (hclear : lossless → ClearPte (c.mm.pgd pgn)) (tgtfpn : ℕ) :
    Kept lossless s p [] c [] ((c.picked list rest).pageIn pgn tgtfpn vicpgn swpfpn) := by
  have hne : pgn ≠ vicpgn := by
    rintro rfl
    have hpresent := (Bool.and_eq_true_iff.mp hpte.1).1
    rw [habsent] at hpresent
    cases hpresent
  have hout : ((c.picked list rest).evictPage vicpgn swpfpn).mm.pgd pgn = c.mm.pgd pgn := by
    rw [Caller.mm_evictPage]
    exact Function.update_of_ne hne _ _
  have hpgd : ((c.picked list rest).pageIn pgn tgtfpn vicpgn swpfpn).mm.pgd =
      Function.update ((c.picked list rest).evictPage vicpgn swpfpn).mm.pgd pgn
        (pteSetFpn (((c.picked list rest).evictPage vicpgn swpfpn).mm.pgd pgn)
          (pagingFpn (c.mm.pgd vicpgn))) := by
    rw [Caller.mm_pageIn, Caller.mm_evictPage]
    rfl
  obtain ⟨hmram, hmswp⟩ := Caller.freeFpLists_eq fun d =>
    ((c.picked list rest).freeFpList_pageIn pgn tgtfpn vicpgn swpfpn d).trans
      ((c.picked list rest).freeFpList_evictPage vicpgn swpfpn d).symm
  have hfpn : pagingFpn (c.mm.pgd vicpgn) < 2 ^ 13 := (pagingFpn_lt _).trans (by decide)
  have hin : Kept lossless s p (pagingFpn (c.mm.pgd vicpgn) :: [])
      ((c.picked list rest).evictPage vicpgn swpfpn) []
      ((c.picked list rest).pageIn pgn tgtfpn vicpgn swpfpn) :=
    .assign hpgd hmram hmswp hfpn fun hl => hout ▸ hclear hl
  exact (Kept.evict hswap hfits hpte).trans hin

/-- Bringing in a page by a clean eviction keeps the stocks. -/
lemma Kept.pgGetpage {pgn : ℕ} (hfit : Fitting s p [] c) (hclean : PageInClean c pgn)
    (hl : lossless → PageInLossless c pgn) :
    Kept lossless s p [] c [] (c.pgGetpage pgn).2 := by
  have houtcome := c.pgGetpage_outcome pgn
  generalize c.pgGetpage pgn = result at houtcome ⊢
  cases houtcome with
  | present hpresent => exact .refl c
  | noVictim habsent hfifo => exact .refl c
  | noSwap victim list habsent hvictim hswap => exact .congr rfl rfl rfl
  | exchange victim swpfpn list rest habsent hvictim hswap =>
    have hvic := Caller.findVictimPage_eq_some.mpr ⟨list, hvictim, rfl⟩
    have hswp := Memphy.getFreefp_eq_some.mpr ⟨rest, hswap, rfl⟩
    have hpte := hclean habsent victim _ swpfpn _ hvic hswp
    exact .pageIn hswap (hfit.swap_of_free hswap) hpte habsent (fun hl' => hl hl' habsent)
      (pagingSwp (c.mm.pgd pgn))

/-- A call whose evictions are clean meets the condition under which frames stay apart. -/
lemma framesOk_of_clean {k : MemCall} (h : FramesApart s) (hfit : Fitting s p [] (s.caller p))
    (hclean : (s.caller p).EvictsClean k) : s.FramesOk (p, k) := by
  have hp := h.transit p
  cases k with
  | alloc rgid size => exact allocOk_of_clean hp hfit hclean
  | free rgid => trivial
  | read rgid offset | write rgid offset value =>
    exact fun addr htarget => pageInOk_of_clean hp hfit (hclean addr htarget)

/-- A call whose evictions are clean keeps the stocks. -/
lemma Kept.run {k : MemCall} (hfit : Fitting s p [] c) (hclean : c.EvictsClean k)
    (hl : lossless → c.Lossless k) : Kept lossless s p [] c [] (k.run c).2.2 := by
  cases k with
  | alloc rgid size => exact .alloc hfit hclean hl rgid
  | free rgid =>
    show Kept lossless s p [] c [] (c.free 0 rgid).2
    unfold Caller.free
    split
    · exact .refl _
    · exact .congr (Caller.pgd_enlistVmFreergList _ _) rfl rfl
  | read rgid offset =>
    refine read_keeps (.refl c) (fun addr htarget => ?_) fun _ _ h => ?_
    · exact .pgGetpage hfit (hclean addr htarget) fun hl' => hl hl' addr htarget
    · exact h.trans (.congr rfl (Memphy.freeFpList_read _ _) rfl)
  | write rgid offset value =>
    refine write_keeps (.refl c) (fun addr htarget => ?_) fun _ _ h => ?_
    · exact .pgGetpage hfit (hclean addr htarget) fun hl' => hl hl' addr htarget
    · exact h.trans (.congr rfl (Memphy.freeFpList_write _ _ _) rfl)

end

/-! ## Bytes of evicted pages -/

/-- Between `c` and `c'` pages were swapped out, and each of them has its bytes in the swap frame
that its entry names. -/
structure Saved (c c' : Caller) : Prop where
  /-- No byte of RAM was written. -/
  storage : c'.mram.storage = c.mram.storage
  /-- An entry is as it was, or its page was in RAM and is swapped out. -/
  entry : ∀ m, c'.mm.pgd m = c.mm.pgd m ∨
    pteResident (c.mm.pgd m) = true ∧ pteSwapped (c'.mm.pgd m) = true ∧
      ∀ i < pagingPagesz,
        c'.activeMswp.storage (Caller.phyaddr (recordedSwpoff (c'.mm.pgd m)) i) =
          c.mram.storage (Caller.phyaddr (recordedFpn (c.mm.pgd m)) i)

section
variable {s : MemSys Pid} {p : Pid} {frmLst : List ℕ} {c₀ c : Caller}

/-- Another page is swapped out: it is copied to a swap frame that no other page has. -/
lemma Saved.evict {victim swpfpn : ℕ} {list rest : List ℕ} (h : Saved c₀ c)
    (htransit : Transit s p frmLst c) (hrdm : ∀ d, (c.geometry d).2 = true)
    (hswap : c.activeMswp.freeFpList = swpfpn :: rest) (hfits : swpfpn < 2 ^ 21)
    (hpte : CleanPte (c.mm.pgd victim)) :
    Saved c₀ ((c.picked list rest).evictPage victim swpfpn) := by
  have hpgd : ((c.picked list rest).evictPage victim swpfpn).mm.pgd =
      Function.update c.mm.pgd victim (pteSetSwap (c.mm.pgd victim) 0 swpfpn) := by
    rw [Caller.mm_evictPage]
    rfl
  have hmswp : ((c.picked list rest).evictPage victim swpfpn).activeMswp =
      ((c.picked list rest).swapCpPage .mram (pagingFpn (c.mm.pgd victim)) .activeMswp
        swpfpn).device .activeMswp := by
    simp only [Caller.evictPage, Caller.setPte, Caller.device, Caller.picked]
  have hmramRdm : ((c.picked list rest).device .mram).rdmflg = true := hrdm .mram
  have hmswpRdm : ((c.picked list rest).device .activeMswp).rdmflg = true := hrdm .activeMswp
  have hremaps : Caller.Remaps 0 0 (c.picked list rest)
      ((c.picked list rest).evictPage victim swpfpn) := Caller.remaps_evictPage _ _ _
  refine ⟨hremaps.storage.trans h.storage, fun m => ?_⟩
  rw [hpgd, hmswp]
  by_cases hm : m = victim
  · -- the page that is swapped out now was not swapped out before
    subst hm
    have hsame : c.mm.pgd m = c₀.mm.pgd m := by
      rcases h.entry m with heq | ⟨-, hout, -⟩
      · exact heq
      · rw [pteSwapped_of_resident hpte.1] at hout
        cases hout
    rw [Function.update_self]
    refine .inr ⟨hsame ▸ hpte.1, pteSwapped_pteSetSwap _ _ _, fun i hi => ?_⟩
    rw [recordedSwpoff_pteSetSwap, Nat.mod_eq_of_lt hfits, ← hsame, ← hpte.2]
    exact (Caller.storage_swapCpPage hmramRdm hmswpRdm _ _ hi).trans (congrFun h.storage _)
  · rw [Function.update_of_ne hm]
    rcases h.entry m with hsame | ⟨hres, hout, hbytes⟩
    · exact .inl hsame
    refine .inr ⟨hres, hout, fun i hi => ?_⟩
    have hheld : (s.put p c).owner swapFrame (p, m) = some (recordedSwpoff (c.mm.pgd m)) := by
      rw [MemSys.owner, MemSys.mm_put_self, swapFrame, if_pos hout]
    have hne : recordedSwpoff (c.mm.pgd m) ≠ swpfpn := by
      have hfree := htransit.swap.free _ _ hheld
      rw [hswap] at hfree
      exact (List.ne_and_not_mem_of_not_mem_cons hfree).1
    exact (Caller.storage_swapCpPage_of_frame_ne hmramRdm hmswpRdm _ hne hi).trans (hbytes i hi)

/-- A request whose evictions are clean saves the bytes of the evicted pages. -/
lemma saved_of_clean {n : ℕ} (h : Saved c₀ c) (htransit : Transit s p frmLst c)
    (hfit : Fitting s p frmLst c) (hrdm : ∀ d, (c.geometry d).2 = true)
    (hclean : GatherClean n c) : Saved c₀ (Caller.allocPagesLoop n frmLst c).2.2 := by
  induction n generalizing frmLst c with
  | zero => exact h
  | succ n ih =>
    have hturn := Caller.allocPagesLoop_turn n frmLst c
    generalize Caller.allocPagesLoop (n + 1) frmLst c = result at hturn ⊢
    cases hturn with
    | take fpn rest hfree =>
      have hfpn := hfit.ram_of_free hfree
      have htaken : Kept False s p frmLst c (fpn :: frmLst)
          { c with mram := { c.mram with freeFpList := rest } } := .take hfree
      exact ih ⟨h.storage, h.entry⟩ (htransit.take hfree hfpn)
        (hfit.of_kept htaken)
        (by rwa [Caller.geometry_taken])
        (hclean.of_take hfree)
    | noVictim hfree hfifo =>
      rw [Caller.allocPagesFail_caller]
      exact h
    | noSwap victim list hfree hvictim hswap =>
      rw [Caller.allocPagesFail_caller]
      exact ⟨h.storage, h.entry⟩
    | evict victim swpfpn list rest hfree hvictim hswap =>
      obtain ⟨hpte, hclean⟩ := hclean.of_evict hfree hvictim hswap
      have hfits := hfit.swap_of_free hswap
      have hevict : EvictOk s p frmLst (c.picked list rest) victim swpfpn :=
        evictOk_of_clean htransit hfits hpte
      have hkept : Kept False s p frmLst c (pagingFpn (c.mm.pgd victim) :: frmLst)
          ((c.picked list rest).evictPage victim swpfpn) := .evict hswap hfits hpte
      refine ih (h.evict htransit hrdm hswap hfits hpte) (htransit.evict hswap hevict)
        (hfit.of_kept hkept) ?_ hclean
      rwa [Caller.geometry_evictPage, Caller.geometry_picked]

end

/-! ## Runs -/

/-- The number of frames of a device. -/
def Memphy.numfp (mp : Memphy) : ℕ := (mp.maxsz.tdiv pagingPagesz).toNat

/-- All frames are free and fit the fields of an entry, and swap is in random access mode, as `main`
sets it up. -/
structure MemSys.WellSized (s : MemSys Pid) : Prop where
  /-- The free list of RAM is complete. -/
  ramFree : s.mram.AllFree
  /-- The free list of swap is complete. -/
  swapFree : s.activeMswp.AllFree
  /-- RAM has at most `2 ^ 13` frames. -/
  ramSize : s.mram.numfp ≤ 2 ^ 13
  /-- Swap has at most `2 ^ 21` frames. -/
  swapSize : s.activeMswp.numfp ≤ 2 ^ 21
  /-- Random access. -/
  random : s.activeMswp.rdmflg = true

/-- The frames are where they should be: apart, on their devices, and small enough. -/
structure MemSys.FramesKept (s : MemSys Pid) : Prop where
  /-- No frame is in two places. -/
  apart : FramesApart s
  /-- RAM frames are frames of RAM. -/
  ram : ∀ f ∈ stock (s.owner ramFrame) s.mram.freeFpList, f < s.mram.numfp
  /-- Swap frames are frames of swap. -/
  swap : ∀ f ∈ stock (s.owner swapFrame) s.activeMswp.freeFpList, f < s.activeMswp.numfp
  /-- RAM has at most `2 ^ 13` frames. -/
  ramSize : s.mram.numfp ≤ 2 ^ 13
  /-- Swap has at most `2 ^ 21` frames. -/
  swapSize : s.activeMswp.numfp ≤ 2 ^ 21
  /-- Both devices are in random access mode. -/
  random : s.mram.rdmflg = true ∧ s.activeMswp.rdmflg = true

section
variable {s : MemSys Pid}

omit [DecidableEq Pid] in
/-- Nobody records a frame at the start. -/
lemma stock_of_initial (h : s.Initial) {record : Word → Option ℕ} (hzero : record 0#32 = none)
    {pool : List ℕ} {f : ℕ} (hf : f ∈ stock (s.owner record) pool) : f ∈ pool := by
  rcases hf with hf | ⟨⟨p, n⟩, hf⟩
  · exact hf
  · obtain ⟨mm, freerg, hmm⟩ := h.mm p
    simp [MemSys.owner, hmm, initMm, hzero] at hf

lemma Memphy.AllFree.lt_numfp {mp : Memphy} (h : mp.AllFree) {f : ℕ} (hf : f ∈ mp.freeFpList) :
    f < mp.numfp :=
  List.mem_range.mp (h.mem_iff.mp hf)

lemma framesKept_of_initial (h : s.Initial) (hsized : s.WellSized) : s.FramesKept where
  apart := framesApart_of_start ⟨h.mm, hsized.ramFree, hsized.swapFree⟩
  ram f hf := hsized.ramFree.lt_numfp (stock_of_initial h (by decide) hf)
  swap f hf := hsized.swapFree.lt_numfp (stock_of_initial h (by decide) hf)
  ramSize := hsized.ramSize
  swapSize := hsized.swapSize
  random := by
    obtain ⟨mp, tail, maxSize, hmram⟩ := h.mram
    exact ⟨by rw [hmram, Memphy.rdmflg_initMemphy], hsized.random⟩

lemma MemSys.FramesKept.fitting (h : s.FramesKept) (p : Pid) : Fitting s p [] (s.caller p) := by
  refine ⟨fun f hf => ?_, fun f hf => ?_⟩
  · unfold MemSys.ramStock at hf
    rw [MemSys.put_caller] at hf
    exact (h.ram f hf).trans_le h.ramSize
  · unfold MemSys.swapStock at hf
    rw [MemSys.put_caller] at hf
    exact (h.swap f hf).trans_le h.swapSize

/-- Frames that change hands, on devices of the same sizes and modes, are where they should be. -/
lemma MemSys.FramesKept.of_kept {lossless : Prop} (h : s.FramesKept) {p : Pid} {c : Caller}
    (hapart : FramesApart (s.put p c)) (hkept : Kept lossless s p [] (s.caller p) [] c)
    (hgeometry : c.geometry = (s.caller p).geometry) : (s.put p c).FramesKept := by
  obtain ⟨hramSize, hramRandom⟩ := Prod.mk.inj (congrFun hgeometry .mram)
  obtain ⟨hswapSize, hswapRandom⟩ := Prod.mk.inj (congrFun hgeometry .activeMswp)
  have hram : (s.put p c).mram.numfp = s.mram.numfp :=
    congrArg (fun maxsz => (maxsz.tdiv (pagingPagesz : ℤ)).toNat) hramSize
  have hswap : (s.put p c).activeMswp.numfp = s.activeMswp.numfp :=
    congrArg (fun maxsz => (maxsz.tdiv (pagingPagesz : ℤ)).toNat) hswapSize
  refine ⟨hapart, fun f hf => ?_, fun f hf => ?_, by rw [hram]; exact h.ramSize,
    by rw [hswap]; exact h.swapSize, hramRandom.trans h.random.1, hswapRandom.trans h.random.2⟩
  · have hbefore := hkept.ram.sound hf
    unfold MemSys.ramStock at hbefore
    rw [MemSys.put_caller] at hbefore
    rw [hram]
    exact h.ram f hbefore
  · have hbefore := hkept.swap.sound hf
    unfold MemSys.swapStock at hbefore
    rw [MemSys.put_caller] at hbefore
    rw [hswap]
    exact h.swap f hbefore

/-- A call whose evictions are clean keeps the frames where they should be. -/
lemma MemSys.FramesKept.call (h : s.FramesKept) (p : Pid) {k : MemCall}
    (hclean : (s.caller p).EvictsClean k) : (s.call p k).FramesKept := by
  have hapart := h.apart.call p (framesOk_of_clean h.apart (h.fitting p) hclean)
  have hkept : Kept False s p [] (s.caller p) [] (k.run (s.caller p)).2.2 :=
    .run (h.fitting p) hclean False.elim
  exact h.of_kept hapart hkept (k.geometry_run (s.caller p))

end

/-! ## What a request delivers -/

/-- What a request for `n` frames by process `p` promises, with its status, its frames and the
caller it leaves behind. -/
structure MemSys.Delivers (s : MemSys Pid) (p : Pid) (n : ℕ) (result : ℤ × List ℕ × Caller) :
    Prop where
  /-- As many frames as requested. -/
  length : result.2.1.length = n
  /-- They are distinct. -/
  nodup : result.2.1.Nodup
  /-- They are frames of RAM. -/
  bound : ∀ f ∈ result.2.1, (f : ℤ) < s.mram.maxsz.tdiv pagingPagesz
  /-- No page in RAM records one of them. -/
  unrecorded : ∀ a, ∀ f ∈ result.2.1, (s.put p result.2.2).owner ramFrame a ≠ some f
  /-- Each page that was evicted has its bytes in the swap frame that its entry names. -/
  saved : ∀ m, pteResident ((s.mm p).pgd m) = true → pteSwapped (result.2.2.mm.pgd m) = true →
    ∀ i < pagingPagesz,
      result.2.2.activeMswp.storage
          (Caller.phyaddr (recordedSwpoff (result.2.2.mm.pgd m)) i) =
        s.mram.storage (Caller.phyaddr (recordedFpn ((s.mm p).pgd m)) i)

/-- A request that succeeds keeps its promises, in every state reached by calls whose evictions were
clean, if its own evictions are clean. -/
theorem delivers_of_clean {s : MemSys Pid}
    (hs : (((callSystem Pid).startIn MemSys.WellSized).restrict
      fun s a => (s.caller a.1).EvictsClean a.2).Reachable s) (p : Pid) (n : ℕ)
    (hclean : GatherClean n (s.caller p))
    (hstatus : ((s.caller p).allocPagesRange n []).1 = 0) :
    s.Delivers p n ((s.caller p).allocPagesRange n []) := by
  have h : s.FramesKept := by
    refine hs.invariant_restrict (I := MemSys.FramesKept)
      (fun s (h : s.Initial ∧ s.WellSized) => framesKept_of_initial h.1 h.2)
      fun s a s' h ht hok => ?_
    obtain rfl : s' = s.call a.1 a.2 := ht
    exact h.call a.1 hok
  have hfit := h.fitting p
  have htransit := h.apart.transit p
  have hkept : Kept False s p [] (s.caller p) (Caller.allocPagesLoop n [] (s.caller p)).2.1
      (Caller.allocPagesLoop n [] (s.caller p)).2.2 := .allocPagesLoop hfit hclean False.elim
  have hafter := htransit.allocPagesLoop (gatherOk_of_clean htransit hfit hclean)
  have hrdm : ∀ d, ((s.caller p).geometry d).2 = true := fun d => by
    cases d <;> [exact h.random.1; exact h.random.2]
  have hrefl : Saved (s.caller p) (s.caller p) := ⟨rfl, fun m => .inl rfl⟩
  have hsaved := saved_of_clean hrefl htransit hfit hrdm hclean
  unfold Caller.allocPagesRange at hstatus ⊢
  rw [Int.toNat_natCast] at hstatus ⊢
  rcases Caller.allocPagesLoop_status n [] (s.caller p) with ⟨-, -, hlen⟩ | ⟨-, hfailed, -⟩
  · generalize Caller.allocPagesLoop n [] (s.caller p) = result at *
    refine ⟨by simpa using hlen, (List.nodup_append.mp hafter.ram.nodup).1, fun f hf => ?_,
      fun a f hf hheld => ?_, fun m hres hout => ?_⟩
    · have hbefore := hkept.ram.sound (.inl (List.mem_append_left _ hf))
      unfold MemSys.ramStock at hbefore
      rw [MemSys.put_caller] at hbefore
      have hlt := h.ram f hbefore
      unfold Memphy.numfp at hlt
      omega
    · exact hafter.ram.free a f hheld (List.mem_append_left _ hf)
    · rcases hsaved.entry m with hsame | ⟨-, -, hbytes⟩
      · have hbefore : pteSwapped ((s.caller p).mm.pgd m) = false := pteSwapped_of_resident hres
        rw [hsame, hbefore] at hout
        cases hout
      · exact hbytes
  · rcases hfailed with hfailed | hfailed <;> rw [hfailed] at hstatus <;>
      exact absurd hstatus (by decide)

/-- A RAM of one frame is full after one page: the next page is delivered by evicting the first. -/
theorem delivers_second_page :
    ((MemSys.fresh Unit 256 512).call () (.alloc 0 256)).Delivers () 1
      ((((MemSys.fresh Unit 256 512).call () (.alloc 0 256)).caller ()).allocPagesRange 1 []) := by
  have hsized : (MemSys.fresh Unit 256 512).WellSized :=
    ⟨by unfold Memphy.AllFree; decide, by unfold Memphy.AllFree; decide, by decide, by decide, rfl⟩
  have hstart : ((callSystem Unit).startIn MemSys.WellSized).start (MemSys.fresh Unit 256 512) :=
    ⟨MemSys.initial_fresh 256 512, hsized⟩
  have hfirst : ((MemSys.fresh Unit 256 512).caller ()).EvictsClean (.alloc 0 256) := by
    intro c' hc'
    obtain rfl : _ = c' := congrArg Prod.snd hc'
    exact trivial
  exact delivers_of_clean (.step (.start hstart) (a := ((), .alloc 0 256)) ⟨rfl, hfirst⟩) () 1
    ⟨by decide, trivial⟩ (by decide)

/-- With two frames of RAM in use, the next request evicts page 0, which records frame 1, and
delivers frame 0, which page 1 still records. -/
theorem not_delivers : ¬ ∀ s : MemSys Unit, (callSystem Unit).Reachable s → ∀ p, ∀ n : ℕ,
    ((s.caller p).allocPagesRange n []).1 = 0 →
      s.Delivers p n ((s.caller p).allocPagesRange n []) := by
  intro h
  have hs : (callSystem Unit).Reachable ((MemSys.fresh Unit 512 256).call () (.alloc 0 512)) :=
    .step (.start (MemSys.initial_fresh 512 256)) (a := ((), .alloc 0 512)) rfl
  exact (h _ hs () 1 (by decide)).unrecorded ((), 1) 0 (by decide +kernel) (by decide +kernel)

end Ossim
