import Ossim.Paging.Vm
import Mathlib.Data.List.Basic

/-!
# What the paging functions leave alone

One lemma for each function, saying which parts of its caller it does not touch and how the page
table may differ afterwards.  Later proofs cite these lemmas and do not unfold the functions.

The relation `Remaps lo hi c c'` collects what a request for frames and the mapping of the pages
`lo .. hi - 1` may do to their caller: entries of evicted pages become swapped, entries in the
range change, nothing is written to RAM.  `AllocEffect` says what a whole `__alloc` may do to a
process with a single area.
-/

namespace Ossim

/-- A loop whose body keeps a value keeps it. -/
lemma foldl_keeps {α β γ : Type*} {f : β → α → β} (g : β → γ) (h : ∀ b a, g (f b a) = g b)
    (l : List α) (b : β) : g (l.foldl f b) = g b := by
  induction l generalizing b with
  | nil => rfl
  | cons a l ih => rw [List.foldl_cons, ih, h]

namespace Caller

/-! ## Devices -/

@[simp] lemma mm_setDevice (c : Caller) (d : Device) (mp : Memphy) :
    (c.setDevice d mp).mm = c.mm := by
  cases d <;> rfl

lemma device_mram (c : Caller) : c.device .mram = c.mram := rfl

@[simp] lemma device_setDevice_self (c : Caller) (d : Device) (mp : Memphy) :
    (c.setDevice d mp).device d = mp := by
  cases d <;> rfl

lemma device_setDevice_of_ne (c : Caller) {d e : Device} (h : e ≠ d) (mp : Memphy) :
    (c.setDevice d mp).device e = c.device e := by
  cases d <;> cases e <;> first | rfl | exact absurd rfl h

@[simp] lemma setPte_mram (c : Caller) (pgn : ℕ) (pte : Word) :
    (c.setPte pgn pte).mram = c.mram := rfl

@[simp] lemma setPte_activeMswp (c : Caller) (pgn : ℕ) (pte : Word) :
    (c.setPte pgn pte).activeMswp = c.activeMswp := rfl

/-! ## Copying a page -/

@[simp] lemma mm_swapCpCell (c : Caller) (src : Device) (srcfpn : ℕ) (dst : Device)
    (dstfpn i : ℕ) : (c.swapCpCell src srcfpn dst dstfpn i).mm = c.mm := by
  simp [swapCpCell]

/-- What neither a device read nor a device write changes is not changed by copying a byte. -/
lemma swapCpCell_keeps {γ : Type*} (g : Memphy → γ) (hr : ∀ mp addr, g (mp.read addr).2.1 = g mp)
    (hw : ∀ mp addr data, g (mp.write addr data).2 = g mp) (c : Caller) (src : Device)
    (srcfpn : ℕ) (dst : Device) (dstfpn i : ℕ) (d : Device) :
    g ((c.swapCpCell src srcfpn dst dstfpn i).device d) = g (c.device d) := by
  have hread : ∀ mp addr e, g ((c.setDevice src (mp.read addr).2.1).device e) =
      if e = src then g mp else g (c.device e) := by
    intro mp addr e
    split
    · subst e
      rw [device_setDevice_self, hr]
    · rw [device_setDevice_of_ne _ ‹_›]
  unfold swapCpCell
  by_cases hdst : d = dst
  · subst hdst
    rw [device_setDevice_self, hw, hread]
    split <;> simp_all
  · rw [device_setDevice_of_ne _ hdst, hread]
    split <;> simp_all

/-- A copied byte is stored in the destination device only. -/
lemma storage_swapCpCell_of_ne (c : Caller) (src : Device) (srcfpn : ℕ) {dst d : Device}
    (dstfpn i : ℕ) (h : d ≠ dst) :
    ((c.swapCpCell src srcfpn dst dstfpn i).device d).storage = (c.device d).storage := by
  unfold swapCpCell
  rw [device_setDevice_of_ne _ h]
  by_cases hsrc : d = src
  · subst hsrc
    rw [device_setDevice_self, Memphy.storage_read]
  · rw [device_setDevice_of_ne _ hsrc]

@[simp] lemma mm_swapCpPage (c : Caller) (src : Device) (srcfpn : ℕ) (dst : Device)
    (dstfpn : ℕ) : (c.swapCpPage src srcfpn dst dstfpn).mm = c.mm :=
  foldl_keeps Caller.mm (fun c i => c.mm_swapCpCell src srcfpn dst dstfpn i) _ c

lemma freeFpList_swapCpPage (c : Caller) (src : Device) (srcfpn : ℕ) (dst : Device)
    (dstfpn : ℕ) (d : Device) :
    ((c.swapCpPage src srcfpn dst dstfpn).device d).freeFpList = (c.device d).freeFpList :=
  foldl_keeps (fun c => (c.device d).freeFpList) (fun c i => swapCpCell_keeps Memphy.freeFpList
    Memphy.freeFpList_read Memphy.freeFpList_write c src srcfpn dst dstfpn i d) _ c

lemma rdmflg_swapCpPage (c : Caller) (src : Device) (srcfpn : ℕ) (dst : Device)
    (dstfpn : ℕ) (d : Device) :
    ((c.swapCpPage src srcfpn dst dstfpn).device d).rdmflg = (c.device d).rdmflg :=
  foldl_keeps (fun c => (c.device d).rdmflg) (fun c i => swapCpCell_keeps Memphy.rdmflg
    Memphy.rdmflg_read Memphy.rdmflg_write c src srcfpn dst dstfpn i d) _ c

/-- Copying a page writes to the destination device only. -/
lemma storage_swapCpPage_of_ne (c : Caller) (src : Device) (srcfpn : ℕ) {dst d : Device}
    (dstfpn : ℕ) (h : d ≠ dst) :
    ((c.swapCpPage src srcfpn dst dstfpn).device d).storage = (c.device d).storage :=
  foldl_keeps (fun c => (c.device d).storage)
    (fun c i => c.storage_swapCpCell_of_ne src srcfpn dstfpn i h) _ c

/-! ## Gathering frames and mapping pages -/

/-- What evicting pages and mapping the pages `lo .. hi - 1` may do to a caller: RAM contents,
areas and symbols stay, and an entry outside the range stays or becomes swapped. -/
structure Remaps (lo hi : ℕ) (c c' : Caller) : Prop where
  /-- No byte of RAM is written. -/
  storage : c'.mram.storage = c.mram.storage
  /-- The access mode of RAM stays. -/
  rdmflg : c'.mram.rdmflg = c.mram.rdmflg
  /-- The areas stay. -/
  mmap : c'.mm.mmap = c.mm.mmap
  /-- The symbols stay. -/
  symrgtbl : c'.mm.symrgtbl = c.mm.symrgtbl
  /-- An entry outside the range stays or becomes swapped. -/
  pgd : ∀ n, c'.mm.pgd n = c.mm.pgd n ∨ pteSwapped (c'.mm.pgd n) = true ∨ lo ≤ n ∧ n < hi

variable {lo hi : ℕ}

/-- Changes of the resident list and of the free lists. -/
lemma Remaps.of_lists (c : Caller) (fifoPgn freeFpList : List ℕ) (mswp : Memphy) :
    Remaps lo hi c ⟨{ c.mm with fifoPgn := fifoPgn }, { c.mram with freeFpList := freeFpList },
      mswp⟩ where
  storage := rfl
  rdmflg := rfl
  mmap := rfl
  symrgtbl := rfl
  pgd _ := .inl rfl

lemma Remaps.refl (c : Caller) : Remaps lo hi c c :=
  .of_lists c c.mm.fifoPgn c.mram.freeFpList c.activeMswp

lemma Remaps.trans {c c' c'' : Caller} (h : Remaps lo hi c c') (h' : Remaps lo hi c' c'') :
    Remaps lo hi c c'' where
  storage := h'.storage.trans h.storage
  rdmflg := h'.rdmflg.trans h.rdmflg
  mmap := h'.mmap.trans h.mmap
  symrgtbl := h'.symrgtbl.trans h.symrgtbl
  pgd n := by
    rcases h'.pgd n with hn | hn
    · rw [hn]
      exact h.pgd n
    · exact .inr hn

lemma takeTail_concat (list : List ℕ) (pg : ℕ) : takeTail (list ++ [pg]) = some (pg, list) := by
  induction list with
  | nil => rfl
  | cons next rest ih =>
    cases rest with
    | nil => rfl
    | cons _ _ =>
      rw [List.cons_append, List.cons_append, takeTail, ← List.cons_append, ih]
      rfl

lemma takeTail_eq_none {l : List ℕ} : takeTail l = none ↔ l = [] := by
  rcases List.eq_nil_or_concat' l with rfl | ⟨list, pg, rfl⟩
  · simp [takeTail]
  · simp [takeTail_concat]

/-- The walk takes the last page off. -/
lemma takeTail_eq_some {l list : List ℕ} {victim : ℕ} :
    takeTail l = some (victim, list) ↔ l = list ++ [victim] := by
  constructor
  · intro h
    rcases List.eq_nil_or_concat' l with rfl | ⟨front, pg, rfl⟩
    · cases h
    · rw [takeTail_concat] at h
      obtain ⟨rfl, rfl⟩ := Prod.mk.inj (Option.some.inj h)
      rfl
  · rintro rfl
    exact takeTail_concat list victim

lemma findVictimPage_eq_none {mm : Mm} : findVictimPage mm = none ↔ mm.fifoPgn = [] :=
  Option.map_eq_none_iff.trans takeTail_eq_none

/-- Taking a victim changes the resident list only. -/
lemma findVictimPage_eq_some {mm mm' : Mm} {victim : ℕ} :
    findVictimPage mm = some (victim, mm') ↔
      ∃ list, takeTail mm.fifoPgn = some (victim, list) ∧ mm' = { mm with fifoPgn := list } := by
  refine Option.map_eq_some_iff.trans ⟨?_, ?_⟩
  · rintro ⟨⟨v, list⟩, hv, heq⟩
    obtain ⟨rfl, rfl⟩ := Prod.mk.inj heq
    exact ⟨list, hv, rfl⟩
  · rintro ⟨list, hv, rfl⟩
    exact ⟨(victim, list), hv, rfl⟩

/-- The devices do not depend on the memory management structure. -/
lemma device_withMm (c : Caller) (mm : Mm) (d : Device) :
    { c with mm := mm }.device d = c.device d := by
  cases d <;> rfl

@[simp] lemma device_setPte (c : Caller) (pgn : ℕ) (pte : Word) (d : Device) :
    (c.setPte pgn pte).device d = c.device d :=
  c.device_withMm _ d

/-- Swapping a page out takes no frame off the free lists. -/
lemma freeFpList_evictPage (c : Caller) (victimPage swpfpn : ℕ) (d : Device) :
    ((c.evictPage victimPage swpfpn).device d).freeFpList = (c.device d).freeFpList := by
  simp only [evictPage, device_setPte, freeFpList_swapCpPage]

/-- What holds of the free list of either device holds of both. -/
lemma freeFpLists_eq {c c' : Caller}
    (h : ∀ d, (c'.device d).freeFpList = (c.device d).freeFpList) :
    c'.mram.freeFpList = c.mram.freeFpList ∧ c'.activeMswp.freeFpList = c.activeMswp.freeFpList :=
  ⟨h .mram, h .activeMswp⟩

/-- The RAM device after a page was swapped out. -/
lemma mram_evictPage (c : Caller) (victimPage swpfpn : ℕ) :
    (c.evictPage victimPage swpfpn).mram =
      (c.swapCpPage .mram (pagingFpn (c.mm.pgd victimPage)) .activeMswp swpfpn).device .mram := by
  simp only [evictPage, setPte, device]

/-- The memory management structure after a page was swapped out. -/
lemma mm_evictPage (c : Caller) (victimPage swpfpn : ℕ) :
    (c.evictPage victimPage swpfpn).mm =
      { c.mm with
        pgd := Function.update c.mm.pgd victimPage
          (pteSetSwap (c.mm.pgd victimPage) 0 swpfpn) } := by
  simp only [evictPage, setPte, mm_swapCpPage]

/-- Swapping one page out copies it to swap and marks its entry. -/
lemma remaps_evictPage (c : Caller) (victimPage swpfpn : ℕ) :
    Remaps lo hi c (c.evictPage victimPage swpfpn) where
  storage := by
    rw [mram_evictPage, storage_swapCpPage_of_ne _ _ _ _ (by decide)]
    rfl
  rdmflg := by
    rw [mram_evictPage, rdmflg_swapCpPage]
    rfl
  mmap := by rw [mm_evictPage]
  symrgtbl := by rw [mm_evictPage]
  pgd n := by
    rw [mm_evictPage]
    by_cases hn : n = victimPage
    · subst hn
      exact .inr (.inl (by simp))
    · exact .inl (by simp [hn])

/-- The memory management structure after a page was swapped in. -/
lemma mm_pageIn (c : Caller) (pgn tgtfpn vicpgn swpfpn : ℕ) :
    (c.pageIn pgn tgtfpn vicpgn swpfpn).mm =
      { c.mm with
        pgd := Function.update
          (Function.update c.mm.pgd vicpgn (pteSetSwap (c.mm.pgd vicpgn) 0 swpfpn)) pgn
          (pteSetFpn (Function.update c.mm.pgd vicpgn
            (pteSetSwap (c.mm.pgd vicpgn) 0 swpfpn) pgn) (pagingFpn (c.mm.pgd vicpgn)))
        fifoPgn := enlistPgnNode c.mm.fifoPgn pgn } := by
  simp only [pageIn, setPte, mm_swapCpPage]

/-- Swapping a page in takes no frame off the free lists. -/
lemma freeFpList_pageIn (c : Caller) (pgn tgtfpn vicpgn swpfpn : ℕ) (d : Device) :
    ((c.pageIn pgn tgtfpn vicpgn swpfpn).device d).freeFpList = (c.device d).freeFpList := by
  simp only [pageIn, device_withMm, device_setPte, freeFpList_swapCpPage]

/-- Swapping a page in keeps the access modes. -/
lemma rdmflg_pageIn (c : Caller) (pgn tgtfpn vicpgn swpfpn : ℕ) (d : Device) :
    ((c.pageIn pgn tgtfpn vicpgn swpfpn).device d).rdmflg = (c.device d).rdmflg := by
  simp only [pageIn, device_withMm, device_setPte, rdmflg_swapCpPage]

@[simp] lemma allocPagesFail_caller (c : Caller) (frmLst : List ℕ) :
    (c.allocPagesFail frmLst).2.2 = c := by
  unfold allocPagesFail
  split <;> rfl

/-- The frames of a request come from the free list or from evicted pages. -/
lemma remaps_allocPagesLoop (n : ℕ) (frmLst : List ℕ) (c : Caller) :
    Remaps lo hi c (allocPagesLoop n frmLst c).2.2 := by
  induction n generalizing frmLst c with
  | zero => exact Remaps.refl c
  | succ n ih =>
    unfold allocPagesLoop
    split
    · next fpn mram hget =>
      obtain ⟨fpNext, -, rfl⟩ := Memphy.getFreefp_eq_some.mp hget
      have hfirst : Remaps lo hi c { c with mram := { c.mram with freeFpList := fpNext } } :=
        .of_lists c c.mm.fifoPgn fpNext c.activeMswp
      exact hfirst.trans (ih _ _)
    · split
      · rw [allocPagesFail_caller]
        exact Remaps.refl c
      · next victim mm hvic =>
        obtain ⟨list, -, rfl⟩ := findVictimPage_eq_some.mp hvic
        split
        · rw [allocPagesFail_caller]
          exact .of_lists c list c.mram.freeFpList c.activeMswp
        · next swpfpn mswp hget =>
          have htake : Remaps lo hi c
              { c with mm := { c.mm with fifoPgn := list }, activeMswp := mswp } :=
            .of_lists c list c.mram.freeFpList mswp
          exact (htake.trans (remaps_evictPage _ victim swpfpn)).trans (ih _ _)

/-- Mapping pages leaves the areas, the symbols and the entries outside the range alone. -/
lemma vmapPageLoop_frame (n pgn : ℕ) (frames : List ℕ) (mm : Mm) :
    (vmapPageLoop n pgn frames mm).mmap = mm.mmap ∧
    (vmapPageLoop n pgn frames mm).symrgtbl = mm.symrgtbl ∧
    ∀ m, m < pgn ∨ pgn + n ≤ m → (vmapPageLoop n pgn frames mm).pgd m = mm.pgd m := by
  induction n generalizing pgn frames mm with
  | zero => exact ⟨rfl, rfl, fun _ _ => rfl⟩
  | succ n ih =>
    cases frames with
    | nil => exact ⟨rfl, rfl, fun _ _ => rfl⟩
    | cons fpn frames =>
      obtain ⟨hmmap, hsym, hpgd⟩ := ih (pgn + 1) frames
        { mm with
          pgd := Function.update mm.pgd pgn (pteSetFpn (mm.pgd pgn) fpn)
          fifoPgn := enlistPgnNode mm.fifoPgn pgn }
      refine ⟨hmmap, hsym, fun m hm => ?_⟩
      have hne : m ≠ pgn := by omega
      exact (hpgd m (by omega)).trans (Function.update_of_ne hne _ _)

/-- Growing the RAM mapping of a caller. -/
lemma remaps_vmMapRam (c : Caller) (astart aend mapstart incpgnum : ℤ) :
    Remaps (pagingPgn (BitVec.ofInt 32 mapstart))
      (pagingPgn (BitVec.ofInt 32 mapstart) + incpgnum.toNat) c
      (c.vmMapRam astart aend mapstart incpgnum).2 := by
  unfold vmMapRam allocPagesRange
  have halloc : Remaps (pagingPgn (BitVec.ofInt 32 mapstart))
      (pagingPgn (BitVec.ofInt 32 mapstart) + incpgnum.toNat) c
      (allocPagesLoop incpgnum.toNat [] c).2.2 := remaps_allocPagesLoop _ _ _
  generalize allocPagesLoop incpgnum.toNat [] c = alloc at halloc ⊢
  obtain ⟨ret, frmLst, c₁⟩ := alloc
  dsimp only at halloc ⊢
  split
  · exact halloc
  · split
    · exact halloc
    · obtain ⟨hmmap, hsym, hpgd⟩ := vmapPageLoop_frame incpgnum.toNat
        (pagingPgn (BitVec.ofInt 32 mapstart)) frmLst c₁.mm
      refine halloc.trans ⟨rfl, rfl, hmmap, hsym, fun n => ?_⟩
      by_cases hn : n < pagingPgn (BitVec.ofInt 32 mapstart) ∨
          pagingPgn (BitVec.ofInt 32 mapstart) + incpgnum.toNat ≤ n
      · exact .inl (hpgd n hn)
      · exact .inr (.inr (by omega))

/-! ## Functions that leave the page table alone -/

@[simp] lemma pgd_setCurVma (mm : Mm) (vmaid : ℤ) (vma : VmArea) :
    (mm.setCurVma vmaid vma).pgd = mm.pgd := by
  unfold Mm.setCurVma
  split <;> rfl

@[simp] lemma pgd_enlistVmFreergList (mm : Mm) (rg : VmRg) :
    (mm.enlistVmFreergList rg).pgd = mm.pgd := by
  unfold Mm.enlistVmFreergList
  split
  · rfl
  · split <;> rfl

/-- Searching the free list of an area leaves the page table and the devices alone. -/
lemma getFreeVmrgArea_frame (c : Caller) (vmaid size : ℤ) :
    ∃ mm, (c.getFreeVmrgArea vmaid size).2 = { c with mm := mm } ∧ mm.pgd = c.mm.pgd := by
  unfold getFreeVmrgArea
  dsimp only
  split
  · exact ⟨c.mm, rfl, rfl⟩
  · next newrg list _ =>
    refine ⟨c.mm.setCurVma vmaid { c.mm.curVma vmaid with vmFreergList := list }, ?_, by simp⟩
    split <;> rfl

/-- Cutting out a region leaves the page table and the devices alone. -/
lemma carveAtBrk_frame (c : Caller) (vmaid rgid size oldSbrk : ℤ) :
    ∃ mm, c.carveAtBrk vmaid rgid size oldSbrk = { c with mm := mm } ∧ mm.pgd = c.mm.pgd := by
  unfold carveAtBrk
  dsimp only
  split
  · exact ⟨_, rfl, by rw [pgd_enlistVmFreergList]; rfl⟩
  · exact ⟨_, rfl, rfl⟩

/-- What the growth keeps that follows a search without a result, and what a change of the areas
and symbols keeps, `__alloc` keeps. -/
lemma alloc_keeps {P : Caller → Prop} {c : Caller} {vmaid size : ℤ} (rgid : ℤ) (hc : P c)
    (hmm : ∀ c mm, P c → mm.pgd = c.mm.pgd → P { c with mm := mm })
    (hinc : ∀ c₁, c.getFreeVmrgArea vmaid size = (none, c₁) → P c₁ →
      P (c₁.incVmaLimit vmaid (pagingPageAlignsz size)).2) :
    P (c.alloc vmaid rgid size).2.2 := by
  obtain ⟨mm, hfree, hpgd⟩ := c.getFreeVmrgArea_frame vmaid size
  unfold alloc
  generalize c.getFreeVmrgArea vmaid size = found at hfree hinc ⊢
  obtain ⟨rg, c₁⟩ := found
  dsimp only at hfree
  have hfound : P c₁ := by
    rw [hfree]
    exact hmm c mm hc hpgd
  cases rg with
  | some rgnode => exact hmm c₁ _ hfound rfl
  | none =>
    have hgrown := hinc c₁ rfl hfound
    dsimp only
    unfold allocAtBrk
    dsimp only
    generalize (c₁.incVmaLimit vmaid (pagingPageAlignsz size)).2 = c₂ at hgrown ⊢
    obtain ⟨mm₂, hcarve, hpgd₂⟩ :=
      c₂.carveAtBrk_frame vmaid rgid size (cint (c₁.mm.curVma vmaid).sbrk)
    rw [hcarve]
    exact hmm c₂ mm₂ hgrown hpgd₂

/-! ## Processes with a single area -/

lemma getVmaByNum_single {mm : Mm} {v : VmArea} (hv : mm.mmap = [v]) :
    mm.getVmaByNum 0 = some 0 := by
  simp [Mm.getVmaByNum, hv]

lemma curVma_single {mm : Mm} {v : VmArea} (hv : mm.mmap = [v]) : mm.curVma 0 = v := by
  simp [Mm.curVma, getVmaByNum_single hv, hv]

lemma setCurVma_single {mm : Mm} {v : VmArea} (hv : mm.mmap = [v]) (v' : VmArea) :
    mm.setCurVma 0 v' = { mm with mmap := [v'] } := by
  simp [Mm.setCurVma, getVmaByNum_single hv, hv]

/-- The first page that growing an area maps. -/
def firstGrownPage (v : VmArea) : ℕ := pagingPgn (BitVec.ofInt 32 (cint v.vmEnd))

/-- The number of pages that growing an area by `incSz` maps. -/
def grownPages (incSz : ℤ) : ℕ := ((pagingPageAlignsz incSz).tdiv pagingPagesz).toNat

/-- Growing an area below 4 MB that stays below 4 MB: it grows by whole pages, and exactly the new
pages are mapped. -/
lemma grown_pages {v : VmArea} {size : ℤ} (haligned : pagingPagesz ∣ v.vmEnd)
    (hsmall : v.vmEnd ≤ 2 ^ 22) (hlo : 1 ≤ size) (hhi : size < 2 ^ 31)
    (hend : ulong (v.vmEnd + pagingPageAlignsz size) ≤ 2 ^ 22) :
    v.vmEnd ≤ ulong (v.vmEnd + pagingPageAlignsz size) ∧
    pagingPagesz ∣ ulong (v.vmEnd + pagingPageAlignsz size) ∧
    firstGrownPage v = v.vmEnd / pagingPagesz ∧
    firstGrownPage v + grownPages (pagingPageAlignsz size) =
      ulong (v.vmEnd + pagingPageAlignsz size) / pagingPagesz := by
  rw [pagingPagesz_eq] at haligned ⊢
  by_cases hfit : size < 2 ^ 31 - 255
  · have hsz := pagingPageAlignsz_of_mem hlo hfit
    have hul : ulong (v.vmEnd + pagingPageAlignsz size) = v.vmEnd + pagingPageAlignsz size :=
      ulong_of_mem (by omega) (by omega)
    have hfirst : firstGrownPage v = v.vmEnd / 256 := by
      unfold firstGrownPage
      rw [cint_of_mem (by omega) (by omega), pagingPgn_eq, BitVec.toNat_ofInt]
      omega
    have hgrown : pagingPageAlignsz (pagingPageAlignsz size) = pagingPageAlignsz size := by
      have hagain := pagingPageAlignsz_of_mem (show 1 ≤ pagingPageAlignsz size by omega) (by omega)
      omega
    have hpages : (grownPages (pagingPageAlignsz size) : ℤ) =
        pagingPageAlignsz size / 256 := by
      unfold grownPages
      rw [hgrown, pagingPagesz_cast,
        Int.tdiv_eq_ediv_of_nonneg (by omega)]
      omega
    omega
  · obtain ⟨hneg, hge⟩ := pagingPageAlignsz_of_ge (by omega) hhi
    have hul : (ulong (v.vmEnd + pagingPageAlignsz size) : ℤ) =
        (v.vmEnd + pagingPageAlignsz size) % 2 ^ 64 := by
      unfold ulong
      omega
    omega

/-- A single area overlaps no other one. -/
lemma not_validateOverlap_neg {c : Caller} {v : VmArea} (hv : c.mm.mmap = [v])
    (vmastart vmaend : ℤ) :
    ¬ c.validateOverlapVmArea 0 vmastart vmaend < 0 := by
  unfold validateOverlapVmArea
  rw [getVmaByNum_single hv]
  dsimp only
  split <;> decide

/-- Growing the only area moves its end and its break, then remaps the pages behind the old
end. -/
lemma incVmaLimit_single {c : Caller} {v : VmArea} (hv : c.mm.mmap = [v]) (incSz : ℤ) :
    Remaps (firstGrownPage v) (firstGrownPage v + grownPages incSz)
      { c with
        mm := { c.mm with
          mmap := [{ v with
            vmEnd := ulong (v.vmEnd + incSz)
            sbrk := ulong (v.sbrk + incSz) }] } }
      (c.incVmaLimit 0 incSz).2 := by
  have hvalid := not_validateOverlap_neg hv (cint v.sbrk) (cint (ulong (v.sbrk + incSz)))
  unfold incVmaLimit growArea getVmAreaNodeAtBrk
  simp only [curVma_single hv, setCurVma_single hv, hvalid, if_false]
  split <;> exact remaps_vmMapRam ..

/-- What `__alloc` may do to a process whose only area is `v`. -/
structure AllocEffect (v : VmArea) (rgid size : ℤ) (c c' : Caller) : Prop where
  /-- No byte of RAM is written. -/
  storage : c'.mram.storage = c.mram.storage
  /-- The access mode of RAM stays. -/
  rdmflg : c'.mram.rdmflg = c.mram.rdmflg
  /-- Only the symbol of the new region changes. -/
  symrgtbl : ∀ r, r ≠ rgid → c'.mm.symrgtbl r = c.mm.symrgtbl r
  /-- Either the region comes from the free list and no page is touched, or the area grows. -/
  area : ∃ v', c'.mm.mmap = [v'] ∧
    (v'.vmEnd = v.vmEnd ∧ c'.mm.pgd = c.mm.pgd ∨
      v'.vmEnd = ulong (v.vmEnd + pagingPageAlignsz size) ∧
        ∀ n, c'.mm.pgd n = c.mm.pgd n ∨ pteSwapped (c'.mm.pgd n) = true ∨
          firstGrownPage v ≤ n ∧ n < firstGrownPage v + grownPages (pagingPageAlignsz size))

/-- Searching the free list of the only area changes that list only. -/
lemma getFreeVmrgArea_single {c : Caller} {v : VmArea} (hv : c.mm.mmap = [v]) (size : ℤ) :
    ∃ list, (c.getFreeVmrgArea 0 size).2 =
      { c with mm := { c.mm with mmap := [{ v with vmFreergList := list }] } } := by
  unfold getFreeVmrgArea
  rw [curVma_single hv]
  dsimp only
  split
  · refine ⟨v.vmFreergList, ?_⟩
    rw [← hv]
  · next newrg list _ =>
    refine ⟨list, ?_⟩
    rw [setCurVma_single hv]
    split <;> rfl

@[simp] lemma alloc_status (c : Caller) (vmaid rgid size : ℤ) :
    (c.alloc vmaid rgid size).1 = 0 := by
  unfold alloc
  split <;> rfl

/-- Enlisting a freed region changes the free list of the first area only. -/
lemma enlistVmFreergList_single {mm : Mm} {v : VmArea} (hv : mm.mmap = [v]) (rg : VmRg) :
    ∃ list, mm.enlistVmFreergList rg =
      { mm with mmap := [{ v with vmFreergList := list }] } := by
  unfold Mm.enlistVmFreergList
  split
  · refine ⟨v.vmFreergList, ?_⟩
    rw [← hv]
  · rw [hv]
    exact ⟨_, rfl⟩

/-- `__free` changes the free list of the only area and nothing else. -/
lemma free_single {c : Caller} {v : VmArea} (hv : c.mm.mmap = [v]) (vmaid rgid : ℤ) :
    ∃ list, (c.free vmaid rgid).2 =
      { c with mm := { c.mm with mmap := [{ v with vmFreergList := list }] } } := by
  unfold free
  split
  · refine ⟨v.vmFreergList, ?_⟩
    rw [← hv]
  · obtain ⟨list, hlist⟩ := enlistVmFreergList_single hv (c.mm.symrgtbl rgid)
    refine ⟨list, ?_⟩
    rw [hlist]

/-- Cutting a region out at the old break sets its symbol and the free list of the area. -/
lemma carveAtBrk_single {c : Caller} {v : VmArea} (hv : c.mm.mmap = [v])
    (rgid size oldSbrk : ℤ) :
    ∃ rg list, c.carveAtBrk 0 rgid size oldSbrk =
      { c with
        mm := { c.mm with
          symrgtbl := Function.update c.mm.symrgtbl rgid rg
          mmap := [{ v with vmFreergList := list }] } } := by
  have hv' : ∀ rg, (c.mm.setSymrg rgid rg).mmap = [v] := fun _ => hv
  unfold carveAtBrk
  dsimp only
  split
  · obtain ⟨list, hlist⟩ := enlistVmFreergList_single (hv' _) _
    exact ⟨_, list, by rw [hlist]; rfl⟩
  · refine ⟨⟨ulong oldSbrk, ulong (cint (oldSbrk + size))⟩, v.vmFreergList, ?_⟩
    rw [← hv]
    rfl

/-- Growing the area and cutting a region out at the old break. -/
lemma allocAtBrk_effect {c : Caller} {v : VmArea} (hv : c.mm.mmap = [v]) (rgid size : ℤ) :
    AllocEffect v rgid size c (c.allocAtBrk 0 rgid size).2.2 := by
  have hgrow := incVmaLimit_single hv (pagingPageAlignsz size)
  unfold allocAtBrk
  dsimp only
  generalize (c.incVmaLimit 0 (pagingPageAlignsz size)).2 = c₁ at hgrow ⊢
  obtain ⟨rg, list, hcarve⟩ := carveAtBrk_single hgrow.mmap rgid size (cint (c.mm.curVma 0).sbrk)
  rw [hcarve]
  exact ⟨hgrow.storage, hgrow.rdmflg,
    fun r hr => (Function.update_of_ne hr _ _).trans (congrFun hgrow.symrgtbl r),
    _, rfl, .inr ⟨rfl, hgrow.pgd⟩⟩

/-- `__alloc` serves the region from the free list or grows the area. -/
lemma alloc_effect {c : Caller} {v : VmArea} (hv : c.mm.mmap = [v]) (rgid size : ℤ) :
    AllocEffect v rgid size c (c.alloc 0 rgid size).2.2 := by
  obtain ⟨list, hfree⟩ := getFreeVmrgArea_single hv size
  unfold alloc
  generalize c.getFreeVmrgArea 0 size = found at hfree ⊢
  obtain ⟨rg, c₁⟩ := found
  dsimp only at hfree
  cases rg with
  | some rgnode =>
    subst hfree
    exact ⟨rfl, rfl, fun r hr => Function.update_of_ne hr _ _, _, rfl, .inl ⟨rfl, rfl⟩⟩
  | none =>
    dsimp only
    have hv₁ : c₁.mm.mmap = [{ v with vmFreergList := list }] := by rw [hfree]
    have heff := allocAtBrk_effect hv₁ rgid size
    generalize (c₁.allocAtBrk 0 rgid size).2.2 = c₂ at heff ⊢
    subst hfree
    exact ⟨heff.storage, heff.rdmflg, heff.symrgtbl, heff.area⟩

end Caller

/-! ## Accesses -/

/-- The address that an access to a region goes to, when the region id is valid. -/
def Mm.target (mm : Mm) (rgid offset : ℤ) : Option Word :=
  (mm.getSymrgByid rgid).map fun currg => Caller.regionAddr currg offset

lemma target_eq_some {mm : Mm} {rgid offset : ℤ} {addr : Word}
    (h : mm.target rgid offset = some addr) :
    mm.getSymrgByid rgid = some (mm.symrgtbl rgid) ∧
      addr = Caller.regionAddr (mm.symrgtbl rgid) offset := by
  unfold Mm.target Mm.getSymrgByid at *
  grind

/-- An access to a valid region id reads the byte of its target. -/
lemma read_of_target {c : Caller} {v : VmArea} (hv : c.mm.mmap = [v]) {rgid offset : ℤ}
    {addr : Word} (h : c.mm.target rgid offset = some addr) :
    c.read 0 rgid offset = (0, (c.pgGetval addr).2) := by
  obtain ⟨hsym, rfl⟩ := target_eq_some h
  simp [Caller.read, hsym, Caller.getVmaByNum_single hv]

/-- A write to a valid region id sets the byte of its target. -/
lemma write_of_target {c : Caller} {v : VmArea} (hv : c.mm.mmap = [v]) {rgid offset : ℤ}
    {addr : Word} (value : Byte) (h : c.mm.target rgid offset = some addr) :
    c.write 0 rgid offset value = (0, (c.pgSetval addr value).2) := by
  obtain ⟨hsym, rfl⟩ := target_eq_some h
  simp [Caller.write, hsym, Caller.getVmaByNum_single hv]

/-- An access to an invalid region id fails and changes nothing. -/
lemma read_of_target_none {c : Caller} {rgid offset : ℤ} (h : c.mm.target rgid offset = none) :
    c.read 0 rgid offset = (-1, none, c) := by
  have hsym : c.mm.getSymrgByid rgid = none := Option.map_eq_none_iff.mp h
  simp [Caller.read, hsym]

lemma write_of_target_none {c : Caller} {rgid offset : ℤ} (value : Byte)
    (h : c.mm.target rgid offset = none) : c.write 0 rgid offset value = (-1, c) := by
  have hsym : c.mm.getSymrgByid rgid = none := Option.map_eq_none_iff.mp h
  simp [Caller.write, hsym]

/-- A read leaves its caller alone or brings in the page of its target. -/
lemma read_cases (c : Caller) (vmaid rgid offset : ℤ) :
    (c.read vmaid rgid offset).2.2 = c ∨ ∃ addr, c.mm.target rgid offset = some addr ∧
      (c.read vmaid rgid offset).2.2 = (c.pgGetval addr).2.2 := by
  unfold Caller.read
  split
  · next currg _ hsym _ => exact .inr ⟨_, by rw [Mm.target, hsym]; rfl, rfl⟩
  · exact .inl rfl

/-- A write leaves its caller alone or stores a byte at its target. -/
lemma write_cases (c : Caller) (vmaid rgid offset : ℤ) (value : Byte) :
    (c.write vmaid rgid offset value).2 = c ∨ ∃ addr, c.mm.target rgid offset = some addr ∧
      (c.write vmaid rgid offset value).2 = (c.pgSetval addr value).2 := by
  unfold Caller.write
  split
  · next currg _ hsym _ => exact .inr ⟨_, by rw [Mm.target, hsym]; rfl, rfl⟩
  · exact .inl rfl

/-- What `pg_getpage` of the target establishes, `__read` establishes, if reading RAM keeps it. -/
lemma read_keeps {P : Caller → Prop} {c : Caller} {vmaid rgid offset : ℤ} (hc : P c)
    (hpage : ∀ addr, c.mm.target rgid offset = some addr → P (c.pgGetpage (pagingPgn addr)).2)
    (hread : ∀ c cell, P c → P { c with mram := (c.mram.read cell).2.1 }) :
    P (c.read vmaid rgid offset).2.2 := by
  rcases read_cases c vmaid rgid offset with hsame | ⟨addr, htarget, heq⟩
  · rw [hsame]
    exact hc
  · have hgot := hpage addr htarget
    rw [heq]
    unfold Caller.pgGetval
    dsimp only
    generalize c.pgGetpage (pagingPgn addr) = got at hgot ⊢
    obtain ⟨_ | fpn, c₁⟩ := got
    · exact hgot
    · exact hread c₁ _ hgot

/-- What `pg_getpage` of the target establishes, `__write` establishes, if writing RAM keeps it. -/
lemma write_keeps {P : Caller → Prop} {c : Caller} {vmaid rgid offset : ℤ} {value : Byte} (hc : P c)
    (hpage : ∀ addr, c.mm.target rgid offset = some addr → P (c.pgGetpage (pagingPgn addr)).2)
    (hwrite : ∀ c cell, P c → P { c with mram := (c.mram.write cell value).2 }) :
    P (c.write vmaid rgid offset value).2 := by
  rcases write_cases c vmaid rgid offset value with hsame | ⟨addr, htarget, heq⟩
  · rw [hsame]
    exact hc
  · have hgot := hpage addr htarget
    rw [heq]
    unfold Caller.pgSetval
    dsimp only
    generalize c.pgGetpage (pagingPgn addr) = got at hgot ⊢
    obtain ⟨_ | fpn, c₁⟩ := got
    · exact hgot
    · exact hwrite c₁ _ hgot

/-! ## Accesses to a present page -/

/-- The RAM address that the code uses for a virtual address on a present page. -/
def Mm.ramCell (mm : Mm) (addr : Word) : ℤ :=
  Caller.phyaddr (pagingFpn (mm.pgd (pagingPgn addr))) (pagingOffst addr)

/-- The page of a virtual address has the present bit. -/
def Mm.Present (mm : Mm) (addr : Word) : Prop := pagingPagePresent (mm.pgd (pagingPgn addr)) = true

instance (mm : Mm) (addr : Word) : Decidable (mm.Present addr) :=
  inferInstanceAs (Decidable (_ = true))

namespace Caller

variable {c : Caller} {addr : Word}

/-- A present page is not swapped in. -/
lemma pgGetpage_present (h : c.mm.Present addr) :
    c.pgGetpage (pagingPgn addr) = (some (pagingFpn (c.mm.pgd (pagingPgn addr))), c) := by
  unfold Mm.Present at h
  simp [pgGetpage, h]

/-- Reading a byte of a present page delivers its RAM cell and changes nothing. -/
lemma pgGetval_present (hrdm : c.mram.rdmflg = true) (h : c.mm.Present addr) :
    c.pgGetval addr = (0, some (c.mram.storage (c.mm.ramCell addr)), c) := by
  simp [pgGetval, pgGetpage_present h, Memphy.read_of_rdmflg hrdm, Mm.ramCell]

/-- Writing a byte of a present page sets its RAM cell and changes nothing else. -/
lemma pgSetval_present (hrdm : c.mram.rdmflg = true) (value : Byte) (h : c.mm.Present addr) :
    c.pgSetval addr value = (0, { c with
      mram := { c.mram with
        storage := Function.update c.mram.storage (c.mm.ramCell addr) value } }) := by
  simp [pgSetval, pgGetpage_present h, Memphy.write_of_rdmflg hrdm, Mm.ramCell]

/-! ## Accesses to any page -/

/-- Swapping a page in keeps the areas and the access mode of RAM. -/
lemma pageIn_frame (c : Caller) (pgn tgtfpn vicpgn swpfpn : ℕ) :
    (c.pageIn pgn tgtfpn vicpgn swpfpn).mm.mmap = c.mm.mmap ∧
      (c.pageIn pgn tgtfpn vicpgn swpfpn).mram.rdmflg = c.mram.rdmflg := by
  rw [mm_pageIn, ← device_mram, rdmflg_pageIn, device_mram]
  exact ⟨rfl, rfl⟩

/-- A page access keeps the areas and the access mode of RAM. -/
lemma pgGetpage_frame (c : Caller) (pgn : ℕ) :
    (c.pgGetpage pgn).2.mm.mmap = c.mm.mmap ∧
      (c.pgGetpage pgn).2.mram.rdmflg = c.mram.rdmflg := by
  unfold pgGetpage
  dsimp only
  split
  · split
    · exact ⟨rfl, rfl⟩
    · next vicpgn mm hvic =>
      obtain ⟨list, -, rfl⟩ := findVictimPage_eq_some.mp hvic
      split
      · exact ⟨rfl, rfl⟩
      · next swpfpn mswp hget =>
        exact pageIn_frame _ pgn _ vicpgn swpfpn
  · exact ⟨rfl, rfl⟩

/-- A write keeps the areas and the access mode of RAM. -/
lemma write_frame (c : Caller) (vmaid rgid offset : ℤ) (value : Byte) :
    (c.write vmaid rgid offset value).2.mm.mmap = c.mm.mmap ∧
      (c.write vmaid rgid offset value).2.mram.rdmflg = c.mram.rdmflg :=
  write_keeps (P := fun c' => c'.mm.mmap = c.mm.mmap ∧ c'.mram.rdmflg = c.mram.rdmflg)
    ⟨rfl, rfl⟩ (fun addr _ => c.pgGetpage_frame (pagingPgn addr))
    fun _ _ h => ⟨h.1, (Memphy.rdmflg_write _ _ _).trans h.2⟩

/-- A read keeps the areas and the access mode of RAM. -/
lemma read_frame (c : Caller) (vmaid rgid offset : ℤ) :
    (c.read vmaid rgid offset).2.2.mm.mmap = c.mm.mmap ∧
      (c.read vmaid rgid offset).2.2.mram.rdmflg = c.mram.rdmflg :=
  read_keeps (P := fun c' => c'.mm.mmap = c.mm.mmap ∧ c'.mram.rdmflg = c.mram.rdmflg)
    ⟨rfl, rfl⟩ (fun addr _ => c.pgGetpage_frame (pagingPgn addr))
    fun _ _ h => ⟨h.1, (Memphy.rdmflg_read _ _).trans h.2⟩

end Caller

end Ossim
