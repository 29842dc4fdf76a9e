import Ossim.Paging.Devices
import Ossim.Paging.FrameOwnership
import Mathlib.Logic.Relation

/-!
# The swap frames of a process

The calls change a page table one entry at a time: `pte_set_fpn` records a RAM frame in an entry,
and `pte_set_swap` records the swap frame that was just taken off the free list
(`MemCall.entrySteps_run`).  No swap frame goes back to the list, so the swapped-out pages of a
process name different ones, as far as the field of the entry holds their numbers (`TakenOnce`).
-/

namespace Ossim

/-- An entry of a swapped-out page: `pte_set_swap` sets both bits. -/
def pteSwappedOut (pte : Word) : Bool := pagingPagePresent pte && pteSwapped pte

lemma pteSwappedOut_pteSetFpn (pte : Word) (fpn : ℕ) :
    pteSwappedOut (pteSetFpn pte fpn) = false := by
  simp [pteSwappedOut]

/-! ## One entry at a time -/

/-- A change of one entry of the page table, with what it takes off the free list of swap. -/
inductive EntryStep (c c' : Caller) : Prop
  /-- No entry changes. -/
  | same (hpgd : c'.mm.pgd = c.mm.pgd)
    (hfree : c'.activeMswp.freeFpList = c.activeMswp.freeFpList)
  /-- An entry records a RAM frame. -/
  | setFpn (pgn fpn : ℕ)
    (hpgd : c'.mm.pgd = Function.update c.mm.pgd pgn (pteSetFpn (c.mm.pgd pgn) fpn))
    (hfree : c'.activeMswp.freeFpList = c.activeMswp.freeFpList)
  /-- An entry records a swap frame that was free. -/
  | setSwap (pgn swpfpn : ℕ)
    (hpgd : c'.mm.pgd = Function.update c.mm.pgd pgn (pteSetSwap (c.mm.pgd pgn) 0 swpfpn))
    (hfree : c.activeMswp.freeFpList = swpfpn :: c'.activeMswp.freeFpList)

/-- Any number of these changes. -/
abbrev EntrySteps : Caller → Caller → Prop := Relation.ReflTransGen EntryStep

namespace Caller

lemma entrySteps_same {c c' : Caller} (hpgd : c'.mm.pgd = c.mm.pgd)
    (hfree : c'.activeMswp.freeFpList = c.activeMswp.freeFpList) : EntrySteps c c' :=
  .single (.same hpgd hfree)

/-- Swapping out a page. -/
lemma entryStep_evictPage {c : Caller} {victim swpfpn : ℕ} {list rest : List ℕ}
    (hswap : c.activeMswp.freeFpList = swpfpn :: rest) :
    EntryStep c ((c.picked list rest).evictPage victim swpfpn) := by
  obtain ⟨-, hmswp⟩ := freeFpLists_eq ((c.picked list rest).freeFpList_evictPage victim swpfpn)
  refine .setSwap victim swpfpn ?_ ?_
  · rw [mm_evictPage]
    rfl
  · rw [hmswp]
    exact hswap

lemma entrySteps_allocPagesLoop (n : ℕ) (frmLst : List ℕ) (c : Caller) :
    EntrySteps c (allocPagesLoop n frmLst c).2.2 := by
  induction n generalizing frmLst c with
  | zero => exact .refl
  | succ n ih =>
    have hturn := allocPagesLoop_turn n frmLst c
    generalize allocPagesLoop (n + 1) frmLst c = result at hturn ⊢
    cases hturn with
    | take fpn rest hfree =>
      refine Relation.ReflTransGen.trans ?_ (ih (fpn :: frmLst) _)
      exact entrySteps_same rfl rfl
    | noVictim hfree hfifo => rw [allocPagesFail_caller]
    | noSwap victim list hfree hvictim hswap =>
      rw [allocPagesFail_caller]
      exact entrySteps_same rfl rfl
    | evict victim swpfpn list rest hfree hvictim hswap =>
      exact .head (entryStep_evictPage hswap) (ih _ _)

lemma entrySteps_vmapPageLoop (n pgn : ℕ) (frames : List ℕ) (c : Caller) :
    EntrySteps c { c with mm := vmapPageLoop n pgn frames c.mm } := by
  induction n generalizing pgn frames c with
  | zero => exact .refl
  | succ n ih =>
    cases frames with
    | nil => exact .refl
    | cons fpn frames =>
      have hrest := ih (pgn + 1) frames { c with
        mm := { c.mm with
          pgd := Function.update c.mm.pgd pgn (pteSetFpn (c.mm.pgd pgn) fpn)
          fifoPgn := enlistPgnNode c.mm.fifoPgn pgn } }
      refine Relation.ReflTransGen.head ?_ hrest
      exact .setFpn pgn fpn rfl rfl

lemma entrySteps_vmMapRam (c : Caller) (astart aend mapstart incpgnum : ℤ) :
    EntrySteps c (c.vmMapRam astart aend mapstart incpgnum).2 := by
  have hgather := entrySteps_allocPagesLoop incpgnum.toNat [] c
  rcases c.vmMapRam_outcome astart aend mapstart incpgnum with ⟨-, -, heq⟩ | ⟨-, -, heq⟩
  · rw [heq]
    exact hgather.trans (entrySteps_vmapPageLoop _ _ _ _)
  · rw [heq]
    exact hgather

lemma entrySteps_incVmaLimit (c : Caller) (vmaid incSz : ℤ) :
    EntrySteps c (c.incVmaLimit vmaid incSz).2 := by
  have hgrow : EntrySteps c (c.growArea vmaid incSz) :=
    entrySteps_same (by simp [growArea]) rfl
  unfold incVmaLimit
  dsimp only
  split
  · exact .refl
  · split
    · exact hgrow.trans (entrySteps_vmMapRam _ _ _ _ _)
    · exact hgrow.trans (entrySteps_vmMapRam _ _ _ _ _)

lemma entrySteps_alloc (c : Caller) (vmaid rgid size : ℤ) :
    EntrySteps c (c.alloc vmaid rgid size).2.2 :=
  alloc_keeps rgid .refl (fun _ _ h hpgd => h.trans (entrySteps_same hpgd rfl))
    fun _ _ h => h.trans (entrySteps_incVmaLimit _ _ _)

/-- The exchange of a victim for a page is two changes. -/
lemma entrySteps_pageIn {c : Caller} {pgn victim swpfpn tgtfpn : ℕ} {list rest : List ℕ}
    (hswap : c.activeMswp.freeFpList = swpfpn :: rest) :
    EntrySteps c ((c.picked list rest).pageIn pgn tgtfpn victim swpfpn) := by
  obtain ⟨-, hmswp⟩ := freeFpLists_eq fun d =>
    ((c.picked list rest).freeFpList_pageIn pgn tgtfpn victim swpfpn d).trans
      ((c.picked list rest).freeFpList_evictPage victim swpfpn d).symm
  have hout : EntryStep c ((c.picked list rest).evictPage victim swpfpn) :=
    entryStep_evictPage hswap
  refine .tail (.single hout) (.setFpn pgn (pagingFpn (c.mm.pgd victim)) ?_ hmswp)
  rw [mm_pageIn, mm_evictPage]
  rfl

lemma entrySteps_pgGetpage (c : Caller) (pgn : ℕ) : EntrySteps c (c.pgGetpage pgn).2 := by
  have houtcome := c.pgGetpage_outcome pgn
  generalize c.pgGetpage pgn = result at houtcome ⊢
  cases houtcome with
  | present => exact .refl
  | noVictim => exact .refl
  | noSwap => exact entrySteps_same rfl rfl
  | exchange victim swpfpn list rest habsent hvictim hswap => exact entrySteps_pageIn hswap

end Caller

/-- A call changes the page table one entry at a time. -/
lemma MemCall.entrySteps_run (k : MemCall) (c : Caller) : EntrySteps c (k.run c).2.2 := by
  cases k with
  | alloc rgid size => exact c.entrySteps_alloc 0 rgid size
  | free rgid =>
    show EntrySteps c (c.free 0 rgid).2
    unfold Caller.free
    split
    · exact .refl
    · exact Caller.entrySteps_same (Caller.pgd_enlistVmFreergList _ _) rfl
  | read rgid offset =>
    exact read_keeps .refl (fun addr _ => c.entrySteps_pgGetpage (pagingPgn addr))
      fun _ _ h => h.trans (Caller.entrySteps_same rfl rfl)
  | write rgid offset value =>
    exact write_keeps .refl (fun addr _ => c.entrySteps_pgGetpage (pagingPgn addr))
      fun _ _ h => h.trans (Caller.entrySteps_same rfl rfl)

/-! ## Each swap frame is taken once -/

/-- The swapped-out pages of a page table took different frames below `n`, which are not free any
more, and name them in their entries as far as the field holds them. -/
structure TakenOnce (n : ℕ) (pgd : ℕ → Word) (free : List ℕ) (taken : ℕ → ℕ) : Prop where
  /-- The entry of a swapped-out page names its frame. -/
  named : ∀ pgn, pteSwappedOut (pgd pgn) = true →
    recordedSwpoff (pgd pgn) = taken pgn % 2 ^ 21
  /-- The frames are different. -/
  inj : ∀ pgn pgn', pteSwappedOut (pgd pgn) = true → pteSwappedOut (pgd pgn') = true →
    taken pgn = taken pgn' → pgn = pgn'
  /-- They are not free, and below the bound. -/
  gone : ∀ pgn, pteSwappedOut (pgd pgn) = true → taken pgn ∉ free ∧ taken pgn < n
  /-- The free frames are different and below the bound. -/
  nodup : free.Nodup
  /-- They are below the bound. -/
  lt : ∀ f ∈ free, f < n

namespace TakenOnce

variable {n : ℕ} {pgd : ℕ → Word} {free free' : List ℕ} {taken : ℕ → ℕ}

/-- Other processes take frames, too. -/
lemma of_sublist (h : TakenOnce n pgd free taken) (hsub : free'.Sublist free) :
    TakenOnce n pgd free' taken where
  named := h.named
  inj := h.inj
  gone pgn hout := ⟨fun hmem => (h.gone pgn hout).1 (hsub.subset hmem), (h.gone pgn hout).2⟩
  nodup := h.nodup.sublist hsub
  lt f hf := h.lt f (hsub.subset hf)

/-- An entry that records a RAM frame is not swapped out any more. -/
lemma setFpn (h : TakenOnce n pgd free taken) (m fpn : ℕ) :
    TakenOnce n (Function.update pgd m (pteSetFpn (pgd m) fpn)) free taken := by
  have hold : ∀ pgn, pteSwappedOut (Function.update pgd m (pteSetFpn (pgd m) fpn) pgn) = true →
      Function.update pgd m (pteSetFpn (pgd m) fpn) pgn = pgd pgn ∧
        pteSwappedOut (pgd pgn) = true := by
    intro pgn hout
    by_cases hm : pgn = m
    · subst hm
      rw [Function.update_self, pteSwappedOut_pteSetFpn] at hout
      exact absurd hout Bool.false_ne_true
    · rw [Function.update_of_ne hm] at hout ⊢
      exact ⟨rfl, hout⟩
  refine ⟨fun pgn hout => ?_, fun pgn pgn' hout hout' heq => ?_, fun pgn hout => ?_, h.nodup, h.lt⟩
  · rw [(hold pgn hout).1]
    exact h.named pgn (hold pgn hout).2
  · exact h.inj pgn pgn' (hold pgn hout).2 (hold pgn' hout').2 heq
  · exact h.gone pgn (hold pgn hout).2

/-- A page that is swapped out takes the first free frame. -/
lemma setSwap {f : ℕ} (h : TakenOnce n pgd (f :: free) taken) (m : ℕ) :
    TakenOnce n (Function.update pgd m (pteSetSwap (pgd m) 0 f)) free
      (Function.update taken m f) := by
  obtain ⟨hnew, hnodup⟩ := List.nodup_cons.mp h.nodup
  have hother : ∀ pgn, pgn ≠ m →
      pteSwappedOut (Function.update pgd m (pteSetSwap (pgd m) 0 f) pgn) = true →
      pteSwappedOut (pgd pgn) = true := by
    intro pgn hm hout
    rwa [Function.update_of_ne hm] at hout
  have hne : ∀ pgn, pteSwappedOut (pgd pgn) = true → taken pgn ≠ f := by
    rintro pgn hout rfl
    exact (h.gone pgn hout).1 List.mem_cons_self
  refine ⟨fun pgn hout => ?_, fun pgn pgn' hout hout' heq => ?_, fun pgn hout => ?_, hnodup,
    fun f' hf' => h.lt f' (List.mem_cons_of_mem _ hf')⟩
  · by_cases hm : pgn = m
    · subst hm
      rw [Function.update_self, Function.update_self, recordedSwpoff_pteSetSwap]
    · rw [Function.update_of_ne hm, Function.update_of_ne hm]
      exact h.named pgn (hother pgn hm hout)
  · by_cases hm : pgn = m
    · by_cases hm' : pgn' = m
      · rw [hm, hm']
      · subst hm
        rw [Function.update_self, Function.update_of_ne hm'] at heq
        exact absurd heq.symm (hne pgn' (hother pgn' hm' hout'))
    · by_cases hm' : pgn' = m
      · subst hm'
        rw [Function.update_self, Function.update_of_ne hm] at heq
        exact absurd heq (hne pgn (hother pgn hm hout))
      · rw [Function.update_of_ne hm, Function.update_of_ne hm'] at heq
        exact h.inj pgn pgn' (hother pgn hm hout) (hother pgn' hm' hout') heq
  · by_cases hm : pgn = m
    · subst hm
      rw [Function.update_self]
      exact ⟨hnew, h.lt f List.mem_cons_self⟩
    · rw [Function.update_of_ne hm]
      obtain ⟨hgone, hlt⟩ := h.gone pgn (hother pgn hm hout)
      exact ⟨fun hmem => hgone (List.mem_cons_of_mem _ hmem), hlt⟩

end TakenOnce

/-- A change of one entry keeps the swap frames apart. -/
lemma TakenOnce.step {n : ℕ} {taken : ℕ → ℕ} {c c' : Caller}
    (h : TakenOnce n c.mm.pgd c.activeMswp.freeFpList taken) (hstep : EntryStep c c') :
    c'.activeMswp.freeFpList.Sublist c.activeMswp.freeFpList ∧
      ∃ taken', TakenOnce n c'.mm.pgd c'.activeMswp.freeFpList taken' := by
  cases hstep with
  | same hpgd hfree =>
    rw [hpgd, hfree]
    exact ⟨List.Sublist.refl _, taken, h⟩
  | setFpn pgn fpn hpgd hfree =>
    rw [hpgd, hfree]
    exact ⟨List.Sublist.refl _, taken, h.setFpn pgn fpn⟩
  | setSwap pgn swpfpn hpgd hfree =>
    rw [hfree] at h ⊢
    rw [hpgd]
    exact ⟨List.sublist_cons_self _ _, _, h.setSwap pgn⟩

/-- So does any number of them. -/
lemma TakenOnce.steps {n : ℕ} {taken : ℕ → ℕ} {c c' : Caller}
    (h : TakenOnce n c.mm.pgd c.activeMswp.freeFpList taken) (hsteps : EntrySteps c c') :
    c'.activeMswp.freeFpList.Sublist c.activeMswp.freeFpList ∧
      ∃ taken', TakenOnce n c'.mm.pgd c'.activeMswp.freeFpList taken' := by
  induction hsteps with
  | refl => exact ⟨List.Sublist.refl _, taken, h⟩
  | tail _ hstep ih =>
    obtain ⟨hsub, taken', htaken'⟩ := ih
    obtain ⟨hsub', hnext⟩ := htaken'.step hstep
    exact ⟨hsub'.trans hsub, hnext⟩

/-- The calls of all processes, from a swap device with all its frames free and a size that `int`
has. -/
def swapSystem (Pid : Type*) [DecidableEq Pid] : LTS (MemSys Pid) (Pid × MemCall) :=
  (callSystem Pid).startIn fun s => s.activeMswp.AllFree ∧ s.activeMswp.maxsz < 2 ^ 31

/-- In every reachable state the swapped-out pages of a process took different frames. -/
lemma takenOnce_of_reachable {Pid : Type*} [DecidableEq Pid] {s : MemSys Pid}
    (hs : (swapSystem Pid).Reachable s) (p : Pid) :
    ∃ taken, TakenOnce (2 ^ 23) (s.mm p).pgd s.activeMswp.freeFpList taken := by
  refine hs.invariant (I := fun s => ∀ p, ∃ taken,
    TakenOnce (2 ^ 23) (s.mm p).pgd s.activeMswp.freeFpList taken) ?_ ?_ p
  · rintro s ⟨hinit, hfree, hsize⟩ p
    obtain ⟨mm, freerg, hp⟩ := hinit.mm p
    have hnone : ∀ pgn, ¬ pteSwappedOut ((s.mm p).pgd pgn) = true := by
      intro pgn
      rw [hp]
      exact (by decide : ¬ pteSwappedOut 0#32 = true)
    have hnodup : s.activeMswp.freeFpList.Nodup := hfree.nodup_iff.mpr List.nodup_range
    have hlt : ∀ f ∈ s.activeMswp.freeFpList, f < 2 ^ 23 := by
      intro f hf
      have hrange := List.mem_range.mp (hfree.mem_iff.mp hf)
      have hframes : s.activeMswp.maxsz.tdiv pagingPagesz ≤ (2 ^ 31 : ℤ).tdiv pagingPagesz :=
        Int.tdiv_le_tdiv (by decide) hsize.le
      have hmax : (2 ^ 31 : ℤ).tdiv pagingPagesz = 2 ^ 23 := by decide
      omega
    exact ⟨id, fun pgn hout => absurd hout (hnone pgn),
      fun pgn _ hout => absurd hout (hnone pgn), fun pgn hout => absurd hout (hnone pgn),
      hnodup, hlt⟩
  · rintro s ⟨q, k⟩ s' - hall ht p
    obtain rfl : s' = s.call q k := ht
    obtain ⟨taken, htaken⟩ := hall q
    obtain ⟨hsub, hnext⟩ := TakenOnce.steps (c := s.caller q) htaken (k.entrySteps_run (s.caller q))
    by_cases hp : p = q
    · subst hp
      unfold MemSys.call
      rw [MemSys.mm_put_self]
      exact hnext
    · obtain ⟨taken', htaken'⟩ := hall p
      unfold MemSys.call
      rw [MemSys.mm_put_of_ne _ hp]
      exact ⟨taken', htaken'.of_sublist hsub⟩

end Ossim
