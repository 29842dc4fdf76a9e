import Ossim.Lib.Listing
import Ossim.Paging.AddressSpace

/-!
# The list of resident pages

`fifo_pgn` should hold the resident pages of a process, each once (`Mm.Listed`).  The list and the
page table are changed at different places: `vmap_page_range` maps a page and enlists it, the loop
of `alloc_pages_range` and `pg_getpage` take a victim off the list and then write its entry.

There are two ways to get them out of step.  A victim is taken off the list before a swap frame is
found for it, so without one it stays resident but unlisted; and `vmap_page_range` enlists a page
that is on the list already, if an access behind the end of the area made it resident before the
area grew over it.  `listed_iff_keepsListed` says that there is no third one.
-/

namespace Ossim

/-- The list of resident pages holds each resident page once and no other page. -/
def Mm.Listed (mm : Mm) : Prop := Enumerates mm.fifoPgn fun n => pteResident (mm.pgd n) = true

lemma Mm.listed_congr {mm mm' : Mm} (hpgd : mm'.pgd = mm.pgd) (hfifo : mm'.fifoPgn = mm.fifoPgn) :
    mm'.Listed ↔ mm.Listed := by
  unfold Mm.Listed
  rw [hpgd, hfifo]

lemma Mm.Listed.congr {mm mm' : Mm} (h : mm.Listed) (hpgd : mm'.pgd = mm.pgd)
    (hfifo : mm'.fifoPgn = mm.fifoPgn) : mm'.Listed :=
  (Mm.listed_congr hpgd hfifo).mpr h

@[simp] lemma pteResident_pteSetFpn (pte : Word) (fpn : ℕ) :
    pteResident (pteSetFpn pte fpn) = true := by
  simp [pteResident]

@[simp] lemma pteResident_pteSetSwap (pte : Word) (swptyp swpoff : ℕ) :
    pteResident (pteSetSwap pte swptyp swpoff) = false := by
  simp [pteResident]

/-- Taking a victim off the list and marking it as swapped out. -/
lemma Mm.Listed.swapOut {mm : Mm} (h : mm.Listed) {victim : ℕ} {list : List ℕ}
    (hvictim : takeTail mm.fifoPgn = some (victim, list)) (swpfpn : ℕ) :
    Mm.Listed { mm with
      pgd := Function.update mm.pgd victim (pteSetSwap (mm.pgd victim) 0 swpfpn)
      fifoPgn := list } := by
  unfold Mm.Listed at h ⊢
  rw [Caller.takeTail_eq_some.mp hvictim] at h
  refine h.of_concat fun n => ?_
  by_cases hn : n = victim
  · subst hn
    simp
  · simp [hn]

/-- Mapping a page that was not resident and enlisting it. -/
lemma Mm.Listed.map {mm : Mm} (h : mm.Listed) {pgn : ℕ} (hnew : pgn ∉ mm.fifoPgn) (fpn : ℕ) :
    Mm.Listed { mm with
      pgd := Function.update mm.pgd pgn (pteSetFpn (mm.pgd pgn) fpn)
      fifoPgn := enlistPgnNode mm.fifoPgn pgn } := by
  refine Enumerates.cons h hnew fun n => ?_
  by_cases hn : n = pgn
  · subst hn
    simp
  · simp [hn]

namespace Caller

/-! ## Requests for frames -/

/-- The listed pages that a request for `n` frames does not swap out. -/
def staying (c : Caller) (n : ℕ) : List ℕ :=
  c.mm.fifoPgn.take (c.mm.fifoPgn.length - (n - c.mram.freeFpList.length))

/-- Mapping `n` pages from `pgn` on keeps the list right: if there are frames for it, none of the
pages is resident already and stays so; and if there are not, each listed page finds a swap
frame. -/
def GrowsListed (c : Caller) (pgn n : ℕ) : Prop :=
  (n ≤ c.supply → ∀ m ∈ c.staying n, ¬ (pgn ≤ m ∧ m < pgn + n)) ∧
    (c.supply < n → c.mm.fifoPgn.length ≤ c.activeMswp.freeFpList.length)

/-- A victim that was taken off the list and not swapped out. -/
lemma not_listed_of_takeTail {mm : Mm} (h : mm.Listed) {victim : ℕ} {list : List ℕ}
    (hvictim : takeTail mm.fifoPgn = some (victim, list)) :
    ¬ Mm.Listed { mm with fifoPgn := list } := by
  intro hlist
  have hresident := (h.mem_iff victim).mp (mem_of_takeTail hvictim).1
  have hnodup := h.nodup
  rw [Caller.takeTail_eq_some.mp hvictim] at hnodup
  have hmem : victim ∈ list := (hlist.mem_iff victim).mpr hresident
  exact (List.nodup_append.mp hnodup).2.2 victim hmem victim (List.mem_singleton_self _) rfl

/-- A request for frames takes victims off the end of the list. -/
lemma fifoPgn_allocPagesLoop {n : ℕ} {c : Caller} (hle : n ≤ c.supply) (frmLst : List ℕ) :
    (allocPagesLoop n frmLst c).2.2.mm.fifoPgn = c.staying n := by
  induction n generalizing frmLst c with
  | zero =>
    unfold staying
    rw [Nat.zero_sub, Nat.sub_zero, List.take_length]
    rfl
  | succ n ih =>
    have hturn := allocPagesLoop_turn n frmLst c
    generalize allocPagesLoop (n + 1) frmLst c = result at hturn ⊢
    cases hturn with
    | take fpn rest hfree =>
      have hsupply := supply_take hfree
      rw [ih (by omega)]
      unfold staying
      rw [hfree, List.length_cons, Nat.add_sub_add_right]
    | noVictim hfree hfifo =>
      have hsupply : c.supply = 0 := by simp [supply, hfree, hfifo]
      omega
    | noSwap victim list hfree hvictim hswap =>
      have hsupply : c.supply = 0 := by simp [supply, hfree, hswap]
      omega
    | evict victim swpfpn list rest hfree hvictim hswap =>
      have hsupply := supply_evict hvictim hswap
      obtain ⟨hmram, -⟩ :=
        freeFpLists_eq ((c.picked list rest).freeFpList_evictPage victim swpfpn)
      rw [ih (by omega)]
      unfold staying
      rw [hmram, mm_evictPage]
      show list.take (list.length - (n - c.mram.freeFpList.length)) = _
      rw [hfree, Caller.takeTail_eq_some.mp hvictim, List.length_append, List.length_singleton,
        List.length_nil, Nat.sub_zero, Nat.sub_zero, Nat.add_sub_add_right,
        List.take_append_of_le_length (Nat.sub_le _ _)]

/-- A request for frames keeps the list right, unless a victim is left that finds no swap frame. -/
lemma listed_allocPagesLoop_iff {n : ℕ} {c : Caller} (h : c.mm.Listed) (frmLst : List ℕ) :
    (allocPagesLoop n frmLst c).2.2.mm.Listed ↔
      (c.supply < n → c.mm.fifoPgn.length ≤ c.activeMswp.freeFpList.length) := by
  induction n generalizing frmLst c with
  | zero => exact iff_of_true h fun hlt => absurd hlt (Nat.not_lt_zero _)
  | succ n ih =>
    have hturn := allocPagesLoop_turn n frmLst c
    generalize allocPagesLoop (n + 1) frmLst c = result at hturn ⊢
    cases hturn with
    | take fpn rest hfree =>
      have hsupply := supply_take hfree
      have hrest := ih (c := { c with mram := { c.mram with freeFpList := rest } }) h
        (fpn :: frmLst)
      rw [hrest, hsupply, Nat.add_lt_add_iff_right]
    | noVictim hfree hfifo =>
      rw [allocPagesFail_caller, hfifo]
      exact iff_of_true h fun _ => Nat.zero_le _
    | noSwap victim list hfree hvictim hswap =>
      have hsupply : c.supply = 0 := by simp [supply, hfree, hswap]
      have hlen := length_takeTail hvictim
      rw [allocPagesFail_caller]
      refine iff_of_false (not_listed_of_takeTail h hvictim) fun hle => ?_
      have hnone := hle (by omega)
      rw [hswap, List.length_nil] at hnone
      omega
    | evict victim swpfpn list rest hfree hvictim hswap =>
      have hsupply := supply_evict hvictim hswap
      have hlen := length_takeTail hvictim
      obtain ⟨-, hmswp⟩ :=
        freeFpLists_eq ((c.picked list rest).freeFpList_evictPage victim swpfpn)
      have hout : ((c.picked list rest).evictPage victim swpfpn).mm.Listed := by
        rw [mm_evictPage]
        exact h.swapOut hvictim swpfpn
      rw [ih hout, hmswp, mm_evictPage, hsupply, Nat.add_lt_add_iff_right, hlen, hswap,
        List.length_cons]
      show (_ → list.length ≤ rest.length) ↔ _
      rw [Nat.add_le_add_iff_right]

/-- The new pages are put in front of the list, the last one first. -/
lemma fifoPgn_vmapPageLoop {n pgn : ℕ} {frames : List ℕ} {mm : Mm} (hlen : n ≤ frames.length) :
    (vmapPageLoop n pgn frames mm).fifoPgn = (List.range' pgn n).reverse ++ mm.fifoPgn := by
  induction n generalizing pgn frames mm with
  | zero => rfl
  | succ n ih =>
    obtain ⟨fpn, frames, rfl⟩ := List.exists_cons_of_length_pos (Nat.zero_lt_of_lt hlen)
    unfold vmapPageLoop
    rw [ih (Nat.le_of_succ_le_succ hlen), List.range'_succ, List.reverse_cons, List.append_assoc]
    rfl

/-- Mapping pages, as many as there are frames, keeps the list right if none of them is on it. -/
lemma listed_vmapPageLoop_iff {n : ℕ} {frames : List ℕ} {mm : Mm} (h : mm.Listed)
    (hlen : frames.length = n) (pgn : ℕ) :
    (vmapPageLoop n pgn frames mm).Listed ↔ ∀ m ∈ mm.fifoPgn, ¬ (pgn ≤ m ∧ m < pgn + n) := by
  constructor
  · intro hlisted m hm hin
    have hnodup := hlisted.nodup
    rw [fifoPgn_vmapPageLoop hlen.ge] at hnodup
    have hnew : m ∈ (List.range' pgn n).reverse :=
      List.mem_reverse.mpr (List.mem_range'_1.mpr hin)
    exact (List.nodup_append.mp hnodup).2.2 m hnew m hm rfl
  · intro hnew
    induction n generalizing pgn frames mm with
    | zero => exact h
    | succ n ih =>
      obtain ⟨fpn, frames, rfl⟩ := List.exists_cons_of_length_eq_add_one hlen
      have hfirst : pgn ∉ mm.fifoPgn := fun hmem => hnew pgn hmem ⟨le_rfl, by omega⟩
      refine ih (h.map hfirst fpn) (by simpa using hlen) _ fun m hm => ?_
      rcases List.mem_cons.mp hm with rfl | hm
      · omega
      · have hout := hnew m hm
        omega

/-- Growing the RAM mapping. -/
lemma listed_vmMapRam_iff {c : Caller} (h : c.mm.Listed) (astart aend mapstart incpgnum : ℤ) :
    (c.vmMapRam astart aend mapstart incpgnum).2.mm.Listed ↔
      c.GrowsListed (pagingPgn (BitVec.ofInt 32 mapstart)) incpgnum.toNat := by
  have hgather := listed_allocPagesLoop_iff (n := incpgnum.toNat) h []
  unfold GrowsListed
  rcases c.vmMapRam_outcome astart aend mapstart incpgnum with ⟨hle, hlen, heq⟩ | ⟨hlt, -, heq⟩
  · have hlisted := hgather.mpr fun hlt => absurd hlt (by omega)
    have hmap := listed_vmapPageLoop_iff hlisted hlen (pagingPgn (BitVec.ofInt 32 mapstart))
    rw [fifoPgn_allocPagesLoop hle] at hmap
    rw [heq]
    refine hmap.trans ⟨fun hnew => ⟨fun _ => hnew, fun hlt => absurd hlt (by omega)⟩, fun hok => ?_⟩
    exact hok.1 hle
  · have hfails : (allocPagesLoop incpgnum.toNat [] c).2.2.mm.Listed ↔
        (incpgnum.toNat ≤ c.supply → ∀ m ∈ c.staying incpgnum.toNat,
          ¬ (pagingPgn (BitVec.ofInt 32 mapstart) ≤ m ∧
            m < pagingPgn (BitVec.ofInt 32 mapstart) + incpgnum.toNat)) ∧
        (c.supply < incpgnum.toNat →
          c.mm.fifoPgn.length ≤ c.activeMswp.freeFpList.length) := by
      rw [hgather]
      exact (and_iff_right fun hle => absurd hle (by omega)).symm
    rw [heq]
    exact hfails

/-! ## Calls -/

/-- An allocation that has to grow the area keeps the list right. -/
def AllocListed (c : Caller) (size : ℤ) : Prop :=
  ∀ c', c.getFreeVmrgArea 0 size = (none, c') →
    c'.GrowsListed (firstGrownPage (c'.mm.curVma 0)) (grownPages (pagingPageAlignsz size))

/-- A fault on the page, if there is one, finds no victim or a swap frame for it. -/
def FaultListed (c : Caller) (pgn : ℕ) : Prop :=
  pagingPagePresent (c.mm.pgd pgn) = true ∨ c.mm.fifoPgn = [] ∨ c.activeMswp.freeFpList ≠ []

/-- The condition under which a call keeps the list right. -/
def KeepsListed (c : Caller) : MemCall → Prop
  | .alloc _ size => c.AllocListed size
  | .free _ => True
  | .read rgid offset | .write rgid offset _ => ∀ addr, c.mm.target rgid offset = some addr →
    c.FaultListed (pagingPgn addr)

lemma listed_alloc_iff {c : Caller} {v : VmArea} (hv : c.mm.mmap = [v]) (h : c.mm.Listed)
    (rgid size : ℤ) : (c.alloc 0 rgid size).2.2.mm.Listed ↔ c.AllocListed size := by
  obtain ⟨list, hfree⟩ := getFreeVmrgArea_single hv size
  unfold AllocListed alloc
  generalize c.getFreeVmrgArea 0 size = found at hfree ⊢
  obtain ⟨rg, c₁⟩ := found
  dsimp only at hfree
  have h₁ : c₁.mm.Listed := h.congr (by rw [hfree]) (by rw [hfree])
  cases rg with
  | some rgnode => exact iff_of_true (h₁.congr rfl rfl) fun c' hc' => by cases hc'
  | none =>
    have hv₁ : c₁.mm.mmap = [{ v with vmFreergList := list }] := by rw [hfree]
    obtain ⟨astart, aend, heq⟩ := incVmaLimit_eq hv₁ (pagingPageAlignsz size)
    have hgrown : (c₁.grown { v with vmFreergList := list } (pagingPageAlignsz size)).mm.Listed :=
      h₁.congr rfl rfl
    have hmapped := listed_vmMapRam_iff hgrown astart aend (cint v.vmEnd)
      ((pagingPageAlignsz (pagingPageAlignsz size)).tdiv pagingPagesz)
    rw [← heq] at hmapped
    obtain ⟨rg, list', hcarve⟩ := carveAtBrk_single (incVmaLimit_single hv₁ _).mmap rgid size
      (cint (c₁.mm.curVma 0).sbrk)
    have hcarved : (c₁.allocAtBrk 0 rgid size).2.2.mm.Listed ↔
        (c₁.incVmaLimit 0 (pagingPageAlignsz size)).2.mm.Listed := by
      unfold allocAtBrk
      dsimp only
      rw [hcarve]
      exact Mm.listed_congr rfl rfl
    refine (hcarved.trans hmapped).trans ?_
    constructor
    · intro hok c' hc'
      obtain rfl : c₁ = c' := congrArg Prod.snd hc'
      rw [curVma_single hv₁]
      exact hok
    · intro hok
      have hgrows := hok c₁ rfl
      rw [curVma_single hv₁] at hgrows
      exact hgrows

lemma listed_pgGetpage_iff {c : Caller} (h : c.mm.Listed) (pgn : ℕ) :
    (c.pgGetpage pgn).2.mm.Listed ↔ c.FaultListed pgn := by
  have houtcome := c.pgGetpage_outcome pgn
  unfold FaultListed
  generalize c.pgGetpage pgn = result at houtcome ⊢
  cases houtcome with
  | present hpresent => exact iff_of_true h (.inl hpresent)
  | noVictim habsent hfifo => exact iff_of_true h (.inr (.inl hfifo))
  | noSwap victim list habsent hvictim hswap =>
    refine iff_of_false (not_listed_of_takeTail h hvictim) ?_
    rintro (hpresent | hfifo | hfree)
    · rw [habsent] at hpresent
      cases hpresent
    · rw [takeTail_eq_none.mpr hfifo] at hvictim
      cases hvictim
    · exact hfree hswap
  | exchange victim swpfpn list rest habsent hvictim hswap =>
    have hout := h.swapOut hvictim swpfpn
    have hnew : pgn ∉ list := fun hmem => by
      have hresident := (h.mem_iff pgn).mp ((mem_of_takeTail hvictim).2 pgn hmem)
      simp [pteResident, habsent] at hresident
    refine iff_of_true ?_ (.inr (.inr ?_))
    · dsimp only
      rw [mm_pageIn]
      exact hout.map hnew _
    · rw [hswap]
      exact List.cons_ne_nil _ _

/-- A call keeps the list right exactly if it meets the condition. -/
lemma listed_run_iff {c : Caller} {v : VmArea} (hv : c.mm.mmap = [v]) (h : c.mm.Listed)
    (k : MemCall) : (k.run c).2.2.mm.Listed ↔ c.KeepsListed k := by
  cases k with
  | alloc rgid size => exact listed_alloc_iff hv h rgid size
  | free rgid =>
    obtain ⟨list, hfree⟩ := free_single hv 0 rgid
    show (c.free 0 rgid).2.mm.Listed ↔ True
    rw [hfree]
    exact iff_of_true (h.congr rfl rfl) trivial
  | read rgid offset =>
    show (c.read 0 rgid offset).2.2.mm.Listed ↔ ∀ addr, _ → _
    cases htarget : c.mm.target rgid offset with
    | none =>
      rw [read_of_target_none htarget]
      exact iff_of_true h fun addr haddr => by cases haddr
    | some addr =>
      rw [read_of_target hv htarget, mm_pgGetval, listed_pgGetpage_iff h]
      simp
  | write rgid offset value =>
    show (c.write 0 rgid offset value).2.mm.Listed ↔ ∀ addr, _ → _
    cases htarget : c.mm.target rgid offset with
    | none =>
      rw [write_of_target_none value htarget]
      exact iff_of_true h fun addr haddr => by cases haddr
    | some addr =>
      rw [write_of_target hv value htarget, mm_pgSetval, listed_pgGetpage_iff h]
      simp

end Caller

/-! ## Runs -/

variable {Pid : Type*} [DecidableEq Pid]

/-- In every run whose calls meet the condition, from a start with empty lists, the list of resident
pages of each process holds its resident pages, each once; and a further call keeps it so exactly if
it meets the condition too. -/
theorem listed_iff_keepsListed {s : MemSys Pid}
    (hs : (((callSystem Pid).startIn MemSys.NoStalePages).restrict
      fun s a => (s.caller a.1).KeepsListed a.2).Reachable s) (p : Pid) :
    (s.mm p).Listed ∧ ∀ k, ((s.call p k).mm p).Listed ↔ (s.caller p).KeepsListed k := by
  have hall : ∀ q, (∃ v, (s.mm q).mmap = [v]) ∧ (s.mm q).Listed := by
    refine hs.invariant_restrict
      (I := fun s => ∀ q, (∃ v, (s.mm q).mmap = [v]) ∧ (s.mm q).Listed) ?_ ?_
    · rintro s ⟨hinit, hfifo⟩ q
      obtain ⟨mm, freerg, hmm⟩ := hinit.mm q
      refine ⟨⟨_, by rw [hmm]; rfl⟩, ?_⟩
      unfold Mm.Listed
      rw [hfifo q, hmm]
      exact .of_empty fun n => by simp [initMm, pteResident]
    · intro s a s' h ht hok
      obtain rfl : s' = s.call a.1 a.2 := ht
      obtain ⟨⟨v, hv⟩, hlisted⟩ := h a.1
      exact MemSys.forall_call (P := fun mm => (∃ v, mm.mmap = [v]) ∧ mm.Listed) h
        ⟨a.2.run_area (c := s.caller a.1) hv,
          (Caller.listed_run_iff (c := s.caller a.1) hv hlisted a.2).mpr hok⟩
  obtain ⟨⟨v, hv⟩, hlisted⟩ := hall p
  refine ⟨hlisted, fun k => ?_⟩
  rw [MemSys.call, MemSys.mm_put_self]
  exact Caller.listed_run_iff (c := s.caller p) hv hlisted k

/-- Two allocations on a RAM of two frames, the second of which swaps out both pages of the first.
-/
theorem listed_second_alloc :
    ((((MemSys.fresh Unit 512 512).call () (.alloc 0 300)).call ()
      (.alloc 1 300)).mm ()).Listed := by
  have hstart : ((callSystem Unit).startIn MemSys.NoStalePages).start (MemSys.fresh Unit 512 512) :=
    ⟨MemSys.initial_fresh 512 512, fun _ => rfl⟩
  have hfirst : ((MemSys.fresh Unit 512 512).caller ()).KeepsListed (.alloc 0 300) := by
    intro c' hc'
    obtain rfl : _ = c' := congrArg Prod.snd hc'
    exact ⟨fun _ => by decide, fun _ => by decide⟩
  have hsecond : (((MemSys.fresh Unit 512 512).call () (.alloc 0 300)).caller ()).KeepsListed
      (.alloc 1 300) := by
    intro c' hc'
    obtain rfl : _ = c' := congrArg Prod.snd hc'
    exact ⟨fun _ => by decide +kernel, fun _ => by decide +kernel⟩
  exact (listed_iff_keepsListed (.step (.step (.start hstart) (a := ((), .alloc 0 300))
    ⟨rfl, hfirst⟩) (a := ((), .alloc 1 300)) ⟨rfl, hsecond⟩) ()).1

/-- A read behind the end of the area, without swap: page 0 is still resident and no longer on the
list. -/
theorem not_listed : ¬ ∀ s : MemSys Unit,
    ((callSystem Unit).startIn MemSys.NoStalePages).Reachable s → s.Small → (s.mm ()).Listed := by
  intro h
  have hstart : ((callSystem Unit).startIn MemSys.NoStalePages).start (MemSys.fresh Unit 256 0) :=
    ⟨MemSys.initial_fresh 256 0, fun _ => rfl⟩
  have hreached : ((callSystem Unit).startIn MemSys.NoStalePages).Reachable
      (((MemSys.fresh Unit 256 0).call () (.alloc 0 256)).call () (.read 0 1000)) :=
    .step (.step (.start hstart) (a := ((), .alloc 0 256)) rfl) (a := ((), .read 0 1000)) rfl
  have hmem := ((h _ hreached (by decide +kernel)).mem_iff 0).mpr (by decide +kernel)
  exact absurd hmem (by decide +kernel)

end Ossim
