import Ossim.Paging.System

/-!
# Requests for frames

`alloc_pages_range` takes its frames from the free list of RAM and, when that is empty, from
resident pages that it writes out to free swap frames.  `Caller.supply` counts how many frames it
can get this way, and a request succeeds exactly if it asks for no more (`allocPagesLoop_status`).

A request that fails has already changed the caller.  `inc_vma_limit` moves the end and
the break of the area before it asks for frames and moves nothing back: `failed_growth_iff` says
that a growth leaves the caller as it was on failure only if it does not fail.
-/

namespace Ossim

namespace Caller

/-- How many frames a request can get: the free ones, and one for each resident page that finds a
free swap frame. -/
def supply (c : Caller) : ℕ :=
  c.mram.freeFpList.length + min c.mm.fifoPgn.length c.activeMswp.freeFpList.length

/-! ## One turn of the loop -/

lemma length_takeTail {l list : List ℕ} {victim : ℕ} (h : takeTail l = some (victim, list)) :
    l.length = list.length + 1 := by
  rw [takeTail_eq_some.mp h, List.length_append, List.length_singleton]

/-- The state in which a page is swapped out: its page is off the resident list, the swap frame
off the free list. -/
def picked (c : Caller) (fifoPgn freeFpList : List ℕ) : Caller :=
  { c with
    mm := { c.mm with fifoPgn := fifoPgn }
    activeMswp := { c.activeMswp with freeFpList := freeFpList } }

/-- What the loop of `alloc_pages_range` does in one turn. -/
inductive Turn (n : ℕ) (frmLst : List ℕ) (c : Caller) : ℤ × List ℕ × Caller → Prop
  /-- It takes a free frame. -/
  | take (fpn : ℕ) (rest : List ℕ) (hfree : c.mram.freeFpList = fpn :: rest) :
    Turn n frmLst c (allocPagesLoop n (fpn :: frmLst)
      { c with mram := { c.mram with freeFpList := rest } })
  /-- It finds no page to swap out. -/
  | noVictim (hfree : c.mram.freeFpList = []) (hfifo : c.mm.fifoPgn = []) :
    Turn n frmLst c (c.allocPagesFail frmLst)
  /-- It finds no swap frame; the victim is off the resident list. -/
  | noSwap (victim : ℕ) (list : List ℕ) (hfree : c.mram.freeFpList = [])
    (hvictim : takeTail c.mm.fifoPgn = some (victim, list))
    (hswap : c.activeMswp.freeFpList = []) :
    Turn n frmLst c ({ c with mm := { c.mm with fifoPgn := list } }.allocPagesFail frmLst)
  /-- It swaps out a page and takes the frame decoded from its entry. -/
  | evict (victim swpfpn : ℕ) (list rest : List ℕ) (hfree : c.mram.freeFpList = [])
    (hvictim : takeTail c.mm.fifoPgn = some (victim, list))
    (hswap : c.activeMswp.freeFpList = swpfpn :: rest) :
    Turn n frmLst c (allocPagesLoop n (pagingFpn (c.mm.pgd victim) :: frmLst)
      ((c.picked list rest).evictPage victim swpfpn))

lemma allocPagesLoop_turn (n : ℕ) (frmLst : List ℕ) (c : Caller) :
    Turn n frmLst c (allocPagesLoop (n + 1) frmLst c) := by
  unfold allocPagesLoop
  split
  · next fpn mram hget =>
    obtain ⟨rest, hfree, rfl⟩ := Memphy.getFreefp_eq_some.mp hget
    exact .take fpn rest hfree
  · next hget =>
    have hfree := Memphy.getFreefp_eq_none.mp hget
    split
    · next hvic => exact .noVictim hfree (findVictimPage_eq_none.mp hvic)
    · next victim mm hvic =>
      obtain ⟨list, hvictim, rfl⟩ := findVictimPage_eq_some.mp hvic
      split
      · next hswp => exact .noSwap victim list hfree hvictim (Memphy.getFreefp_eq_none.mp hswp)
      · next swpfpn mswp hswp =>
        obtain ⟨rest, hswap, rfl⟩ := Memphy.getFreefp_eq_some.mp hswp
        exact .evict victim swpfpn list rest hfree hvictim hswap

/-! ## When a request succeeds -/

lemma supply_take {c : Caller} {fpn : ℕ} {rest : List ℕ} (hfree : c.mram.freeFpList = fpn :: rest) :
    c.supply = { c with mram := { c.mram with freeFpList := rest } }.supply + 1 := by
  simp only [supply, hfree, List.length_cons]
  omega

lemma supply_evict {c : Caller} {victim swpfpn : ℕ} {list rest : List ℕ}
    (hvictim : takeTail c.mm.fifoPgn = some (victim, list))
    (hswap : c.activeMswp.freeFpList = swpfpn :: rest) :
    c.supply = ((c.picked list rest).evictPage victim swpfpn).supply + 1 := by
  obtain ⟨hmram, hmswp⟩ := freeFpLists_eq ((c.picked list rest).freeFpList_evictPage victim swpfpn)
  have hlen := length_takeTail hvictim
  unfold supply
  rw [hmram, hmswp, mm_evictPage]
  simp only [picked, hswap, List.length_cons]
  omega

lemma allocPagesFail_status (c : Caller) (frmLst : List ℕ) :
    ((c.allocPagesFail frmLst).1 = -1 ∨ (c.allocPagesFail frmLst).1 = -3000) ∧
      (c.allocPagesFail frmLst).2.1 = [] := by
  unfold allocPagesFail
  split
  · exact ⟨.inl rfl, rfl⟩
  · exact ⟨.inr rfl, rfl⟩

/-- A request succeeds, with as many frames as it asks for, exactly if it asks for no more than the
supply. -/
lemma allocPagesLoop_status (n : ℕ) (frmLst : List ℕ) (c : Caller) :
    (n ≤ c.supply ∧ (allocPagesLoop n frmLst c).1 = 0 ∧
      (allocPagesLoop n frmLst c).2.1.length = frmLst.length + n) ∨
    (c.supply < n ∧
      ((allocPagesLoop n frmLst c).1 = -1 ∨ (allocPagesLoop n frmLst c).1 = -3000) ∧
      (allocPagesLoop n frmLst c).2.1 = []) := by
  induction n generalizing frmLst c with
  | zero => exact .inl ⟨Nat.zero_le _, rfl, rfl⟩
  | succ n ih =>
    have hturn := allocPagesLoop_turn n frmLst c
    generalize allocPagesLoop (n + 1) frmLst c = result at hturn ⊢
    cases hturn with
    | take fpn rest hfree =>
      have hsupply := supply_take hfree
      rcases ih (fpn :: frmLst) { c with mram := { c.mram with freeFpList := rest } } with
        ⟨hle, hstatus, hlen⟩ | ⟨hlt, hstatus⟩
      · exact .inl ⟨by omega, hstatus, by rw [hlen, List.length_cons]; omega⟩
      · exact .inr ⟨by omega, hstatus⟩
    | noVictim hfree hfifo =>
      have hsupply : c.supply = 0 := by simp [supply, hfree, hfifo]
      exact .inr ⟨by omega, allocPagesFail_status _ _⟩
    | noSwap victim list hfree hvictim hswap =>
      have hsupply : c.supply = 0 := by simp [supply, hfree, hswap]
      exact .inr ⟨by omega, allocPagesFail_status _ _⟩
    | evict victim swpfpn list rest hfree hvictim hswap =>
      have hsupply := supply_evict hvictim hswap
      rcases ih (pagingFpn (c.mm.pgd victim) :: frmLst)
        ((c.picked list rest).evictPage victim swpfpn) with ⟨hle, hstatus, hlen⟩ | ⟨hlt, hstatus⟩
      · exact .inl ⟨by omega, hstatus, by rw [hlen, List.length_cons]; omega⟩
      · exact .inr ⟨by omega, hstatus⟩

/-- Growing the RAM mapping of a caller maps the frames that were gathered, if the supply suffices,
and otherwise fails with what the request has done. -/
lemma vmMapRam_outcome (c : Caller) (astart aend mapstart incpgnum : ℤ) :
    (incpgnum.toNat ≤ c.supply ∧
      (allocPagesLoop incpgnum.toNat [] c).2.1.length = incpgnum.toNat ∧
      c.vmMapRam astart aend mapstart incpgnum =
        (0, { (allocPagesLoop incpgnum.toNat [] c).2.2 with
          mm := vmapPageLoop incpgnum.toNat (pagingPgn (BitVec.ofInt 32 mapstart))
            (allocPagesLoop incpgnum.toNat [] c).2.1
            (allocPagesLoop incpgnum.toNat [] c).2.2.mm })) ∨
    (c.supply < incpgnum.toNat ∧ (allocPagesLoop incpgnum.toNat [] c).2.1 = [] ∧
      c.vmMapRam astart aend mapstart incpgnum =
        (-1, (allocPagesLoop incpgnum.toNat [] c).2.2)) := by
  have hstatus := allocPagesLoop_status incpgnum.toNat [] c
  unfold vmMapRam allocPagesRange
  rcases hstatus with ⟨hle, hstatus, hlen⟩ | ⟨hlt, hstatus, hnil⟩
  · refine .inl ⟨hle, by simpa using hlen, ?_⟩
    simp [hstatus, vmapPageRange]
  · refine .inr ⟨hlt, hnil, ?_⟩
    rcases hstatus with hstatus | hstatus <;> simp [hstatus]

/-- Growing the RAM mapping of a caller succeeds exactly if the supply suffices. -/
lemma vmMapRam_status (c : Caller) (astart aend mapstart incpgnum : ℤ) :
    (incpgnum.toNat ≤ c.supply ∧ (c.vmMapRam astart aend mapstart incpgnum).1 = 0) ∨
    (c.supply < incpgnum.toNat ∧ (c.vmMapRam astart aend mapstart incpgnum).1 = -1) := by
  rcases c.vmMapRam_outcome astart aend mapstart incpgnum with ⟨hle, -, heq⟩ | ⟨hlt, -, heq⟩
  · exact .inl ⟨hle, by rw [heq]⟩
  · exact .inr ⟨hlt, by rw [heq]⟩

/-- The state in which an area grows: its end and its break have been moved. -/
def grown (c : Caller) (v : VmArea) (incSz : ℤ) : Caller :=
  { c with
    mm := { c.mm with
      mmap := [{ v with
        vmEnd := ulong (v.vmEnd + incSz)
        sbrk := ulong (v.sbrk + incSz) }] } }

/-- Growing the only area moves its bounds and then maps the pages behind the old end. -/
lemma incVmaLimit_eq {c : Caller} {v : VmArea} (hv : c.mm.mmap = [v]) (incSz : ℤ) :
    ∃ astart aend, c.incVmaLimit 0 incSz =
      ((c.grown v incSz).vmMapRam astart aend (cint v.vmEnd)
        ((pagingPageAlignsz incSz).tdiv pagingPagesz)) := by
  have hvalid := not_validateOverlap_neg hv (cint v.sbrk) (cint (ulong (v.sbrk + incSz)))
  refine ⟨cint v.sbrk, cint (ulong (v.sbrk + incSz)), ?_⟩
  unfold incVmaLimit growArea getVmAreaNodeAtBrk
  simp only [curVma_single hv, setCurVma_single hv, hvalid, if_false]
  have hmap := vmMapRam_status (c.grown v incSz) (cint v.sbrk) (cint (ulong (v.sbrk + incSz)))
    (cint v.vmEnd) ((pagingPageAlignsz incSz).tdiv pagingPagesz)
  unfold grown at hmap ⊢
  generalize vmMapRam _ _ _ _ _ = mapped at hmap ⊢
  obtain ⟨ret, c'⟩ := mapped
  dsimp only at hmap ⊢
  rcases hmap with ⟨-, rfl⟩ | ⟨-, rfl⟩
  · rfl
  · rfl

end Caller

/-! ## Failed growth -/

/-- The limits of all areas, the page tables, the resident and the free lists, and the contents of
all mapped pages are the same. -/
structure MemSys.Unchanged {Pid : Type*} (s s' : MemSys Pid) : Prop where
  /-- The ends and the breaks of the areas. -/
  limits : ∀ p, (s'.mm p).mmap.map (fun v => (v.vmEnd, v.sbrk)) =
    (s.mm p).mmap.map fun v => (v.vmEnd, v.sbrk)
  /-- The page tables. -/
  pgd : ∀ p, (s'.mm p).pgd = (s.mm p).pgd
  /-- The lists of resident pages. -/
  fifoPgn : ∀ p, (s'.mm p).fifoPgn = (s.mm p).fifoPgn
  /-- The free frames of RAM. -/
  ramFree : s'.mram.freeFpList = s.mram.freeFpList
  /-- The free frames of swap. -/
  swapFree : s'.activeMswp.freeFpList = s.activeMswp.freeFpList
  /-- The bytes of the pages in RAM. -/
  ramContent : ∀ p n, pteResident ((s.mm p).pgd n) = true → ∀ i < pagingPagesz,
    s'.mram.storage (Caller.phyaddr (recordedFpn ((s.mm p).pgd n)) i) =
      s.mram.storage (Caller.phyaddr (recordedFpn ((s.mm p).pgd n)) i)
  /-- The bytes of the pages in swap. -/
  swapContent : ∀ p n, pteSwapped ((s.mm p).pgd n) = true → ∀ i < pagingPagesz,
    s'.activeMswp.storage (Caller.phyaddr (recordedSwpoff ((s.mm p).pgd n)) i) =
      s.activeMswp.storage (Caller.phyaddr (recordedSwpoff ((s.mm p).pgd n)) i)

namespace Caller

/-- Less than a page is no page. -/
lemma tdiv_pagesz_nonpos {x : ℤ} (h : x < 256) : x.tdiv 256 ≤ 0 :=
  Int.tdiv_le_tdiv (b := 255) (by decide) (by omega)

/-- A growth that maps a page is a positive one. -/
lemma pos_of_grownPages {incSz : Word} (h : 0 < grownPages incSz.toInt) :
    1 ≤ incSz.toInt ∧ incSz.toInt < 2 ^ 31 := by
  have hlo := BitVec.two_mul_toInt_lt (x := incSz)
  have hhi := BitVec.le_two_mul_toInt (x := incSz)
  refine ⟨?_, by omega⟩
  by_contra hneg
  have hcint : cint (incSz.toInt + 256 - 1) = incSz.toInt + 255 :=
    (cint_of_mem (by omega) (by omega)).trans (by omega)
  have hzero : pagingPageAlignsz incSz.toInt ≤ 0 := by
    unfold pagingPageAlignsz
    rw [pagingPagesz_cast, hcint]
    have hpages := tdiv_pagesz_nonpos (x := incSz.toInt + 255) (by omega)
    omega
  have hpages := tdiv_pagesz_nonpos (x := pagingPageAlignsz incSz.toInt) (by omega)
  unfold grownPages at h
  rw [pagingPagesz_cast] at h
  omega

/-- A growth by the only area fails exactly if it asks for more than the supply, and then the
end of the area has been moved. -/
lemma incVmaLimit_status {c : Caller} {v : VmArea} (hv : c.mm.mmap = [v]) (incSz : Word) :
    (grownPages incSz.toInt ≤ c.supply ∧ (c.incVmaLimit 0 incSz.toInt).1 = 0) ∨
    (c.supply < grownPages incSz.toInt ∧ (c.incVmaLimit 0 incSz.toInt).1 = -1 ∧
      ∃ v', (c.incVmaLimit 0 incSz.toInt).2.mm.mmap = [v'] ∧ v'.vmEnd ≠ v.vmEnd) := by
  have hmoved := (incVmaLimit_single hv incSz.toInt).mmap
  have hsupply : (c.grown v incSz.toInt).supply = c.supply := rfl
  obtain ⟨astart, aend, heq⟩ := incVmaLimit_eq hv incSz.toInt
  have hmap := vmMapRam_status (c.grown v incSz.toInt) astart aend (cint v.vmEnd)
    ((pagingPageAlignsz incSz.toInt).tdiv pagingPagesz)
  rw [hsupply, ← heq] at hmap
  rcases hmap with ⟨hle, hstatus⟩ | ⟨hlt, hstatus⟩
  · exact .inl ⟨hle, hstatus⟩
  · refine .inr ⟨hlt, hstatus, _, hmoved, ?_⟩
    have hpos : 0 < grownPages incSz.toInt := (Nat.zero_le _).trans_lt hlt
    obtain ⟨hlo, hhi⟩ := pos_of_grownPages hpos
    have hul : (ulong (v.vmEnd + incSz.toInt) : ℤ) = (v.vmEnd + incSz.toInt) % 2 ^ 64 := by
      unfold ulong
      omega
    dsimp only
    omega

end Caller

/-- A failed growth of process `p` leaves everything as it was exactly if the supply of frames
suffices, in which case it does not fail. -/
theorem failed_growth_iff {Pid : Type*} [DecidableEq Pid] {s : MemSys Pid}
    (hs : (callSystem Pid).Reachable s) (p : Pid) (incSz : Word) :
    (((s.caller p).incVmaLimit 0 incSz.toInt).1 = -1 →
      s.Unchanged (s.put p ((s.caller p).incVmaLimit 0 incSz.toInt).2)) ↔
    Caller.grownPages incSz.toInt ≤ (s.caller p).supply := by
  obtain ⟨v, hv⟩ := area_of_reachable hs p
  rcases Caller.incVmaLimit_status (c := s.caller p) hv incSz with
    ⟨hle, hstatus⟩ | ⟨hlt, hstatus, v', hv', hmoved⟩
  · rw [hstatus]
    exact iff_of_true (fun h => absurd h (by decide)) hle
  · refine iff_of_false (fun h => hmoved ?_) (by omega)
    have hlimits := (h hstatus).limits p
    rw [MemSys.mm_put_self, hv', hv] at hlimits
    simp only [List.map_cons, List.map_nil, List.cons.injEq, Prod.mk.injEq, and_true] at hlimits
    exact hlimits.1

/-- A growth by two pages meets a supply of four frames. -/
theorem failed_growth_two_pages :
    Caller.grownPages (300#32).toInt ≤ ((MemSys.fresh Unit 1024 0).caller ()).supply ∧
      ((((MemSys.fresh Unit 1024 0).caller ()).incVmaLimit 0 (300#32).toInt).1 = -1 →
        (MemSys.fresh Unit 1024 0).Unchanged ((MemSys.fresh Unit 1024 0).put ()
          (((MemSys.fresh Unit 1024 0).caller ()).incVmaLimit 0 (300#32).toInt).2)) := by
  have hsupply : Caller.grownPages (300#32).toInt ≤
      ((MemSys.fresh Unit 1024 0).caller ()).supply := by decide
  exact ⟨hsupply, (failed_growth_iff (.start (MemSys.initial_fresh 1024 0)) () 300#32).mpr hsupply⟩

/-- A growth by two pages of a process that has a single frame fails with the area moved. -/
theorem failed_growth_moves_area :
    ¬ ∀ s : MemSys Unit, (callSystem Unit).Reachable s → ∀ p (incSz : Word),
      ((s.caller p).incVmaLimit 0 incSz.toInt).1 = -1 →
      s.Unchanged (s.put p ((s.caller p).incVmaLimit 0 incSz.toInt).2) := by
  intro h
  have hsame := h _ (.start (MemSys.initial_fresh 256 0)) () 512#32 (by decide)
  exact absurd (hsame.limits ()) (by decide)

end Ossim
