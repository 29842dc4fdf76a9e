import Ossim.Paging.Faults
import Ossim.Paging.Regions

/-!
# The address space of a process

Which pages of a process are mapped, and how its area and its regions lie in the address space.

`MapsPages lo hi` says what a call may do to the page table when it maps the pages `lo .. hi - 1`:
no page loses its present bit, and a page that gains it lies in that range or was on the resident
list.  `Laid` is the invariant of an address space in which nothing has overflowed: a
single area of whole pages below 4 MB, with all regions inside.  An allocation keeps it as long as
there is room for it (`Laid.alloc`).

`__alloc` does not look for room.  `limitHolds_iff` says for which sizes the address space limit
holds: a size that is a positive `int` and either fits a free region or ends below 4 MB.
-/

namespace Ossim

/-! ## Mapped pages -/

/-- What mapping the pages `lo .. hi - 1` may do to the page table and to the resident list. -/
structure MapsPages (lo hi : ℕ) (mm mm' : Mm) : Prop where
  /-- No page loses its present bit. -/
  keep : ∀ n, pagingPagePresent (mm.pgd n) = true → pagingPagePresent (mm'.pgd n) = true
  /-- A page that gains the bit is in the range or was resident. -/
  only : ∀ n, pagingPagePresent (mm'.pgd n) = true →
    pagingPagePresent (mm.pgd n) = true ∨ n ∈ mm.fifoPgn ∨ lo ≤ n ∧ n < hi
  /-- A page that becomes resident is in the range. -/
  fifo : ∀ n ∈ mm'.fifoPgn, n ∈ mm.fifoPgn ∨ lo ≤ n ∧ n < hi
  /-- An entry that changes has the bit afterwards. -/
  entry : ∀ n, mm'.pgd n = mm.pgd n ∨ pagingPagePresent (mm'.pgd n) = true

namespace MapsPages

variable {lo hi : ℕ} {mm mm' mm'' : Mm}

/-- The same page table and fewer resident pages. -/
lemma of_subset (hpgd : mm'.pgd = mm.pgd) (hfifo : ∀ n ∈ mm'.fifoPgn, n ∈ mm.fifoPgn) :
    MapsPages lo hi mm mm' where
  keep n h := by rwa [hpgd]
  only n h := .inl (by rwa [hpgd] at h)
  fifo n h := .inl (hfifo n h)
  entry n := .inl (by rw [hpgd])

lemma refl (mm : Mm) : MapsPages lo hi mm mm := .of_subset rfl fun _ h => h

lemma trans (h : MapsPages lo hi mm mm') (h' : MapsPages lo hi mm' mm'') :
    MapsPages lo hi mm mm'' where
  keep n hn := h'.keep n (h.keep n hn)
  only n hn := by
    rcases h'.only n hn with hn | hn | hn
    · exact h.only n hn
    · exact .inr (h.fifo n hn)
    · exact .inr (.inr hn)
  fifo n hn := by
    rcases h'.fifo n hn with hn | hn
    · exact h.fifo n hn
    · exact .inr hn
  entry n := by
    rcases h'.entry n with hn | hn
    · rw [hn]
      exact h.entry n
    · exact .inr hn

/-- The range may be larger. -/
lemma mono {lo' hi' : ℕ} (h : MapsPages lo hi mm mm')
    (hsub : ∀ n, lo ≤ n ∧ n < hi → lo' ≤ n ∧ n < hi') :
    MapsPages lo' hi' mm mm' where
  keep := h.keep
  only n hn := (h.only n hn).imp_right (Or.imp_right (hsub n))
  fifo n hn := (h.fifo n hn).imp_right (hsub n)
  entry := h.entry

/-- A page gets a new entry that is present. -/
lemma of_update {n : ℕ} {pte : Word} (hpte : pagingPagePresent pte = true)
    (hpgd : mm'.pgd = Function.update mm.pgd n pte) (hn : n ∈ mm.fifoPgn ∨ lo ≤ n ∧ n < hi)
    (hfifo : ∀ m ∈ mm'.fifoPgn, m ∈ mm.fifoPgn ∨ lo ≤ m ∧ m < hi) : MapsPages lo hi mm mm' where
  keep m hm := by
    rw [hpgd]
    by_cases h : m = n
    · rwa [h, Function.update_self]
    · rwa [Function.update_of_ne h]
  only m hm := by
    rw [hpgd] at hm
    by_cases h : m = n
    · exact .inr (h ▸ hn)
    · rw [Function.update_of_ne h] at hm
      exact .inl hm
  fifo := hfifo
  entry m := by
    rw [hpgd]
    by_cases h : m = n
    · exact .inr (by rwa [h, Function.update_self])
    · exact .inl (Function.update_of_ne h _ _)

end MapsPages

/-- The page taken off the resident list was on it, and so were the others. -/
lemma mem_of_takeTail {l list : List ℕ} {victim : ℕ} (h : takeTail l = some (victim, list)) :
    victim ∈ l ∧ ∀ n ∈ list, n ∈ l := by
  rw [Caller.takeTail_eq_some.mp h]
  exact ⟨List.mem_append_right _ (List.mem_singleton_self victim),
    fun n hn => List.mem_append_left _ hn⟩

namespace Caller

variable {lo hi : ℕ}

/-- Swapping a page out. -/
lemma mapsPages_evict {c : Caller} {victim swpfpn : ℕ} {list rest : List ℕ}
    (hvictim : takeTail c.mm.fifoPgn = some (victim, list)) :
    MapsPages lo hi c.mm ((c.picked list rest).evictPage victim swpfpn).mm := by
  obtain ⟨hv, hlist⟩ := mem_of_takeTail hvictim
  rw [mm_evictPage]
  exact .of_update (pagingPagePresent_pteSetSwap _ 0 swpfpn) rfl (.inl hv)
    fun n hn => .inl (hlist n hn)

/-- Gathering frames maps nothing. -/
lemma mapsPages_allocPagesLoop (n : ℕ) (frmLst : List ℕ) (c : Caller) :
    MapsPages lo hi c.mm (allocPagesLoop n frmLst c).2.2.mm := by
  induction n generalizing frmLst c with
  | zero => exact .refl c.mm
  | succ n ih =>
    have hturn := allocPagesLoop_turn n frmLst c
    generalize allocPagesLoop (n + 1) frmLst c = result at hturn ⊢
    cases hturn with
    | take fpn rest hfree =>
      exact ih (fpn :: frmLst) { c with mram := { c.mram with freeFpList := rest } }
    | noVictim hfree hfifo =>
      rw [allocPagesFail_caller]
      exact .refl c.mm
    | noSwap victim list hfree hvictim hswap =>
      rw [allocPagesFail_caller]
      exact .of_subset rfl (mem_of_takeTail hvictim).2
    | evict victim swpfpn list rest hfree hvictim hswap =>
      exact (mapsPages_evict hvictim).trans (ih _ _)

/-- Mapping pages, as many as there are frames. -/
lemma mapsPages_vmapPageLoop (n pgn : ℕ) (frames : List ℕ) (mm : Mm) (hlen : frames.length = n) :
    MapsPages pgn (pgn + n) mm (vmapPageLoop n pgn frames mm) ∧
      ∀ m, pgn ≤ m → m < pgn + n →
        pagingPagePresent ((vmapPageLoop n pgn frames mm).pgd m) = true := by
  induction n generalizing pgn frames mm with
  | zero => exact ⟨.refl mm, fun m hlo hhi => by omega⟩
  | succ n ih =>
    obtain ⟨fpn, frames, rfl⟩ := List.exists_cons_of_length_eq_add_one hlen
    obtain ⟨hrest, hall⟩ := ih (pgn + 1) frames
      { mm with
        pgd := Function.update mm.pgd pgn (pteSetFpn (mm.pgd pgn) fpn)
        fifoPgn := enlistPgnNode mm.fifoPgn pgn } (by simpa using hlen)
    have hfirst : MapsPages pgn (pgn + (n + 1)) mm
        { mm with
          pgd := Function.update mm.pgd pgn (pteSetFpn (mm.pgd pgn) fpn)
          fifoPgn := enlistPgnNode mm.fifoPgn pgn } := by
      refine .of_update (pagingPagePresent_pteSetFpn _ fpn) rfl (.inr (by omega)) fun m hm => ?_
      rcases List.mem_cons.mp hm with rfl | hm
      · exact .inr (by omega)
      · exact .inl hm
    refine ⟨hfirst.trans (hrest.mono fun m hm => by omega), fun m hlo hhi => ?_⟩
    unfold vmapPageLoop
    by_cases hm : m = pgn
    · subst hm
      exact hrest.keep m (by simp)
    · exact hall m (by omega) (by omega)

/-- Growing the RAM mapping: nothing is mapped outside the range, and on success all of the range
is. -/
lemma mapsPages_vmMapRam (c : Caller) (astart aend mapstart incpgnum : ℤ) :
    MapsPages (pagingPgn (BitVec.ofInt 32 mapstart))
      (pagingPgn (BitVec.ofInt 32 mapstart) + incpgnum.toNat) c.mm
      (c.vmMapRam astart aend mapstart incpgnum).2.mm ∧
    (incpgnum.toNat ≤ c.supply → ∀ n, pagingPgn (BitVec.ofInt 32 mapstart) ≤ n →
      n < pagingPgn (BitVec.ofInt 32 mapstart) + incpgnum.toNat →
      pagingPagePresent ((c.vmMapRam astart aend mapstart incpgnum).2.mm.pgd n) = true) := by
  have hgather : MapsPages (pagingPgn (BitVec.ofInt 32 mapstart))
      (pagingPgn (BitVec.ofInt 32 mapstart) + incpgnum.toNat) c.mm
      (allocPagesLoop incpgnum.toNat [] c).2.2.mm := mapsPages_allocPagesLoop _ _ _
  rcases c.vmMapRam_outcome astart aend mapstart incpgnum with
    ⟨hle, hlen, heq⟩ | ⟨hlt, -, heq⟩
  · obtain ⟨hmap, hall⟩ := mapsPages_vmapPageLoop incpgnum.toNat
      (pagingPgn (BitVec.ofInt 32 mapstart)) (allocPagesLoop incpgnum.toNat [] c).2.1
      (allocPagesLoop incpgnum.toNat [] c).2.2.mm hlen
    rw [heq]
    exact ⟨hgather.trans hmap, fun _ => hall⟩
  · rw [heq]
    exact ⟨hgather, fun hle => absurd hle (by omega)⟩

/-- Growing the only area, with the supply that decides whether it succeeds. -/
lemma mapsPages_incVmaLimit {c : Caller} {v : VmArea} (hv : c.mm.mmap = [v]) (incSz : ℤ) :
    MapsPages (firstGrownPage v) (firstGrownPage v + grownPages incSz) c.mm
      (c.incVmaLimit 0 incSz).2.mm ∧
    (grownPages incSz ≤ c.supply → ∀ n, firstGrownPage v ≤ n →
      n < firstGrownPage v + grownPages incSz →
      pagingPagePresent ((c.incVmaLimit 0 incSz).2.mm.pgd n) = true) := by
  obtain ⟨astart, aend, heq⟩ := incVmaLimit_eq hv incSz
  obtain ⟨hmap, hall⟩ := mapsPages_vmMapRam (c.grown v incSz) astart aend (cint v.vmEnd)
    ((pagingPageAlignsz incSz).tdiv pagingPagesz)
  rw [heq]
  have hgrown : MapsPages (firstGrownPage v) (firstGrownPage v + grownPages incSz) c.mm
      (c.grown v incSz).mm := .of_subset rfl fun _ h => h
  exact ⟨hgrown.trans hmap, hall⟩

/-- Bringing a page to RAM maps that page at most. -/
lemma mapsPages_pgGetpage (c : Caller) (pgn : ℕ) :
    MapsPages pgn (pgn + 1) c.mm (c.pgGetpage pgn).2.mm := by
  have houtcome := c.pgGetpage_outcome pgn
  generalize c.pgGetpage pgn = result at houtcome ⊢
  cases houtcome with
  | present => exact .refl c.mm
  | noVictim => exact .refl c.mm
  | noSwap victim list habsent hvictim => exact .of_subset rfl (mem_of_takeTail hvictim).2
  | exchange victim swpfpn list rest habsent hvictim =>
    obtain ⟨hmem, hlist⟩ := mem_of_takeTail hvictim
    have hout : MapsPages pgn (pgn + 1) c.mm
        { c.mm with
          pgd := Function.update c.mm.pgd victim (pteSetSwap (c.mm.pgd victim) 0 swpfpn)
          fifoPgn := list } :=
      .of_update (pagingPagePresent_pteSetSwap _ 0 swpfpn) rfl (.inl hmem)
        fun n hn => .inl (hlist n hn)
    rw [mm_pageIn]
    refine hout.trans (.of_update (pagingPagePresent_pteSetFpn _ _) rfl (.inr (by omega))
      fun n hn => ?_)
    rcases List.mem_cons.mp hn with rfl | hn
    · exact .inr (by omega)
    · exact .inl hn

/-- Reading a byte. -/
lemma mm_pgGetval (c : Caller) (addr : Word) :
    (c.pgGetval addr).2.2.mm = (c.pgGetpage (pagingPgn addr)).2.mm := by
  unfold pgGetval
  dsimp only
  split <;> simp_all

/-- Writing a byte. -/
lemma mm_pgSetval (c : Caller) (addr : Word) (value : Byte) :
    (c.pgSetval addr value).2.mm = (c.pgGetpage (pagingPgn addr)).2.mm := by
  unfold pgSetval
  dsimp only
  split <;> simp_all

end Caller

/-- What an access may do to a process: it brings the page of its target to RAM. -/
structure AccessMaps (mm mm' : Mm) (rgid offset : ℤ) : Prop where
  /-- The areas stay. -/
  mmap : mm'.mmap = mm.mmap
  /-- The symbols stay. -/
  symrgtbl : mm'.symrgtbl = mm.symrgtbl
  /-- Nothing is mapped but the page of the target. -/
  pages : mm' = mm ∨ ∃ addr, mm.target rgid offset = some addr ∧
    MapsPages (pagingPgn addr) (pagingPgn addr + 1) mm mm'

namespace Caller

lemma symrgtbl_pgGetpage (c : Caller) (pgn : ℕ) :
    (c.pgGetpage pgn).2.mm.symrgtbl = c.mm.symrgtbl := by
  have houtcome := c.pgGetpage_outcome pgn
  generalize c.pgGetpage pgn = result at houtcome ⊢
  cases houtcome with
  | present => rfl
  | noVictim => rfl
  | noSwap => rfl
  | exchange =>
    rw [mm_pageIn]
    rfl

lemma accessMaps_pgGetpage {c : Caller} {rgid offset : ℤ} {addr : Word}
    (htarget : c.mm.target rgid offset = some addr) :
    AccessMaps c.mm (c.pgGetpage (pagingPgn addr)).2.mm rgid offset where
  mmap := (c.pgGetpage_frame _).1
  symrgtbl := c.symrgtbl_pgGetpage _
  pages := .inr ⟨addr, htarget, c.mapsPages_pgGetpage _⟩

lemma accessMaps_read (c : Caller) (vmaid rgid offset : ℤ) :
    AccessMaps c.mm (c.read vmaid rgid offset).2.2.mm rgid offset :=
  read_keeps (P := fun c' => AccessMaps c.mm c'.mm rgid offset) ⟨rfl, rfl, .inl rfl⟩
    (fun _ htarget => accessMaps_pgGetpage htarget) fun _ _ h => h

lemma accessMaps_write (c : Caller) (vmaid rgid offset : ℤ) (value : Byte) :
    AccessMaps c.mm (c.write vmaid rgid offset value).2.mm rgid offset :=
  write_keeps (P := fun c' => AccessMaps c.mm c'.mm rgid offset) ⟨rfl, rfl, .inl rfl⟩
    (fun _ htarget => accessMaps_pgGetpage htarget) fun _ _ h => h

end Caller

/-! ## Address spaces in which nothing overflowed -/

/-- A single area of whole pages below 4 MB, with all regions inside. -/
structure Laid (mm : Mm) (v : VmArea) : Prop where
  /-- The only area. -/
  mmap : mm.mmap = [v]
  /-- The break is at the end. -/
  sbrk : v.sbrk = v.vmEnd
  /-- The area consists of whole pages. -/
  aligned : pagingPagesz ∣ v.vmEnd
  /-- It ends below 4 MB. -/
  small : v.vmEnd ≤ 2 ^ 22
  /-- The free regions lie in it. -/
  free : ∀ rg ∈ v.vmFreergList, rg.Below v.vmEnd
  /-- The entries of the symbol table lie in it. -/
  sym : ∀ r, (mm.symrgtbl r).Below v.vmEnd

lemma Laid.congr {mm mm' : Mm} {v : VmArea} (h : Laid mm v) (hmmap : mm'.mmap = mm.mmap)
    (hsym : mm'.symrgtbl = mm.symrgtbl) : Laid mm' v :=
  ⟨hmmap.trans h.mmap, h.sbrk, h.aligned, h.small, h.free, hsym ▸ h.sym⟩

/-- Pages that growing the area maps, when it stays below 4 MB: those between its two ends. -/
lemma mem_grown_iff {v : VmArea} {incSz : ℕ} (haligned : pagingPagesz ∣ v.vmEnd)
    (hdvd : pagingPagesz ∣ incSz) (hend : v.vmEnd + incSz ≤ 2 ^ 22) (n : ℕ) :
    Caller.firstGrownPage v ≤ n ∧ n < Caller.firstGrownPage v + Caller.grownPages incSz ↔
      v.vmEnd / pagingPagesz ≤ n ∧ n < (v.vmEnd + incSz) / pagingPagesz := by
  rw [pagingPagesz_eq] at haligned hdvd ⊢
  have hround : pagingPageAlignsz (incSz : ℤ) = ((incSz : ℤ) + 255) / 256 * 256 :=
    Caller.pagingPageAlignsz_of_nonneg (by omega) (by omega)
  have hpages : Caller.grownPages incSz = incSz / 256 := by
    unfold Caller.grownPages
    rw [hround, pagingPagesz_cast,
      Int.tdiv_eq_ediv_of_nonneg (by omega)]
    omega
  have hfirst : v.vmEnd < 2 ^ 22 → Caller.firstGrownPage v = v.vmEnd / 256 := by
    intro hlt
    unfold Caller.firstGrownPage
    rw [cint_of_mem (by omega) (by omega), pagingPgn_eq, BitVec.toNat_ofInt]
    omega
  rcases Nat.eq_zero_or_pos incSz with rfl | hpos
  · rw [hpages]
    omega
  · rw [hpages, hfirst (by omega)]
    omega

namespace Caller

/-- A free region of the process fits. -/
def Fits (c : Caller) (size : ℤ) : Prop :=
  (firstFit size (c.mm.curVma 0).vmFreergList).isSome = true

instance (c : Caller) (size : ℤ) : Decidable (c.Fits size) := inferInstanceAs (Decidable (_ = true))

/-- There is room for `size` bytes: in a free region, or behind the area and below 4 MB. -/
def RoomFor (c : Caller) (size : ℤ) : Prop :=
  0 ≤ size ∧ size < 2 ^ 31 ∧ (c.Fits size ∨ (c.mm.curVma 0).vmEnd + size ≤ 2 ^ 22)

instance (c : Caller) (size : ℤ) : Decidable (c.RoomFor size) :=
  inferInstanceAs (Decidable (_ ∧ _ ∧ _))

/-- What an allocation of `size` bytes gives when there is room for them. -/
structure Gives (c c' : Caller) (v v' : VmArea) (rgid size : ℤ) : Prop where
  /-- The address space is as it should be. -/
  laid : Laid c'.mm v'
  /-- The new region is in the area. -/
  region : ∃ a, c'.mm.symrgtbl rgid = ⟨a, a + size.toNat⟩ ∧ a + size.toNat ≤ v'.vmEnd
  /-- The area does not shrink. -/
  le : v.vmEnd ≤ v'.vmEnd
  /-- The new pages of the area, and no others, are mapped. -/
  maps : MapsPages (v.vmEnd / pagingPagesz) (v'.vmEnd / pagingPagesz) c.mm c'.mm
  /-- They are mapped if there are enough frames. -/
  backed : c.Fits size ∨ grownPages (pagingPageAlignsz size) ≤ c.supply →
    ∀ n, v.vmEnd / pagingPagesz ≤ n → n < v'.vmEnd / pagingPagesz →
      pagingPagePresent (c'.mm.pgd n) = true

/-- A free region is cut. -/
lemma gives_of_fits {c : Caller} {v : VmArea} (h : Laid c.mm v) {size : ℤ} (hlo : 0 ≤ size)
    (hhi : size < 2 ^ 31) {newrg : VmRg} {list : List VmRg}
    (hfit : firstFit size v.vmFreergList = some (newrg, list)) (rgid : ℤ) :
    ∃ v', Gives c (c.alloc 0 rgid size).2.2 v v' rgid size := by
  obtain ⟨⟨rg, hrg, rfl, hfits⟩, -, hrest⟩ :=
    firstFit_eq_some hlo hhi (fun rg h' => (h.free rg h').1) hfit
  have hsmall := h.small
  have hbelow := h.free rg hrg
  rw [alloc_of_fits h.mmap hfit hbelow.1 rgid]
  refine ⟨{ v with vmFreergList := list }, ⟨rfl, h.sbrk, h.aligned, h.small, ?_, ?_⟩,
    ⟨rg.rgStart, Function.update_self _ _ _, hfits.trans hbelow.2⟩, le_rfl, .of_subset rfl
    fun _ hn => hn, fun _ n hlo' hhi' => absurd hhi' (not_lt.mpr hlo')⟩
  · intro rg' h'
    obtain ⟨rg₀, hmem, hend, hstart⟩ := hrest rg' h'
    exact (h.free rg₀ hmem).of_rest (by omega) hend hstart
  · intro r
    dsimp only
    by_cases hr : r = rgid
    · subst hr
      rw [Function.update_self]
      exact ⟨hbelow.1, hfits.trans hbelow.2⟩
    · rw [Function.update_of_ne hr]
      exact h.sym r

/-- The area grows. -/
lemma gives_of_not_fits {c : Caller} {v : VmArea} (h : Laid c.mm v) {size : ℤ} (hlo : 0 ≤ size)
    (hend : v.vmEnd + size ≤ 2 ^ 22) (hfit : firstFit size v.vmFreergList = none) (rgid : ℤ) :
    ∃ v', Gives c (c.alloc 0 rgid size).2.2 v v' rgid size := by
  have haligned := h.aligned
  rw [pagingPagesz_eq] at haligned
  have hround := pagingPageAlignsz_of_nonneg hlo (by omega)
  obtain ⟨incSz, hinc⟩ : ∃ incSz : ℕ, pagingPageAlignsz size = incSz :=
    ⟨(pagingPageAlignsz size).toNat, by omega⟩
  have hdvd : pagingPagesz ∣ incSz := by
    rw [pagingPagesz_eq]
    omega
  have hsmall : v.vmEnd + incSz ≤ 2 ^ 22 := by omega
  have hpages := mem_grown_iff h.aligned hdvd hsmall
  obtain ⟨hmap, hall⟩ := mapsPages_incVmaLimit h.mmap (incSz : ℤ)
  have hsize : size.toNat ≤ incSz := by omega
  rw [alloc_of_not_fits h.mmap h.sbrk hlo (by omega) hinc (by omega) hfit rgid]
  generalize (c.incVmaLimit 0 incSz).2 = c' at hmap hall ⊢
  refine ⟨grownArea v size.toNat incSz, ⟨rfl, rfl, Nat.dvd_add h.aligned hdvd, hsmall, ?_, ?_⟩,
    ⟨v.vmEnd, Function.update_self _ _ _, Nat.add_le_add_left hsize _⟩,
    Nat.le_add_right _ _, ?_, fun hok n hlo' hhi' => ?_⟩
  · have hfree : ∀ rg ∈ v.vmFreergList, rg.Below (v.vmEnd + incSz) := fun rg hrg =>
      (h.free rg hrg).mono (Nat.le_add_right _ _)
    exact fun rg hrg => below_grownArea hfree le_rfl (by omega) hrg
  · intro r
    dsimp only
    by_cases hr : r = rgid
    · subst hr
      rw [Function.update_self]
      have hstart : v.vmEnd < 2 ^ 63 := by omega
      exact ⟨hstart, Nat.add_le_add_left hsize _⟩
    · rw [Function.update_of_ne hr]
      exact (h.sym r).mono (Nat.le_add_right _ _)
  · exact (hmap.mono fun n hn => (hpages n).mp hn).trans (.of_subset rfl fun _ hn => hn)
  · have hsupply : grownPages incSz ≤ c.supply := by
      rcases hok with hok | hok
      · rw [Fits, curVma_single h.mmap, hfit] at hok
        simp at hok
      · rwa [hinc] at hok
    obtain ⟨hlo', hhi'⟩ := (hpages n).mpr ⟨hlo', hhi'⟩
    exact hall hsupply n hlo' hhi'

/-- An allocation for which there is room. -/
lemma gives_of_room {c : Caller} {v : VmArea} (h : Laid c.mm v) {size : ℤ}
    (hroom : c.RoomFor size) (rgid : ℤ) :
    ∃ v', Gives c (c.alloc 0 rgid size).2.2 v v' rgid size := by
  obtain ⟨hlo, hhi, hfits⟩ := hroom
  rw [Fits, curVma_single h.mmap] at hfits
  cases hfit : firstFit size v.vmFreergList with
  | some found => exact gives_of_fits h hlo hhi hfit rgid
  | none =>
    rw [hfit] at hfits
    exact gives_of_not_fits h hlo (by simpa using hfits) hfit rgid

/-- Freeing a region id. -/
lemma laid_free {c : Caller} {v : VmArea} (h : Laid c.mm v) (vmaid rgid : ℤ) :
    ∃ v', Laid (c.free vmaid rgid).2.mm v' ∧ v'.vmEnd = v.vmEnd ∧
      (c.free vmaid rgid).2.mm.pgd = c.mm.pgd ∧
      (c.free vmaid rgid).2.mm.fifoPgn = c.mm.fifoPgn := by
  by_cases hvalid : rgid < 0 ∨ rgid > pagingMaxSymtblSz
  · have hsame : (c.free vmaid rgid).2 = c := by
      unfold free
      rw [if_pos hvalid]
    rw [hsame]
    exact ⟨v, h, rfl, rfl, rfl⟩
  · rw [free_of_valid h.mmap vmaid (by omega) (by omega)]
    refine ⟨_, ⟨rfl, h.sbrk, h.aligned, h.small, fun rg hrg => ?_, h.sym⟩, rfl, rfl, rfl⟩
    dsimp only at hrg ⊢
    split at hrg
    · exact h.free rg hrg
    · rcases List.mem_cons.mp hrg with rfl | hrg
      · exact h.sym rgid
      · exact h.free rg hrg

/-! ## What `vmap_page_range` writes -/

/-- The page numbers whose entries `vmap_page_range` sets when the RAM mapping grows. -/
def vmMapRamWrites (c : Caller) (mapstart incpgnum : ℤ) : List ℕ :=
  if (c.allocPagesRange incpgnum []).1 < 0 then []
  else List.range' (pagingPgn (BitVec.ofInt 32 mapstart)) incpgnum.toNat

/-- They are all new pages if the supply suffices, and none otherwise. -/
lemma vmMapRamWrites_eq (c : Caller) (mapstart incpgnum : ℤ) :
    c.vmMapRamWrites mapstart incpgnum =
      if incpgnum.toNat ≤ c.supply then
        List.range' (pagingPgn (BitVec.ofInt 32 mapstart)) incpgnum.toNat
      else [] := by
  unfold vmMapRamWrites allocPagesRange
  rcases allocPagesLoop_status incpgnum.toNat [] c with ⟨hle, hzero, -⟩ | ⟨hlt, hfail, -⟩
  · rw [hzero, if_neg (by decide), if_pos hle]
  · have hneg : (allocPagesLoop incpgnum.toNat [] c).1 < 0 := by
      rcases hfail with hfail | hfail <;> rw [hfail] <;> decide
    rw [if_pos hneg, if_neg (by omega)]

/-- Those of a growth of an area. -/
def incVmaLimitWrites (c : Caller) (vmaid incSz : ℤ) : List ℕ :=
  let area := c.getVmAreaNodeAtBrk vmaid incSz (pagingPageAlignsz incSz)
  if c.validateOverlapVmArea vmaid (cint area.rgStart) (cint area.rgEnd) < 0 then []
  else (c.growArea vmaid incSz).vmMapRamWrites (cint (c.mm.curVma vmaid).vmEnd)
    ((pagingPageAlignsz incSz).tdiv pagingPagesz)

/-- Those of an allocation. -/
def allocWrites (c : Caller) (vmaid size : ℤ) : List ℕ :=
  match c.getFreeVmrgArea vmaid size with
  | (some _, _) => []
  | (none, c) => c.incVmaLimitWrites vmaid (pagingPageAlignsz size)

/-- An entry that changes is one of these, or the page was swapped out for a frame. -/
lemma pgd_vmMapRam (c : Caller) (astart aend mapstart incpgnum : ℤ) (n : ℕ) :
    (c.vmMapRam astart aend mapstart incpgnum).2.mm.pgd n = c.mm.pgd n ∨
      pteSwapped ((c.vmMapRam astart aend mapstart incpgnum).2.mm.pgd n) = true ∨
      n ∈ c.vmMapRamWrites mapstart incpgnum := by
  have hgather : Remaps 0 0 c (allocPagesLoop incpgnum.toNat [] c).2.2 :=
    remaps_allocPagesLoop _ _ _
  replace hgather := hgather.pgd n
  rcases c.vmMapRam_outcome astart aend mapstart incpgnum with ⟨hle, -, heq⟩ | ⟨-, -, heq⟩
  · obtain ⟨-, -, hpgd⟩ := vmapPageLoop_frame incpgnum.toNat
      (pagingPgn (BitVec.ofInt 32 mapstart)) (allocPagesLoop incpgnum.toNat [] c).2.1
      (allocPagesLoop incpgnum.toNat [] c).2.2.mm
    rw [vmMapRamWrites_eq, if_pos hle, heq]
    dsimp only
    by_cases hn : n ∈ List.range' (pagingPgn (BitVec.ofInt 32 mapstart)) incpgnum.toNat
    · exact .inr (.inr hn)
    · rw [List.mem_range'_1] at hn
      rw [hpgd n (by omega)]
      exact hgather.imp_right fun h => .inl (h.resolve_right (by omega))
  · rw [heq]
    exact hgather.imp_right fun h => .inl (h.resolve_right (by omega))

/-- So it is with a growth of an area. -/
lemma pgd_incVmaLimit (c : Caller) (vmaid incSz : ℤ) (n : ℕ) :
    (c.incVmaLimit vmaid incSz).2.mm.pgd n = c.mm.pgd n ∨
      pteSwapped ((c.incVmaLimit vmaid incSz).2.mm.pgd n) = true ∨
      n ∈ c.incVmaLimitWrites vmaid incSz := by
  have hgrow : (c.growArea vmaid incSz).mm.pgd = c.mm.pgd := pgd_setCurVma _ _ _
  unfold incVmaLimit incVmaLimitWrites
  dsimp only
  split
  · exact .inl rfl
  · rw [← hgrow]
    split <;> exact pgd_vmMapRam _ _ _ _ _ n

/-- So it is with an allocation. -/
lemma pgd_alloc (c : Caller) (vmaid rgid size : ℤ) (n : ℕ) :
    (c.alloc vmaid rgid size).2.2.mm.pgd n = c.mm.pgd n ∨
      pteSwapped ((c.alloc vmaid rgid size).2.2.mm.pgd n) = true ∨
      n ∈ c.allocWrites vmaid size := by
  refine alloc_keeps (P := fun c' => c'.mm.pgd n = c.mm.pgd n ∨
    pteSwapped (c'.mm.pgd n) = true ∨ n ∈ c.allocWrites vmaid size) rgid (.inl rfl) ?_ ?_
  · intro c' mm h hpgd
    dsimp only
    rwa [hpgd]
  · intro c₁ hnone h
    rcases pgd_incVmaLimit c₁ vmaid (pagingPageAlignsz size) n with hsame | hswapped | hmem
    · rwa [hsame]
    · exact .inr (.inl hswapped)
    · refine .inr (.inr ?_)
      unfold allocWrites
      rw [hnone]
      exact hmem

lemma mem_incVmaLimitWrites {c : Caller} {v : VmArea} (hv : c.mm.mmap = [v]) {incSz : ℤ} {n : ℕ}
    (hn : n ∈ c.incVmaLimitWrites 0 incSz) :
    firstGrownPage v ≤ n ∧ n < firstGrownPage v + grownPages incSz := by
  unfold incVmaLimitWrites vmMapRamWrites at hn
  rw [curVma_single hv] at hn
  dsimp only at hn
  split at hn
  · simp at hn
  · split at hn
    · simp at hn
    · exact List.mem_range'_1.mp hn

/-- An allocation for which there is room writes entries of the new pages of the area only. -/
lemma mem_allocWrites {c : Caller} {v : VmArea} (h : Laid c.mm v) {size : ℤ}
    (hroom : c.RoomFor size) {n : ℕ} (hn : n ∈ c.allocWrites 0 size) :
    v.vmEnd / pagingPagesz ≤ n ∧ n < pagingMaxPgn := by
  obtain ⟨hlo, hhi, hfits⟩ := hroom
  rw [Fits, curVma_single h.mmap] at hfits
  unfold allocWrites getFreeVmrgArea at hn
  rw [curVma_single h.mmap] at hn
  cases hfit : firstFit size v.vmFreergList with
  | some found =>
    obtain ⟨newrg, list⟩ := found
    obtain ⟨⟨rg, hrg, rfl, -⟩, -⟩ :=
      firstFit_eq_some hlo hhi (fun rg h' => (h.free rg h').1) hfit
    have hfound : rg.rgStart ≠ ulong (-1) := by
      have hstart := (h.free rg hrg).1
      rw [show ulong (-1) = 2 ^ 64 - 1 by rfl]
      omega
    simp only [hfit, hfound, if_false] at hn
    simp at hn
  | none =>
    rw [hfit] at hfits
    have hend : v.vmEnd + size ≤ 2 ^ 22 := by simpa using hfits
    have haligned := h.aligned
    rw [pagingPagesz_eq] at haligned
    have hround := pagingPageAlignsz_of_nonneg hlo (by omega)
    obtain ⟨incSz, hinc⟩ : ∃ incSz : ℕ, pagingPageAlignsz size = incSz :=
      ⟨(pagingPageAlignsz size).toNat, by omega⟩
    have hdvd : pagingPagesz ∣ incSz := by
      rw [pagingPagesz_eq]
      omega
    simp only [hfit, hinc] at hn
    obtain ⟨hfirst, hlast⟩ :=
      (mem_grown_iff h.aligned hdvd (by omega) n).mp (mem_incVmaLimitWrites h.mmap hn)
    rw [pagingPagesz_eq] at hlast
    refine ⟨hfirst, ?_⟩
    rw [pagingMaxPgn_eq]
    omega

/-! ## The address space limit -/

/-- What a successful allocation of `size` bytes promises of the address space. -/
structure KeepsLimit (c c' : Caller) (writes : List ℕ) (rgid : ℤ) (size : Word) : Prop where
  /-- The region has the requested length and ends below 4 MB. -/
  region : ∃ a, c'.mm.symrgtbl rgid = ⟨a, a + size.toNat⟩ ∧ a + size.toNat ≤ 2 ^ 22
  /-- The area does not shrink. -/
  vmEnd : (c.mm.curVma 0).vmEnd ≤ (c'.mm.curVma 0).vmEnd
  /-- The entries written are entries of the page table, of pages not mapped before. -/
  writes : ∀ n ∈ writes, n < pagingMaxPgn ∧ pagingPagePresent (c.mm.pgd n) = false
  /-- No two addresses of the area share a page and an offset. -/
  distinct : ∀ x y, x < (c'.mm.curVma 0).vmEnd → y < (c'.mm.curVma 0).vmEnd → x ≠ y →
    pagingPgn (BitVec.ofNat 32 x) ≠ pagingPgn (BitVec.ofNat 32 y) ∨
      pagingOffst (BitVec.ofNat 32 x) ≠ pagingOffst (BitVec.ofNat 32 y)

/-- The address space limit holds for an allocation: if it reports success, it keeps its
promises. -/
def LimitHolds (c : Caller) (rgid : ℤ) (size : Word) : Prop :=
  (c.alloc 0 rgid size.toInt).1 = 0 →
    KeepsLimit c (c.alloc 0 rgid size.toInt).2.2 (c.allocWrites 0 size.toInt) rgid size

end Caller

/-- All pages that are mapped or resident lie in the area. -/
structure PagesInside (mm : Mm) (v : VmArea) : Prop where
  /-- The mapped pages. -/
  present : ∀ n, pagingPagePresent (mm.pgd n) = true → n < v.vmEnd / pagingPagesz
  /-- The resident pages. -/
  fifo : ∀ n ∈ mm.fifoPgn, n < v.vmEnd / pagingPagesz

lemma PagesInside.maps {mm mm' : Mm} {v v' : VmArea} (h : PagesInside mm v) {lo hi : ℕ}
    (hmap : MapsPages lo hi mm mm') (hle : v.vmEnd ≤ v'.vmEnd)
    (hhi : hi ≤ v'.vmEnd / pagingPagesz) : PagesInside mm' v' := by
  have hmono : v.vmEnd / pagingPagesz ≤ v'.vmEnd / pagingPagesz := Nat.div_le_div_right hle
  refine ⟨fun n hn => ?_, fun n hn => ?_⟩
  · rcases hmap.only n hn with hn | hn | hn
    · exact (h.present n hn).trans_le hmono
    · exact (h.fifo n hn).trans_le hmono
    · exact hn.2.trans_le hhi
  · rcases hmap.fifo n hn with hn | hn
    · exact (h.fifo n hn).trans_le hmono
    · exact hn.2.trans_le hhi

/-- Two addresses below 4 MB with the same page and offset are the same. -/
lemma eq_of_pgn_offst {x y : ℕ} (hx : x < 2 ^ 22) (hy : y < 2 ^ 22)
    (hpgn : pagingPgn (BitVec.ofNat 32 x) = pagingPgn (BitVec.ofNat 32 y))
    (hoffst : pagingOffst (BitVec.ofNat 32 x) = pagingOffst (BitVec.ofNat 32 y)) : x = y := by
  rw [pagingPgn_eq, pagingPgn_eq, BitVec.toNat_ofNat, BitVec.toNat_ofNat] at hpgn
  rw [pagingOffst_eq, pagingOffst_eq, BitVec.toNat_ofNat, BitVec.toNat_ofNat] at hoffst
  omega

namespace Caller

/-- What keeps the limit had room. -/
lemma room_of_keepsLimit {c : Caller} {v : VmArea} (h : Laid c.mm v) {rgid : ℤ} {size : Word}
    (hkeeps : KeepsLimit c (c.alloc 0 rgid size.toInt).2.2 (c.allocWrites 0 size.toInt) rgid size) :
    size.toNat < 2 ^ 31 ∧
      (c.Fits size.toInt ∨ (c.mm.curVma 0).vmEnd + size.toNat ≤ 2 ^ 22) := by
  obtain ⟨a, hregion, hend⟩ := hkeeps.region
  have hint : size.toInt = size.toNat := BitVec.toInt_eq_toNat_of_lt (by omega)
  refine ⟨by omega, ?_⟩
  by_contra hroom
  obtain ⟨hfits, hover⟩ := not_or.mp hroom
  rw [curVma_single h.mmap] at hover
  have hfit : firstFit size.toInt v.vmFreergList = none := by
    rw [Fits, curVma_single h.mmap] at hfits
    simpa using hfits
  -- the region begins at the old end, so it ends above the limit
  obtain ⟨-, hsym⟩ := alloc_at_brk h.mmap hfit rgid
  rw [hregion, h.sbrk] at hsym
  obtain ⟨hstart, -⟩ := VmRg.mk.inj hsym
  have hsmall := h.small
  rw [cint_of_mem (by omega) (by omega)] at hstart
  unfold ulong at hstart
  omega

/-- Where there is room, an allocation keeps the limit. -/
lemma keepsLimit_of_room {c : Caller} {v : VmArea} (h : Laid c.mm v) (hpages : PagesInside c.mm v)
    (rgid : ℤ) {size : Word} (hsize : size.toNat < 2 ^ 31)
    (hfits : c.Fits size.toInt ∨ (c.mm.curVma 0).vmEnd + size.toNat ≤ 2 ^ 22) :
    KeepsLimit c (c.alloc 0 rgid size.toInt).2.2 (c.allocWrites 0 size.toInt) rgid size := by
  have hint : size.toInt = size.toNat := BitVec.toInt_eq_toNat_of_lt (by omega)
  have hroom : c.RoomFor size.toInt := by
    refine ⟨by omega, by omega, hfits.imp_right fun hend => ?_⟩
    rw [hint]
    exact_mod_cast hend
  obtain ⟨v', hgives⟩ := gives_of_room h hroom rgid
  obtain ⟨a, hregion, hend⟩ := hgives.region
  have hnat : size.toInt.toNat = size.toNat := by omega
  rw [hnat] at hregion hend
  have hsmall := hgives.laid.small
  refine ⟨⟨a, hregion, hend.trans hsmall⟩, ?_, fun n hn => ?_, fun x y hx hy hne => ?_⟩
  · rw [curVma_single h.mmap, curVma_single hgives.laid.mmap]
    exact hgives.le
  · obtain ⟨hlo, hhi⟩ := mem_allocWrites h hroom hn
    refine ⟨hhi, ?_⟩
    by_contra hpresent
    have hinside := hpages.present n (by simpa using hpresent)
    omega
  · rw [curVma_single hgives.laid.mmap] at hx hy
    by_contra hsame
    obtain ⟨hpgn, hoffst⟩ := not_or.mp hsame
    exact hne (eq_of_pgn_offst (by omega) (by omega) (not_not.mp hpgn) (not_not.mp hoffst))

end Caller

/-! ## Runs -/

/-- There is room for what is allocated, and an access goes to a page of the area. -/
def Caller.StaysInside (c : Caller) : MemCall → Prop
  | .alloc _ size => c.RoomFor size
  | .free _ => True
  | .read rgid offset | .write rgid offset _ => ∀ addr, c.mm.target rgid offset = some addr →
    pagingPgn addr < (c.mm.curVma 0).vmEnd / pagingPagesz

section
variable {Pid : Type*}

/-- What `init_mm` leaves unassigned in the region tables contains no byte. -/
def MemSys.NoStaleRegions (s : MemSys Pid) : Prop :=
  ∀ p, (∀ v ∈ (s.mm p).mmap, ∀ rg ∈ v.vmFreergList, rg.Below 0) ∧
    ∀ r, ((s.mm p).symrgtbl r).Below 0

/-- What `init_mm` leaves unassigned in the lists of resident pages is empty. -/
def MemSys.NoStalePages (s : MemSys Pid) : Prop := ∀ p, (s.mm p).fifoPgn = []

lemma laid_of_initial {s : MemSys Pid} (h : s.Initial) (hstale : s.NoStaleRegions) (p : Pid) :
    ∃ v, Laid (s.mm p) v ∧ v.vmEnd = 0 := by
  obtain ⟨mm, freerg, hmm⟩ := h.mm p
  obtain ⟨hfree, hsym⟩ := hstale p
  have hmmap : (s.mm p).mmap = [⟨1, 0, 0, 0, ⟨0, 0⟩ :: freerg⟩] := by
    rw [hmm]
    rfl
  exact ⟨_, ⟨hmmap, rfl, by simp, by simp, hfree _ (by simp [hmmap]), hsym⟩, rfl⟩

lemma noStaleRegions_fresh (ram swp : ℤ) : (MemSys.fresh Pid ram swp).NoStaleRegions := by
  have hzero : (⟨0, 0⟩ : VmRg).Below 0 := ⟨by decide, le_rfl⟩
  refine fun p => ⟨fun v hv rg hrg => ?_, fun r => hzero⟩
  obtain rfl := List.mem_singleton.mp hv
  obtain rfl := List.mem_singleton.mp hrg
  exact hzero

end

/-- An access to a page of the area keeps the address space and the pages in it. -/
lemma inside_of_access {mm mm' : Mm} {v : VmArea} {rgid offset : ℤ} (h : Laid mm v)
    (hpages : PagesInside mm v) (haccess : AccessMaps mm mm' rgid offset)
    (htarget : ∀ addr, mm.target rgid offset = some addr →
      pagingPgn addr < (mm.curVma 0).vmEnd / pagingPagesz) :
    Laid mm' v ∧ PagesInside mm' v := by
  refine ⟨h.congr haccess.mmap haccess.symrgtbl, ?_⟩
  rcases haccess.pages with rfl | ⟨addr, haddr, hmap⟩
  · exact hpages
  · have hlt := htarget addr haddr
    rw [Caller.curVma_single h.mmap] at hlt
    exact hpages.maps hmap le_rfl hlt

/-- Every call that meets the condition keeps the address space of its caller and the pages in
it. -/
lemma inside_of_call {c : Caller} {v : VmArea} (h : Laid c.mm v) (hpages : PagesInside c.mm v)
    {k : MemCall} (hok : c.StaysInside k) :
    ∃ v', Laid (k.run c).2.2.mm v' ∧ PagesInside (k.run c).2.2.mm v' := by
  cases k with
  | alloc rgid size =>
    obtain ⟨v', hgives⟩ := Caller.gives_of_room h hok rgid
    exact ⟨v', hgives.laid, hpages.maps hgives.maps hgives.le le_rfl⟩
  | free rgid =>
    obtain ⟨v', hlaid, hend, hpgd, hfifo⟩ := Caller.laid_free h 0 rgid
    have hsame : MapsPages 0 0 c.mm (c.free 0 rgid).2.mm := .of_subset hpgd fun n hn => hfifo ▸ hn
    exact ⟨v', hlaid, hpages.maps hsame hend.ge (Nat.zero_le _)⟩
  | read rgid offset => exact ⟨v, inside_of_access h hpages (c.accessMaps_read 0 rgid offset) hok⟩
  | write rgid offset value =>
    exact ⟨v, inside_of_access h hpages (c.accessMaps_write 0 rgid offset value) hok⟩

variable {Pid : Type*} [DecidableEq Pid]

/-- The limit of the address space holds exactly for the sizes for which there is room, in every
state reached by calls for which there was room, from a start without stale regions and pages. -/
theorem limitHolds_iff {s : MemSys Pid}
    (hs : (((callSystem Pid).startIn fun s => s.NoStaleRegions ∧ s.NoStalePages).restrict
      fun s a => (s.caller a.1).StaysInside a.2).Reachable s) (p : Pid) (rgid : ℤ) (size : Word) :
    (s.caller p).LimitHolds rgid size ↔ size.toNat < 2 ^ 31 ∧
      ((s.caller p).Fits size.toInt ∨ ((s.mm p).curVma 0).vmEnd + size.toNat ≤ 2 ^ 22) := by
  have hinside : ∀ q, ∃ v, Laid (s.mm q) v ∧ PagesInside (s.mm q) v := by
    refine hs.invariant_restrict (I := fun s => ∀ q, ∃ v, Laid (s.mm q) v ∧ PagesInside (s.mm q) v)
      ?_ ?_
    · rintro s ⟨hinit, hregions, hpages⟩ q
      obtain ⟨v, hlaid, -⟩ := laid_of_initial hinit hregions q
      have hfifo : (s.mm q).fifoPgn = [] := hpages q
      refine ⟨v, hlaid, fun n hn => ?_, by simp [hfifo]⟩
      obtain ⟨mm, freerg, hmm⟩ := hinit.mm q
      rw [hmm] at hn
      simp [initMm] at hn
    · intro s a s' h ht hok
      obtain rfl : s' = s.call a.1 a.2 := ht
      obtain ⟨v, hlaid, hpages⟩ := h a.1
      exact MemSys.forall_call (P := fun mm => ∃ v, Laid mm v ∧ PagesInside mm v) h
        (inside_of_call (c := s.caller a.1) hlaid hpages hok)
  obtain ⟨v, hlaid, hpages⟩ := hinside p
  have hlaid : Laid (s.caller p).mm v := hlaid
  constructor
  · intro hlimit
    exact Caller.room_of_keepsLimit hlaid (hlimit ((s.caller p).alloc_status 0 rgid size.toInt))
  · rintro ⟨hsize, hfits⟩ -
    exact Caller.keepsLimit_of_room hlaid hpages rgid hsize hfits

/-- After an allocation of 300 bytes the limit holds for 10 bytes, which fit in what was left. -/
theorem limitHolds_second_alloc :
    (((MemSys.fresh Unit 1024 0).call () (.alloc 0 300)).caller ()).LimitHolds 1 10#32 := by
  have hroom : ((MemSys.fresh Unit 1024 0).caller ()).StaysInside (.alloc 0 300) :=
    ⟨by decide, by decide, .inr (by decide)⟩
  have hstart : ((callSystem Unit).startIn fun s => s.NoStaleRegions ∧ s.NoStalePages).start
      (MemSys.fresh Unit 1024 0) :=
    ⟨MemSys.initial_fresh 1024 0, noStaleRegions_fresh 1024 0, fun _ => rfl⟩
  exact (limitHolds_iff (.step (.start hstart) (a := ((), .alloc 0 300)) ⟨rfl, hroom⟩) () 1
    10#32).mpr ⟨by decide, .inl (by decide)⟩

/-- The limit does not hold for one byte more than 4 MB. -/
theorem not_limitHolds : ¬ ∀ s : MemSys Unit, (callSystem Unit).Reachable s →
    ∀ p rgid size, (s.caller p).LimitHolds rgid size := by
  intro h
  obtain ⟨a, hregion, hend⟩ := (h _ (.start (MemSys.initial_fresh 512 0)) () 0 4194305#32
    (Caller.alloc_status _ _ _ _)).region
  have hfound : (((MemSys.fresh Unit 512 0).caller ()).alloc 0 0
      (4194305#32).toInt).2.2.mm.symrgtbl 0 = ⟨0, 4194305⟩ := by decide +kernel
  rw [hfound] at hregion
  obtain ⟨rfl, -⟩ := VmRg.mk.inj hregion
  exact absurd hend (by decide)

end Ossim
