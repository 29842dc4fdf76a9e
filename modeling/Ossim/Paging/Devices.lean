import Ossim.Lib.Copy
import Ossim.Paging.Faults

/-!
# What the calls do to the devices

No call changes the size or the access mode of a device (`MemCall.geometry_run`).  On random access
devices, which may be one, `__swap_cp_page` copies the bytes of one frame to another and nothing
else (`swapCpPage_exact`).
-/

namespace Ossim

/-! ## Size and access mode -/

/-- Size and access mode of a device. -/
def Memphy.geometry (mp : Memphy) : ℤ × Bool := (mp.maxsz, mp.rdmflg)

lemma Memphy.geometry_read (mp : Memphy) (addr : ℤ) :
    (mp.read addr).2.1.geometry = mp.geometry := by
  obtain ⟨cursor, h⟩ := mp.read_device addr
  rw [h]
  rfl

lemma Memphy.geometry_write (mp : Memphy) (addr : ℤ) (data : Byte) :
    (mp.write addr data).2.geometry = mp.geometry := by
  obtain ⟨storage, cursor, h⟩ := mp.write_device addr data
  rw [h]
  rfl

namespace Caller

/-- Sizes and access modes of both devices. -/
def geometry (c : Caller) (d : Device) : ℤ × Bool := (c.device d).geometry

lemma geometry_withMm (c : Caller) (mm : Mm) : { c with mm := mm }.geometry = c.geometry := by
  funext d
  cases d <;> rfl

/-- A frame is taken off the free list of RAM. -/
lemma geometry_taken (c : Caller) (rest : List ℕ) :
    { c with mram := { c.mram with freeFpList := rest } }.geometry = c.geometry := by
  funext d
  cases d <;> rfl

lemma geometry_picked (c : Caller) (list rest : List ℕ) :
    (c.picked list rest).geometry = c.geometry := by
  funext d
  cases d <;> rfl

lemma geometry_setPte (c : Caller) (pgn : ℕ) (pte : Word) :
    (c.setPte pgn pte).geometry = c.geometry :=
  c.geometry_withMm _

lemma geometry_swapCpPage (c : Caller) (src : Device) (srcfpn : ℕ) (dst : Device) (dstfpn : ℕ) :
    (c.swapCpPage src srcfpn dst dstfpn).geometry = c.geometry := by
  funext d
  exact foldl_keeps (fun c => c.geometry d) (fun c i => swapCpCell_keeps Memphy.geometry
    Memphy.geometry_read Memphy.geometry_write c src srcfpn dst dstfpn i d) _ c

lemma geometry_evictPage (c : Caller) (victimPage swpfpn : ℕ) :
    (c.evictPage victimPage swpfpn).geometry = c.geometry := by
  simp only [evictPage, geometry_setPte, geometry_swapCpPage]

lemma geometry_allocPagesLoop (n : ℕ) (frmLst : List ℕ) (c : Caller) :
    (allocPagesLoop n frmLst c).2.2.geometry = c.geometry := by
  induction n generalizing frmLst c with
  | zero => rfl
  | succ n ih =>
    have hturn := allocPagesLoop_turn n frmLst c
    generalize allocPagesLoop (n + 1) frmLst c = result at hturn ⊢
    cases hturn with
    | take fpn rest hfree => rw [ih, geometry_taken]
    | noVictim hfree hfifo => rw [allocPagesFail_caller]
    | noSwap victim list hfree hvictim hswap => rw [allocPagesFail_caller, geometry_withMm]
    | evict victim swpfpn list rest hfree hvictim hswap =>
      rw [ih, geometry_evictPage, geometry_picked]

lemma geometry_vmMapRam (c : Caller) (astart aend mapstart incpgnum : ℤ) :
    (c.vmMapRam astart aend mapstart incpgnum).2.geometry = c.geometry := by
  have hgather := geometry_allocPagesLoop incpgnum.toNat [] c
  rcases c.vmMapRam_outcome astart aend mapstart incpgnum with ⟨-, -, heq⟩ | ⟨-, -, heq⟩
  · rw [heq]
    exact (geometry_withMm _ _).trans hgather
  · rw [heq]
    exact hgather

lemma geometry_incVmaLimit (c : Caller) (vmaid incSz : ℤ) :
    (c.incVmaLimit vmaid incSz).2.geometry = c.geometry := by
  unfold incVmaLimit growArea
  dsimp only
  split
  · rfl
  · split <;> rw [geometry_vmMapRam, geometry_withMm]

lemma geometry_alloc (c : Caller) (vmaid rgid size : ℤ) :
    (c.alloc vmaid rgid size).2.2.geometry = c.geometry :=
  alloc_keeps (P := fun c' => c'.geometry = c.geometry) rgid rfl
    (fun c' mm h _ => (c'.geometry_withMm mm).trans h)
    fun c₁ _ h => (c₁.geometry_incVmaLimit vmaid _).trans h

lemma geometry_pageIn (c : Caller) (pgn tgtfpn vicpgn swpfpn : ℕ) :
    (c.pageIn pgn tgtfpn vicpgn swpfpn).geometry = c.geometry := by
  simp only [pageIn, geometry_withMm, geometry_setPte, geometry_swapCpPage]

lemma geometry_pgGetpage (c : Caller) (pgn : ℕ) : (c.pgGetpage pgn).2.geometry = c.geometry := by
  have houtcome := c.pgGetpage_outcome pgn
  generalize c.pgGetpage pgn = result at houtcome ⊢
  cases houtcome with
  | present => rfl
  | noVictim => rfl
  | noSwap => exact geometry_withMm _ _
  | exchange victim swpfpn list rest =>
    dsimp only
    rw [geometry_pageIn, geometry_picked]

lemma geometry_withMram (c : Caller) {mram : Memphy} (h : mram.geometry = c.mram.geometry) :
    { c with mram := mram }.geometry = c.geometry := by
  funext d
  cases d with
  | mram => exact h
  | activeMswp => rfl

end Caller

/-- A call changes neither the size nor the access mode of a device. -/
lemma MemCall.geometry_run (k : MemCall) (c : Caller) :
    (k.run c).2.2.geometry = c.geometry := by
  cases k with
  | alloc rgid size => exact c.geometry_alloc 0 rgid size
  | free rgid =>
    show (c.free 0 rgid).2.geometry = c.geometry
    unfold Caller.free
    split
    · rfl
    · exact c.geometry_withMm _
  | read rgid offset =>
    exact read_keeps (P := fun c' => c'.geometry = c.geometry) rfl
      (fun addr _ => c.geometry_pgGetpage (pagingPgn addr))
      fun c' _ h => (c'.geometry_withMram (Memphy.geometry_read _ _)).trans h
  | write rgid offset value =>
    exact write_keeps (P := fun c' => c'.geometry = c.geometry) rfl
      (fun addr _ => c.geometry_pgGetpage (pagingPgn addr))
      fun c' _ h => (c'.geometry_withMram (Memphy.geometry_write _ _ _)).trans h

/-- RAM is in random access mode in every reachable state. -/
lemma rdmflg_of_reachable {Pid : Type*} [DecidableEq Pid] {s : MemSys Pid}
    (hs : (callSystem Pid).Reachable s) : s.mram.rdmflg = true := by
  refine hs.invariant (I := fun s => s.mram.rdmflg = true) (fun s h => ?_) fun s a s' _ h ht => ?_
  · obtain ⟨mp, tail, maxSize, hmram⟩ := h.mram
    rw [hmram, Memphy.rdmflg_initMemphy]
  · obtain rfl : s' = s.call a.1 a.2 := ht
    have hkept := congrFun (a.2.geometry_run (s.caller a.1)) .mram
    exact (congrArg Prod.snd hkept).trans h

/-! ## Copying a page -/

/-- The frame is one of the device. -/
def Memphy.HasFrame (mp : Memphy) (fpn : ℕ) : Prop := (fpn + 1) * pagingPagesz ≤ mp.maxsz

instance (mp : Memphy) (fpn : ℕ) : Decidable (mp.HasFrame fpn) :=
  inferInstanceAs (Decidable (_ ≤ _))

lemma Memphy.HasFrame.phyaddr_lt {mp : Memphy} {fpn i : ℕ} (h : mp.HasFrame fpn)
    (hi : i < pagingPagesz) : 0 ≤ Caller.phyaddr fpn i ∧ Caller.phyaddr fpn i < mp.maxsz := by
  unfold HasFrame at h
  unfold Caller.phyaddr
  rw [pagingPageszBits_eq]
  rw [pagingPagesz_eq] at h hi
  push_cast at h
  omega

namespace Caller

/-- The bytes of both devices as one memory. -/
def bytes (c : Caller) (cell : Device × ℤ) : Byte := (c.device cell.1).storage cell.2

/-- A byte of a frame of a device. -/
def frameCell (d : Device) (fpn i : ℕ) : Device × ℤ := (d, phyaddr fpn i)

lemma frameCell_ne {d e : Device} {fpn fpn' i j : ℕ} (hne : fpn = fpn' → i ≠ j)
    (hi : i < pagingPagesz) (hj : j < pagingPagesz) : frameCell d fpn i ≠ frameCell e fpn' j := by
  intro heq
  have haddr : phyaddr fpn i = phyaddr fpn' j := congrArg Prod.snd heq
  unfold phyaddr at haddr
  rw [pagingPageszBits_eq] at haddr
  rw [pagingPagesz_eq] at hi hj
  exact hne (by omega) (by omega)

lemma bytes_setDevice (c : Caller) (d : Device) (addr : ℤ) (data : Byte) :
    (c.setDevice d { c.device d with
      storage := Function.update (c.device d).storage addr data }).bytes =
      Function.update c.bytes (d, addr) data := by
  funext cell
  obtain ⟨e, a⟩ := cell
  unfold bytes
  by_cases he : e = d
  · subst he
    rw [device_setDevice_self]
    by_cases ha : a = addr
    · subst ha
      rw [Function.update_self]
      exact Function.update_self _ _ _
    · rw [Function.update_of_ne fun heq => ha (congrArg Prod.snd heq)]
      exact Function.update_of_ne ha _ _
  · rw [device_setDevice_of_ne _ he, Function.update_of_ne fun heq => he (congrArg Prod.fst heq)]

/-- One copied byte. -/
lemma bytes_swapCpCell {c : Caller} {src dst : Device} (hsrc : (c.device src).rdmflg = true)
    (hdst : (c.device dst).rdmflg = true) (srcfpn dstfpn i : ℕ) :
    (c.swapCpCell src srcfpn dst dstfpn i).bytes =
      Function.update c.bytes (frameCell dst dstfpn i) (c.bytes (frameCell src srcfpn i)) := by
  have hread : c.setDevice src (c.device src) = c := by cases src <;> rfl
  unfold swapCpCell
  simp only [Memphy.read_of_rdmflg hsrc, hread, Memphy.write_of_rdmflg hdst, Option.getD_some]
  rw [bytes_setDevice]
  unfold frameCell phyaddr
  rw [pagingPageszBits_eq]
  rfl

/-- The first `n` bytes of a copied page. -/
lemma bytes_swapCpCells {c : Caller} {src dst : Device} (hsrc : (c.device src).rdmflg = true)
    (hdst : (c.device dst).rdmflg = true) (srcfpn dstfpn n : ℕ) :
    ((List.range n).foldl (fun c i => c.swapCpCell src srcfpn dst dstfpn i) c).bytes =
      copyCells (frameCell src srcfpn) (frameCell dst dstfpn) n c.bytes := by
  induction n with
  | zero => rfl
  | succ n ih =>
    have hrdm := fun d => foldl_keeps (fun c : Caller => (c.device d).rdmflg)
      (fun c i => swapCpCell_keeps Memphy.rdmflg Memphy.rdmflg_read Memphy.rdmflg_write c src srcfpn
        dst dstfpn i d) (List.range n) c
    rw [List.range_succ, List.foldl_append, List.foldl_cons, List.foldl_nil,
      bytes_swapCpCell ((hrdm src).trans hsrc) ((hrdm dst).trans hdst), ih]
    rfl

/-- Copying a page to a frame of a random access device. -/
lemma storage_swapCpPage {c : Caller} {src dst : Device} (hsrc : (c.device src).rdmflg = true)
    (hdst : (c.device dst).rdmflg = true) (srcfpn dstfpn : ℕ) {i : ℕ} (hi : i < pagingPagesz) :
    ((c.swapCpPage src srcfpn dst dstfpn).device dst).storage (phyaddr dstfpn i) =
      (c.device src).storage (phyaddr srcfpn i) := by
  have hcopied := congrFun (bytes_swapCpCells hsrc hdst srcfpn dstfpn pagingPagesz)
    (frameCell dst dstfpn i)
  have hwrite : ∀ i j, i < j → j < pagingPagesz → frameCell dst dstfpn i ≠ frameCell dst dstfpn j :=
    fun i j hij hj => frameCell_ne (fun _ => hij.ne) (hij.trans hj) hj
  -- a byte that is still to be read has another offset than those written, on any device
  have hread : ∀ i j, i < j → j < pagingPagesz → frameCell src srcfpn j ≠ frameCell dst dstfpn i :=
    fun i j hij hj => frameCell_ne (fun _ => hij.ne') hj (hij.trans hj)
  exact hcopied.trans (copyCells_dst hwrite hread hi)

/-- Nothing but that frame is written. -/
lemma storage_swapCpPage_of_outside {c : Caller} {src dst : Device}
    (hsrc : (c.device src).rdmflg = true) (hdst : (c.device dst).rdmflg = true)
    (srcfpn dstfpn : ℕ) {d : Device} {addr : ℤ}
    (hout : ∀ i < pagingPagesz, (d, addr) ≠ frameCell dst dstfpn i) :
    ((c.swapCpPage src srcfpn dst dstfpn).device d).storage addr = (c.device d).storage addr := by
  have hcopied := congrFun (bytes_swapCpCells hsrc hdst srcfpn dstfpn pagingPagesz) (d, addr)
  exact hcopied.trans (copyCells_of_ne hout)

/-- No other frame of the destination is written. -/
lemma storage_swapCpPage_of_frame_ne {c : Caller} {src dst : Device}
    (hsrc : (c.device src).rdmflg = true) (hdst : (c.device dst).rdmflg = true)
    (srcfpn : ℕ) {dstfpn fpn : ℕ} (hfpn : fpn ≠ dstfpn) {i : ℕ} (hi : i < pagingPagesz) :
    ((c.swapCpPage src srcfpn dst dstfpn).device dst).storage (phyaddr fpn i) =
      (c.device dst).storage (phyaddr fpn i) :=
  storage_swapCpPage_of_outside hsrc hdst srcfpn dstfpn fun _ hj =>
    frameCell_ne (fun heq => absurd heq hfpn) hi hj

/-- The page copy is exact, byte by byte. -/
structure CopiesPage (c : Caller) (src : Device) (srcfpn : ℕ) (dst : Device) (dstfpn : ℕ) :
    Prop where
  /-- The bytes that are read are bytes of the source. -/
  reads : ∀ i < pagingPagesz, 0 ≤ phyaddr srcfpn i ∧ phyaddr srcfpn i < (c.device src).maxsz
  /-- The bytes that are written are bytes of the destination. -/
  writes : ∀ i < pagingPagesz, 0 ≤ phyaddr dstfpn i ∧ phyaddr dstfpn i < (c.device dst).maxsz
  /-- The destination frame holds what the source frame held before. -/
  copied : ∀ i < pagingPagesz,
    ((c.swapCpPage src srcfpn dst dstfpn).device dst).storage (phyaddr dstfpn i) =
      (c.device src).storage (phyaddr srcfpn i)
  /-- No other byte of a device changes. -/
  others : ∀ d addr, (d = dst → addr < phyaddr dstfpn 0 ∨ phyaddr dstfpn pagingPagesz ≤ addr) →
    ((c.swapCpPage src srcfpn dst dstfpn).device d).storage addr = (c.device d).storage addr

/-- `__swap_cp_page` is exact, for every two frames of random access devices, which may be one. -/
theorem swapCpPage_exact {c : Caller} {src dst : Device} {srcfpn dstfpn : ℕ}
    (hsrc : (c.device src).rdmflg = true) (hdst : (c.device dst).rdmflg = true)
    (hsrcfpn : (c.device src).HasFrame srcfpn) (hdstfpn : (c.device dst).HasFrame dstfpn) :
    c.CopiesPage src srcfpn dst dstfpn where
  reads i hi := hsrcfpn.phyaddr_lt hi
  writes i hi := hdstfpn.phyaddr_lt hi
  copied i hi := storage_swapCpPage hsrc hdst srcfpn dstfpn hi
  others d addr hout := by
    refine storage_swapCpPage_of_outside hsrc hdst srcfpn dstfpn fun i hi heq => ?_
    obtain ⟨hd, haddr⟩ := Prod.mk.inj heq
    have hbounds := hout hd
    unfold phyaddr at haddr hbounds
    rw [pagingPageszBits_eq] at haddr hbounds
    rw [pagingPagesz_eq] at hi hbounds
    omega

/-- Frame 1 of RAM is copied to frame 0. -/
theorem swapCpPage_exact_ram :
    ((MemSys.fresh Unit 512 512).caller ()).CopiesPage .mram 1 .mram 0 :=
  swapCpPage_exact rfl rfl (by decide) (by decide)

end Caller

end Ossim
