import Ossim.Paging.Coherence
import Ossim.Paging.Devices

/-!
# Paged memory as an array of bytes

`PAGING_FPN` decodes one of four frames from an entry that has the present bit.  So as long as
every access goes to a page that was mapped, all processes together use 1024 bytes of RAM, whatever
is allocated, freed and evicted in between, and these bytes behave like a memory: a read delivers
what any process stored last in the same cell (`accesses_cells`).

The decoded frame is `fpn / 256 % 4` of the frame `fpn` that was mapped.  With at most 64 KB of RAM
it is 0, and as long as no access goes to a page that was swapped out, all pages of all processes
are the same page of 256 bytes (`accesses_one_page`).
-/

namespace Ossim

/-- The address that a call accesses, if it does. -/
def MemCall.target (mm : Mm) : MemCall → Option Word
  | .alloc _ _ => none
  | .free _ => none
  | .read rgid offset => mm.target rgid offset
  | .write rgid offset _ => mm.target rgid offset

section

variable {Pid : Type*} [DecidableEq Pid] {C : Type*} [DecidableEq C]

/-- What a call does to the cells, when `cell` is the cell of an address. -/
def MemSys.act (cell : Mm → Word → C) (s : MemSys Pid) (p : Pid) (k : MemCall) :
    Option (MemAct C Byte) :=
  (k.target (s.mm p)).map fun addr =>
    match k with
    | .write _ _ value => .store (cell (s.mm p) addr) value
    | k => .load (cell (s.mm p) addr) (k.run (s.caller p)).2.1

/-- The calls of all processes in any order, with what they do to the cells, as long as they access
only such addresses. -/
def accessSystem (Pid : Type*) [DecidableEq Pid] (cell : Mm → Word → C) (ok : Mm → Word → Prop) :
    LTS (MemSys Pid) ((Pid × MemCall) × Option (MemAct C Byte)) where
  start := MemSys.Initial
  step s x s' := s' = s.call x.1.1 x.1.2 ∧ x.2 = s.act cell x.1.1 x.1.2 ∧
    ∀ addr, x.1.2.target (s.mm x.1.1) = some addr → ok (s.mm x.1.1) addr

/-! ## One call -/

/-- RAM is in random access mode and each process has a single area. -/
structure MemSys.Plain (s : MemSys Pid) : Prop where
  /-- RAM. -/
  rdmflg : s.mram.rdmflg = true
  /-- The areas. -/
  area : ∀ p, ∃ v, (s.mm p).mmap = [v]

lemma plain_of_reachable {s : MemSys Pid} (hs : (callSystem Pid).Reachable s) : s.Plain :=
  ⟨rdmflg_of_reachable hs, area_of_reachable hs⟩

/-- A call without a target writes no byte of RAM. -/
lemma MemSys.Plain.storage_call {s : MemSys Pid} (h : s.Plain) {p : Pid} {k : MemCall}
    (hnone : k.target (s.mm p) = none) : (s.call p k).mram.storage = s.mram.storage := by
  obtain ⟨v, hv⟩ := h.area p
  have hv : (s.caller p).mm.mmap = [v] := hv
  show (k.run (s.caller p)).2.2.mram.storage = (s.caller p).mram.storage
  cases k with
  | alloc rgid size => exact (Caller.alloc_effect hv rgid size).storage
  | free rgid =>
    obtain ⟨list, hfree⟩ := Caller.free_single hv 0 rgid
    rw [MemCall.run, hfree]
  | read rgid offset =>
    rw [MemCall.run, read_of_target_none (c := s.caller p) hnone]
  | write rgid offset value =>
    rw [MemCall.run, write_of_target_none (c := s.caller p) value hnone]

omit [DecidableEq Pid] in
/-- A read of a present page delivers its RAM cell and changes nothing. -/
lemma MemSys.Plain.run_read {s : MemSys Pid} (h : s.Plain) {p : Pid} {rgid offset : ℤ} {addr : Word}
    (htarget : (s.mm p).target rgid offset = some addr) (hpresent : (s.mm p).Present addr) :
    (MemCall.read rgid offset).run (s.caller p) =
      (0, some (s.mram.storage ((s.mm p).ramCell addr)), s.caller p) := by
  obtain ⟨v, hv⟩ := h.area p
  rw [MemCall.run, read_of_target (c := s.caller p) hv htarget,
    Caller.pgGetval_present (c := s.caller p) h.rdmflg hpresent]
  rfl

/-- A write to a present page sets its RAM cell and changes nothing else. -/
lemma MemSys.Plain.call_write {s : MemSys Pid} (h : s.Plain) {p : Pid} {rgid offset : ℤ}
    {addr : Word} (value : Byte) (htarget : (s.mm p).target rgid offset = some addr)
    (hpresent : (s.mm p).Present addr) :
    s.call p (.write rgid offset value) =
      { s with
        mram := { s.mram with
          storage := Function.update s.mram.storage ((s.mm p).ramCell addr) value } } := by
  obtain ⟨v, hv⟩ := h.area p
  rw [MemSys.call, MemCall.run, write_of_target (c := s.caller p) hv value htarget,
    Caller.pgSetval_present (c := s.caller p) h.rdmflg value hpresent]
  simp [MemSys.put, MemSys.caller]

/-! ## One step -/

variable {cell : Mm → Word → C} {place : C → ℤ} {ok : Mm → Word → Prop} {s s' : MemSys Pid}

omit [DecidableEq C] in
/-- What a step shows is what it does to RAM. -/
lemma MemSys.Plain.effect (h : s.Plain)
    (hok : ∀ p addr, ok (s.mm p) addr → (s.mm p).Present addr ∧
      (s.mm p).ramCell addr = place (cell (s.mm p) addr))
    {a : Pid × MemCall} {shown : Option (MemAct C Byte)}
    (ht : (accessSystem Pid cell ok).step s (a, shown) s') :
    (shown = none → s'.mram.storage = s.mram.storage) ∧
      ∀ e, shown = some e → e.Effect place s.mram.storage s'.mram.storage := by
  obtain ⟨p, k⟩ := a
  obtain ⟨rfl, hshown, haccess⟩ := ht
  dsimp only at hshown haccess ⊢
  constructor
  · rintro rfl
    exact h.storage_call (Option.map_eq_none_iff.mp hshown.symm)
  · rintro e rfl
    obtain ⟨addr, htarget, rfl⟩ := Option.map_eq_some_iff.mp hshown.symm
    obtain ⟨hpresent, hcell⟩ := hok p addr (haccess addr htarget)
    cases k with
    | alloc rgid size | free rgid => cases htarget
    | read rgid offset =>
      have hrun := h.run_read htarget hpresent
      refine ⟨?_, ?_⟩
      · rw [hrun, hcell]
      · show ((MemCall.read rgid offset).run (s.caller p)).2.2.mram.storage = _
        rw [hrun]
        rfl
    | write rgid offset value =>
      show (s.call p (.write rgid offset value)).mram.storage = _
      rw [h.call_write value htarget hpresent, hcell]

/-- If the accessed addresses have their cells at these places, the calls use RAM as a memory of
these cells, and no other byte of RAM changes. -/
lemma path_cells (hplace : Function.Injective place) {I : MemSys Pid → Prop}
    (hplain : ∀ s, I s → s.Plain)
    (hstep : ∀ s x s', I s → (accessSystem Pid cell ok).step s x s' → I s')
    (hok : ∀ s p addr, I s → ok (s.mm p) addr → (s.mm p).Present addr ∧
      (s.mm p).ramCell addr = place (cell (s.mm p) addr))
    {xs : List ((Pid × MemCall) × Option (MemAct C Byte))}
    (hp : (accessSystem Pid cell ok).Path s xs s') (hs : I s) :
    (cellMemory C Byte).Path (s.mram.storage ∘ place) (xs.filterMap Prod.snd)
        (s'.mram.storage ∘ place) ∧
      ∀ b, (∀ c, b ≠ place c) → s'.mram.storage b = s.mram.storage b := by
  refine hp.cells (fun s => s.mram.storage) hplace hstep ?_ ?_ hs
  · intro t x t' hI ht hnone
    exact ((hplain t hI).effect (fun p addr => hok t p addr hI) ht).1 hnone
  · intro t x t' e hI ht he
    exact ((hplain t hI).effect (fun p addr => hok t p addr hI) ht).2 e he

end

/-! ## Four frames -/

/-- The byte of RAM behind an address: the frame that `PAGING_FPN` decodes, and the offset. -/
def Mm.cell (mm : Mm) (addr : Word) : Fin 4 × Fin pagingPagesz :=
  (⟨pagingFpn (mm.pgd (pagingPgn addr)), pagingFpn_lt _⟩, ⟨pagingOffst addr, pagingOffst_lt addr⟩)

/-- Where the byte lies. -/
def cellAddr (c : Fin 4 × Fin pagingPagesz) : ℤ := Caller.phyaddr c.1 c.2

lemma cellAddr_injective : Function.Injective cellAddr := by
  rintro ⟨f, o⟩ ⟨f', o'⟩ h
  unfold cellAddr Caller.phyaddr at h
  rw [pagingPageszBits_eq] at h
  have hlo := o.isLt.trans_eq pagingPagesz_eq
  have hlo' := o'.isLt.trans_eq pagingPagesz_eq
  dsimp only at h
  have hf : (f : ℕ) = f' := by omega
  have ho : (o : ℕ) = o' := by omega
  exact Prod.ext (Fin.ext hf) (Fin.ext ho)

variable {Pid : Type*} [DecidableEq Pid] {s s' : MemSys Pid}

/-- As long as every access goes to a page that was mapped, the four frames that `PAGING_FPN` can
decode behave as a memory that all processes share: each read delivers what some process stored last
in its cell, whatever is allocated, freed and evicted in between.  No other byte of RAM changes. -/
theorem accesses_cells (hs : (callSystem Pid).Reachable s)
    {xs : List ((Pid × MemCall) × Option (MemAct (Fin 4 × Fin pagingPagesz) Byte))}
    (hp : (accessSystem Pid Mm.cell Mm.Present).Path s xs s') :
    (cellMemory (Fin 4 × Fin pagingPagesz) Byte).Path (s.mram.storage ∘ cellAddr)
        (xs.filterMap Prod.snd) (s'.mram.storage ∘ cellAddr) ∧
      ∀ b, (∀ c, b ≠ cellAddr c) → s'.mram.storage b = s.mram.storage b := by
  refine path_cells cellAddr_injective (I := (callSystem Pid).Reachable) ?_ ?_ ?_ hp hs
  · exact fun t ht => plain_of_reachable ht
  · exact fun t x t' hI ht => hI.step (a := x.1) ht.1
  · exact fun t p addr _ hpresent => ⟨hpresent, rfl⟩

/-- Two processes that have allocated a byte each, on 1024 bytes of RAM. -/
def twoAllocs : MemSys Bool :=
  ((MemSys.fresh Bool 1024 0).call false (.alloc 0 1)).call true (.alloc 0 1)

/-- The second process reads what the first one wrote. -/
theorem accesses_cells_two_processes : (cellMemory (Fin 4 × Fin pagingPagesz) Byte).Path
    (twoAllocs.mram.storage ∘ cellAddr)
    [.store (0, ⟨0, by decide⟩) 7#8, .load (0, ⟨0, by decide⟩) (some 7#8)]
    (((twoAllocs.call false (.write 0 0 7#8)).call true (.read 0 0)).mram.storage ∘ cellAddr) := by
  have hs : (callSystem Bool).Reachable twoAllocs :=
    .step (.step (.start (MemSys.initial_fresh 1024 0)) (a := (false, .alloc 0 1)) rfl)
      (a := (true, .alloc 0 1)) rfl
  have hp : (accessSystem Bool Mm.cell Mm.Present).Path twoAllocs
      [((false, .write 0 0 7#8), some (.store (0, ⟨0, by decide⟩) 7#8)),
        ((true, .read 0 0), some (.load (0, ⟨0, by decide⟩) (some 7#8)))]
      ((twoAllocs.call false (.write 0 0 7#8)).call true (.read 0 0)) := by
    refine .cons ⟨rfl, by decide +kernel, ?_⟩ (.cons ⟨rfl, by decide +kernel, ?_⟩ (.nil _))
    · intro addr htarget
      obtain ⟨-, rfl⟩ := target_eq_some htarget
      decide +kernel
    · intro addr htarget
      obtain ⟨-, rfl⟩ := target_eq_some htarget
      decide +kernel
  exact (accesses_cells hs hp).1

/-! ## One page -/

namespace Mm

/-- The offset of an address in its page. -/
def offset (_mm : Mm) (addr : Word) : Fin pagingPagesz := ⟨pagingOffst addr, pagingOffst_lt addr⟩

/-- The page of the address is in RAM. -/
def Resident (mm : Mm) (addr : Word) : Prop := pteResident (mm.pgd (pagingPgn addr)) = true

instance (mm : Mm) (addr : Word) : Decidable (mm.Resident addr) :=
  inferInstanceAs (Decidable (_ = true))

end Mm

namespace Caller

/-- All resident pages have frame 0, and so will those that get a free frame. -/
structure Low (c : Caller) : Prop where
  /-- The resident pages. -/
  resident : ∀ n, pteResident (c.mm.pgd n) = true → pagingFpn (c.mm.pgd n) = 0
  /-- The free frames. -/
  free : ∀ f ∈ c.mram.freeFpList, f < 256

variable {c : Caller}

lemma Low.of_mm (h : c.Low) {mm : Mm} (hpgd : mm.pgd = c.mm.pgd) : Low { c with mm := mm } :=
  ⟨by rw [hpgd]; exact h.resident, h.free⟩

/-- A page that was swapped out is not resident. -/
lemma Low.evictPage (h : c.Low) (victim swpfpn : ℕ) : (c.evictPage victim swpfpn).Low where
  resident n hn := by
    rw [mm_evictPage] at hn ⊢
    by_cases hv : n = victim
    · subst hv
      simp [pteResident] at hn
    · dsimp only at hn ⊢
      rw [Function.update_of_ne hv] at hn ⊢
      exact h.resident n hn
  free := by
    rw [(freeFpLists_eq (c.freeFpList_evictPage victim swpfpn)).1]
    exact h.free

/-- A failed request delivers no frame. -/
lemma Low.allocPagesFail (h : c.Low) (frmLst : List ℕ) : (c.allocPagesFail frmLst).2.2.Low ∧
    ∀ f ∈ (c.allocPagesFail frmLst).2.1, f < 256 := by
  rw [allocPagesFail_caller]
  refine ⟨h, fun f hf => ?_⟩
  unfold Caller.allocPagesFail at hf
  split at hf <;> cases hf

/-- The frames of a request are free ones, or were decoded from entries of victims. -/
lemma Low.allocPagesLoop {n : ℕ} {frmLst : List ℕ} (h : c.Low) (hfrm : ∀ f ∈ frmLst, f < 256) :
    (allocPagesLoop n frmLst c).2.2.Low ∧ ∀ f ∈ (allocPagesLoop n frmLst c).2.1, f < 256 := by
  induction n generalizing frmLst c with
  | zero => exact ⟨h, hfrm⟩
  | succ n ih =>
    unfold Caller.allocPagesLoop
    split
    · next fpn mram hget =>
      obtain ⟨fpNext, hlist, rfl⟩ := Memphy.getFreefp_eq_some.mp hget
      have hfree := h.free
      rw [hlist] at hfree
      refine ih ⟨h.resident, fun f hf => hfree f (List.mem_cons_of_mem _ hf)⟩ ?_
      exact List.forall_mem_cons.mpr ⟨hfree fpn List.mem_cons_self, hfrm⟩
    · split
      · exact h.allocPagesFail frmLst
      · next victim mm hvic =>
        obtain ⟨list, -, rfl⟩ := findVictimPage_eq_some.mp hvic
        split
        · have hsearched : Low { c with mm := { c.mm with fifoPgn := list } } := h.of_mm rfl
          exact hsearched.allocPagesFail frmLst
        · next swpfpn mswp hget =>
          have htaken : Low { c with
              mm := { c.mm with fifoPgn := list }, activeMswp := mswp } := ⟨h.resident, h.free⟩
          refine ih (htaken.evictPage victim swpfpn) (List.forall_mem_cons.mpr ⟨?_, hfrm⟩)
          exact (pagingFpn_lt _).trans (by decide)

/-- The pages that get one of these frames get frame 0. -/
lemma resident_vmapPageLoop {n pgn : ℕ} {frames : List ℕ} {mm : Mm}
    (h : ∀ k, pteResident (mm.pgd k) = true → pagingFpn (mm.pgd k) = 0)
    (hframes : ∀ f ∈ frames, f < 256) (k : ℕ)
    (hk : pteResident ((vmapPageLoop n pgn frames mm).pgd k) = true) :
    pagingFpn ((vmapPageLoop n pgn frames mm).pgd k) = 0 := by
  induction n generalizing pgn frames mm with
  | zero => exact h k hk
  | succ n ih =>
    cases frames with
    | nil => exact h k hk
    | cons fpn frames =>
      obtain ⟨hfpn, hrest⟩ := List.forall_mem_cons.mp hframes
      refine ih (fun j hj => ?_) hrest hk
      dsimp only at hj ⊢
      by_cases hjp : j = pgn
      · subst hjp
        rw [Function.update_self, pagingFpn_pteSetFpn, Nat.div_eq_of_lt hfpn]
      · rw [Function.update_of_ne hjp] at hj ⊢
        exact h j hj

lemma Low.vmMapRam (h : c.Low) (astart aend mapstart incpgnum : ℤ) :
    (c.vmMapRam astart aend mapstart incpgnum).2.Low := by
  unfold Caller.vmMapRam allocPagesRange
  have halloc : (Caller.allocPagesLoop incpgnum.toNat [] c).2.2.Low ∧
      ∀ f ∈ (Caller.allocPagesLoop incpgnum.toNat [] c).2.1, f < 256 :=
    h.allocPagesLoop (by simp)
  generalize Caller.allocPagesLoop incpgnum.toNat [] c = alloc at halloc ⊢
  obtain ⟨ret, frmLst, c₁⟩ := alloc
  obtain ⟨hlow, hframes⟩ := halloc
  dsimp only
  split
  · exact hlow
  · split
    · exact hlow
    · exact ⟨resident_vmapPageLoop hlow.resident hframes, hlow.free⟩

lemma Low.incVmaLimit (h : c.Low) (vmaid incSz : ℤ) : (c.incVmaLimit vmaid incSz).2.Low := by
  have hgrown : (c.growArea vmaid incSz).Low := h.of_mm (pgd_setCurVma _ _ _)
  unfold Caller.incVmaLimit
  dsimp only
  split
  · exact h
  · split <;> exact hgrown.vmMapRam _ _ _ _

lemma Low.alloc (h : c.Low) (rgid size : ℤ) : (c.alloc 0 rgid size).2.2.Low :=
  alloc_keeps rgid h (fun _ _ hc hpgd => hc.of_mm hpgd) fun _ _ hc => hc.incVmaLimit 0 _

end Caller

namespace MemSys

/-- All resident pages of all processes have frame 0, and so will those that get a free frame. -/
structure Low (s : MemSys Pid) : Prop where
  /-- RAM and the areas. -/
  plain : s.Plain
  /-- The callers. -/
  caller : ∀ p, (s.caller p).Low

lemma Low.put (h : s.Low) {p : Pid} {c : Caller} (hplain : (s.put p c).Plain) (hc : c.Low) :
    (s.put p c).Low :=
  ⟨hplain, fun q => ⟨forall_put
    (P := fun mm => ∀ n, pteResident (mm.pgd n) = true → pagingFpn (mm.pgd n) = 0)
    (fun q => (h.caller q).resident) hc.resident q, hc.free⟩⟩

/-- A call whose access goes to a resident page. -/
lemma Low.call (h : s.Low) {p : Pid} {k : MemCall} (hplain : (s.call p k).Plain)
    (hok : ∀ addr, k.target (s.mm p) = some addr → (s.mm p).Resident addr) :
    (s.call p k).Low := by
  have hc := h.caller p
  have hsame : (k.run (s.caller p)).2.2 = s.caller p → (s.call p k).Low := by
    intro hrun
    rw [MemSys.call, hrun, put_caller]
    exact h
  cases k with
  | alloc rgid size => exact h.put hplain (hc.alloc rgid size)
  | free rgid =>
    obtain ⟨v, hv⟩ := h.plain.area p
    obtain ⟨list, hfree⟩ := Caller.free_single (c := s.caller p) hv 0 rgid
    refine h.put hplain ?_
    rw [MemCall.run, hfree]
    exact hc.of_mm rfl
  | read rgid offset =>
    apply hsame
    cases htarget : (s.mm p).target rgid offset with
    | none => rw [MemCall.run, read_of_target_none (c := s.caller p) htarget]
    | some addr => rw [h.plain.run_read htarget (present_of_resident (hok addr htarget))]
  | write rgid offset value =>
    cases htarget : (s.mm p).target rgid offset with
    | none =>
      apply hsame
      rw [MemCall.run, write_of_target_none (c := s.caller p) value htarget]
    | some addr =>
      have hwrite := h.plain.call_write value htarget (present_of_resident (hok addr htarget))
      rw [hwrite] at hplain ⊢
      exact ⟨hplain, fun q => ⟨(h.caller q).resident, (h.caller q).free⟩⟩

/-- With at most 64 KB of RAM, all frames are such ones. -/
lemma Initial.low (hs : s.Initial) (hsmall : ∀ f ∈ s.mram.freeFpList, f < 256) : s.Low := by
  refine ⟨plain_of_reachable (.start hs), fun p => ⟨fun n hn => ?_, hsmall⟩⟩
  obtain ⟨mm, freerg, hmm⟩ := hs.mm p
  have hzero : (s.caller p).mm.pgd n = 0#32 := by
    show (s.mm p).pgd n = _
    rw [hmm]
    rfl
  rw [hzero] at hn
  cases hn

end MemSys

lemma offsetAddr_injective : Function.Injective fun o : Fin pagingPagesz => ((o : ℕ) : ℤ) := by
  intro o o' heq
  have heq : ((o : ℕ) : ℤ) = (o' : ℕ) := heq
  exact Fin.ext (by exact_mod_cast heq)

/-- With at most 64 KB of RAM, as long as no access goes to a page that is not resident, all pages
of all processes are one page: each read delivers what some process stored last at an address with
the same offset in its page.  No other byte of RAM changes. -/
theorem accesses_one_page (hs : s.Initial) (hsmall : ∀ f ∈ s.mram.freeFpList, f < 256)
    {xs : List ((Pid × MemCall) × Option (MemAct (Fin pagingPagesz) Byte))}
    (hp : (accessSystem Pid Mm.offset Mm.Resident).Path s xs s') :
    (cellMemory (Fin pagingPagesz) Byte).Path (fun o => s.mram.storage (o : ℕ))
        (xs.filterMap Prod.snd) (fun o => s'.mram.storage (o : ℕ)) ∧
      ∀ b : ℤ, (∀ o : Fin pagingPagesz, b ≠ (o : ℕ)) →
        s'.mram.storage b = s.mram.storage b := by
  have hstart : (callSystem Pid).Reachable s := .start hs
  refine path_cells offsetAddr_injective
    (I := fun t => (callSystem Pid).Reachable t ∧ t.Low) ?_ ?_ ?_ hp ⟨hstart, hs.low hsmall⟩
  · exact fun t ht => ht.2.plain
  · rintro t ⟨⟨p, k⟩, shown⟩ t' ⟨hreach, hlow⟩ ⟨rfl, -, hok⟩
    have hreach' := hreach.step (a := (p, k)) rfl
    exact ⟨hreach', hlow.call (plain_of_reachable hreach') hok⟩
  · rintro t p addr ⟨-, hlow⟩ hres
    refine ⟨present_of_resident hres, ?_⟩
    have hzero := (hlow.caller p).resident _ hres
    unfold Mm.ramCell Caller.phyaddr
    rw [show pagingFpn ((t.mm p).pgd (pagingPgn addr)) = 0 from hzero]
    simp [Mm.offset]

/-- So the second process reads at its second page what the first one wrote to its first page. -/
theorem accesses_one_page_two_processes : ∃ s', (cellMemory (Fin pagingPagesz) Byte).Path
    (fun o => (MemSys.fresh Bool 1024 0).mram.storage (o : ℕ))
    [.store ⟨1, by decide⟩ 7#8, .load ⟨1, by decide⟩ (some 7#8)] s' := by
  have hp : ∃ s', (accessSystem Bool Mm.offset Mm.Resident).Path (MemSys.fresh Bool 1024 0)
      [((false, .alloc 0 300), none), ((true, .alloc 0 300), none),
        ((false, .write 0 1 7#8), some (.store ⟨1, by decide⟩ 7#8)),
        ((true, .read 0 257), some (.load ⟨1, by decide⟩ (some 7#8)))] s' := by
    refine ⟨_, .cons ⟨rfl, rfl, fun _ h => by cases h⟩ (.cons ⟨rfl, rfl, fun _ h => by cases h⟩
      (.cons ⟨rfl, by decide +kernel, ?_⟩ (.cons ⟨rfl, by decide +kernel, ?_⟩ (.nil _))))⟩
    · intro addr htarget
      obtain ⟨-, rfl⟩ := target_eq_some htarget
      decide +kernel
    · intro addr htarget
      obtain ⟨-, rfl⟩ := target_eq_some htarget
      decide +kernel
  obtain ⟨s', hp⟩ := hp
  exact ⟨_, (accesses_one_page (MemSys.initial_fresh 1024 0) (by decide) hp).1⟩

end Ossim
