import Ossim.Paging.Backing
import Ossim.Paging.Coherence
import Ossim.Paging.Devices

/-!
# Regions are isolated

An access through a region id should stay inside its region.  `__read` and `__write` compute
`rg_start + offset` and never look at `rg_end`, so they refuse no offset.  For an offset inside the
region the page table decides: `PAGING_FPN` decodes the same frame for many pages, and a byte
written through one region then is a byte of another one.

`isolated_iff` says for which offsets a region is isolated: those inside it whose RAM cell belongs
to no address of another live region.  It leaves out the accesses inside a region for which
`pg_getpage` would exchange pages.  There are none when every allocation was backed
(`fetchesNothing_of_backed`).
-/

namespace Ossim

namespace Caller

/-- The RAM byte behind an address, `none` if its page is not present. -/
def byteAt (c : Caller) (addr : Word) : Option Byte :=
  if c.mm.Present addr then some (c.mram.storage (c.mm.ramCell addr)) else none

lemma byteAt_congr {c c' : Caller} (hpgd : c'.mm.pgd = c.mm.pgd) (hmram : c'.mram = c.mram)
    (addr : Word) : c'.byteAt addr = c.byteAt addr := by
  have hpresent : c'.mm.Present addr ↔ c.mm.Present addr := by
    unfold Mm.Present
    rw [hpgd]
  have hcell : c'.mm.ramCell addr = c.mm.ramCell addr := by
    unfold Mm.ramCell
    rw [hpgd]
  simp only [byteAt, hpresent, hcell, hmram]

/-- Store a byte in a RAM cell. -/
def setCell (c : Caller) (cell : ℤ) (value : Byte) : Caller :=
  { c with mram := { c.mram with storage := Function.update c.mram.storage cell value } }

lemma byteAt_setCell (c : Caller) (cell : ℤ) (value : Byte) (addr : Word) :
    (c.setCell cell value).byteAt addr =
      if c.mm.Present addr ∧ c.mm.ramCell addr = cell then some value else c.byteAt addr := by
  unfold byteAt setCell
  dsimp only
  by_cases hpresent : c.mm.Present addr
  · by_cases hcell : c.mm.ramCell addr = cell <;> simp [hpresent, hcell]
  · simp [hpresent]

/-- Reads and writes at the offset report an error and change nothing. -/
structure RefusesOffset (c : Caller) (rgid offset : ℤ) : Prop where
  /-- Reads. -/
  read : (c.read 0 rgid offset).1 ≠ 0 ∧ (c.read 0 rgid offset).2.2 = c
  /-- Writes. -/
  write : ∀ value, (c.write 0 rgid offset value).1 ≠ 0 ∧ (c.write 0 rgid offset value).2 = c

end Caller

variable {Pid : Type*}

namespace MemWorld

/-- The offset lies behind the end of the region. -/
def Beyond (w : MemWorld Pid) (p : Pid) (rgid : ℤ) (offset : Word) : Prop :=
  ((w.sys.mm p).symrgtbl rgid).rgEnd ≤ ((w.sys.mm p).symrgtbl rgid).rgStart + offset.toNat

/-- The address belongs to a live region of the process under another id. -/
def OfOther (w : MemWorld Pid) (p : Pid) (rgid : ℤ) (addr : Word) : Prop :=
  ∃ r, r ≠ rgid ∧ w.written p r ≠ none ∧ ((w.sys.mm p).symrgtbl r).Contains addr

/-- The offsets behind the region are refused, and no write through it changes a byte of another
live region or maps a page outside. -/
structure Isolated (w : MemWorld Pid) (p : Pid) (rgid : ℤ) (offset : Word) : Prop where
  /-- No access behind the region. -/
  refused : w.Beyond p rgid offset → (w.sys.caller p).RefusesOffset rgid offset.toInt
  /-- The bytes of other live regions. -/
  others : ∀ value addr, w.OfOther p rgid addr →
    ((w.sys.caller p).write 0 rgid offset.toInt value).2.byteAt addr =
      (w.sys.caller p).byteAt addr
  /-- The pages outside the region. -/
  pages : ∀ value n,
    pagingPagePresent
      (((w.sys.caller p).write 0 rgid offset.toInt value).2.mm.pgd n) = true →
    pagingPagePresent ((w.sys.mm p).pgd n) = true ∨
      ((w.sys.mm p).symrgtbl rgid).Overlaps n

/-- The address of an access. -/
def accessAddr (w : MemWorld Pid) (p : Pid) (rgid : ℤ) (offset : Word) : Word :=
  Caller.regionAddr ((w.sys.mm p).symrgtbl rgid) offset.toInt

/-- The RAM cell of the address is not that of an address of another live region. -/
def OwnCell (w : MemWorld Pid) (p : Pid) (rgid : ℤ) (addr : Word) : Prop :=
  ∀ addr', w.OfOther p rgid addr' → (w.sys.mm p).Present addr' →
    (w.sys.mm p).ramCell addr' ≠ (w.sys.mm p).ramCell addr

/-- An access at the offset exchanges no page: its page is present or cannot be fetched. -/
def FetchesNothing (w : MemWorld Pid) (p : Pid) (rgid : ℤ) (offset : Word) : Prop :=
  (w.sys.mm p).Present (w.accessAddr p rgid offset) ∨
    (w.sys.caller p).Unfetchable (pagingPgn (w.accessAddr p rgid offset))

/-! ## One access -/

/-- The address of an access is computed modulo `2 ^ 32`. -/
lemma accessAddr_toNat (w : MemWorld Pid) (p : Pid) (rgid : ℤ) (offset : Word) :
    (w.accessAddr p rgid offset).toNat =
      (((w.sys.mm p).symrgtbl rgid).rgStart + offset.toNat) % 2 ^ 32 := by
  have hoffset := BitVec.toInt_eq_toNat_cond offset
  unfold accessAddr Caller.regionAddr
  rw [BitVec.toNat_ofInt]
  split at hoffset <;> omega

lemma target_eq (w : MemWorld Pid) (p : Pid) {rgid : ℤ} (hlo : 0 ≤ rgid)
    (hhi : rgid < pagingMaxSymtblSz) (offset : Word) :
    (w.sys.mm p).target rgid offset.toInt = some (w.accessAddr p rgid offset) := by
  have hvalid : ¬ (rgid < 0 ∨ rgid > pagingMaxSymtblSz) := by omega
  unfold Mm.target Mm.getSymrgByid accessAddr
  rw [if_neg hvalid]
  rfl

/-- A write to a present page. -/
lemma write_present {w : MemWorld Pid} {p : Pid} {rgid : ℤ} {offset : Word} {v : VmArea}
    (hv : (w.sys.mm p).mmap = [v]) (hrdm : w.sys.mram.rdmflg = true) (hlo : 0 ≤ rgid)
    (hhi : rgid < pagingMaxSymtblSz)
    (hpresent : (w.sys.mm p).Present (w.accessAddr p rgid offset)) (value : Byte) :
    (w.sys.caller p).write 0 rgid offset.toInt value =
      (0, (w.sys.caller p).setCell ((w.sys.mm p).ramCell (w.accessAddr p rgid offset)) value) := by
  rw [write_of_target (c := w.sys.caller p) hv value (w.target_eq p hlo hhi offset),
    Caller.pgSetval_present (c := w.sys.caller p) hrdm value hpresent]
  rfl

/-- A write to a page that cannot be fetched. -/
lemma write_unfetchable {w : MemWorld Pid} {p : Pid} {rgid : ℤ} {offset : Word} {v : VmArea}
    (hv : (w.sys.mm p).mmap = [v]) (hlo : 0 ≤ rgid) (hhi : rgid < pagingMaxSymtblSz)
    (h : (w.sys.caller p).Unfetchable (pagingPgn (w.accessAddr p rgid offset))) (value : Byte) :
    ((w.sys.caller p).write 0 rgid offset.toInt value).2.mm.pgd = (w.sys.mm p).pgd ∧
      ((w.sys.caller p).write 0 rgid offset.toInt value).2.mram = w.sys.mram := by
  obtain ⟨hnone, hpgd, hmram⟩ := Caller.pgGetpage_unfetchable h
  rw [write_of_target (c := w.sys.caller p) hv value (w.target_eq p hlo hhi offset)]
  unfold Caller.pgSetval
  dsimp only
  generalize (w.sys.caller p).pgGetpage (pagingPgn (w.accessAddr p rgid offset)) = result
    at hnone hpgd hmram ⊢
  obtain ⟨frame, c⟩ := result
  obtain rfl : frame = none := hnone
  exact ⟨hpgd, hmram⟩

/-- No region is isolated at an offset behind its end: both calls report success. -/
lemma Isolated.not_beyond {w : MemWorld Pid} {p : Pid} {rgid : ℤ} {offset : Word} {v : VmArea}
    (h : w.Isolated p rgid offset) (hv : (w.sys.mm p).mmap = [v]) (hlo : 0 ≤ rgid)
    (hhi : rgid < pagingMaxSymtblSz) : ¬ w.Beyond p rgid offset := by
  intro hbeyond
  have hread := (h.refused hbeyond).read.1
  rw [read_of_target (c := w.sys.caller p) hv (w.target_eq p hlo hhi offset)] at hread
  exact hread rfl

end MemWorld

/-! ## Runs -/

/-- The calls of all processes, interleaved in any order. -/
def worldSystem (Pid : Type*) [DecidableEq Pid] : LTS (MemWorld Pid) (Pid × MemCall) where
  start w := w.sys.Initial ∧ w.written = fun _ _ => none
  step w a w' := w' = w.call a.1 a.2

namespace MemWorld

variable [DecidableEq Pid]

/-- The memory of a reachable world is that of a run of calls. -/
lemma sys_reachable {w : MemWorld Pid} (hw : (worldSystem Pid).Reachable w) :
    (callSystem Pid).Reachable w.sys := by
  induction hw with
  | start h => exact .start h.1
  | step _ ht ih =>
    subst ht
    exact .step ih rfl

/-- A region is isolated only at offsets inside it.  At an offset inside at which no page is
exchanged it is isolated exactly if, should the page be present, the RAM cell of the access belongs
to no other live region. -/
theorem isolated_iff {w : MemWorld Pid} (hw : (worldSystem Pid).Reachable w) {p : Pid} {rgid : ℤ}
    (hlo : 0 ≤ rgid) (hhi : rgid < pagingMaxSymtblSz) (offset : Word) :
    (w.Isolated p rgid offset → ¬ w.Beyond p rgid offset) ∧
      (¬ w.Beyond p rgid offset → w.FetchesNothing p rgid offset →
        (w.Isolated p rgid offset ↔ ((w.sys.mm p).Present (w.accessAddr p rgid offset) →
          w.OwnCell p rgid (w.accessAddr p rgid offset)))) := by
  have hreached := sys_reachable hw
  obtain ⟨v, hv⟩ := area_of_reachable hreached p
  have hrdm := rdmflg_of_reachable hreached
  refine ⟨fun h => h.not_beyond hv hlo hhi, fun hin hpage => ?_⟩
  constructor
  · intro h hpresent addr hother haddr hcell
    -- a write of another byte is seen through the other region
    let value := w.sys.mram.storage ((w.sys.mm p).ramCell addr) + 1
    have hsame := h.others value addr hother
    rw [write_present hv hrdm hlo hhi hpresent value, Caller.byteAt_setCell,
      if_pos ⟨haddr, hcell⟩] at hsame
    have hold : (w.sys.caller p).byteAt addr =
        some (w.sys.mram.storage ((w.sys.mm p).ramCell addr)) := if_pos haddr
    rw [hold] at hsame
    have hbyte : ∀ b : Byte, b + 1 ≠ b := by decide
    exact hbyte _ (Option.some.inj hsame)
  · intro hown
    refine ⟨fun hbeyond => absurd hbeyond hin, fun value addr hother => ?_, fun value n hn => ?_⟩
    · rcases hpage with hpresent | hunfetchable
      · rw [write_present hv hrdm hlo hhi hpresent value, Caller.byteAt_setCell,
          if_neg fun h => hown hpresent addr hother h.1 h.2]
      · obtain ⟨hpgd, hmram⟩ := write_unfetchable hv hlo hhi hunfetchable value
        exact Caller.byteAt_congr hpgd hmram addr
    · rcases hpage with hpresent | hunfetchable
      · rw [write_present hv hrdm hlo hhi hpresent value] at hn
        exact .inl hn
      · rw [(write_unfetchable hv hlo hhi hunfetchable value).1] at hn
        exact .inl hn

/-- The last byte of a region, with another live region right behind it on the same page. -/
theorem isolated_iff_two_regions :
    (((MemWorld.fresh 1024 0).call () (.alloc 0 300)).call () (.alloc 1 10)).Isolated () 0 299 := by
  have hfirst : (worldSystem Unit).Reachable ((MemWorld.fresh 1024 0).call () (.alloc 0 300)) :=
    .step (.start ⟨MemSys.initial_fresh 1024 0, rfl⟩) (a := ((), .alloc 0 300)) rfl
  have hreached : (worldSystem Unit).Reachable
      (((MemWorld.fresh 1024 0).call () (.alloc 0 300)).call () (.alloc 1 10)) :=
    .step hfirst (a := ((), .alloc 1 10)) rfl
  have hsecond : ((((MemWorld.fresh 1024 0).call () (.alloc 0 300)).call ()
      (.alloc 1 10)).sys.mm ()).symrgtbl 1 = ⟨300, 310⟩ := by decide +kernel
  refine ((isolated_iff hreached le_rfl (by decide) 299).2
    (by unfold Beyond; decide +kernel) (.inl (by decide +kernel))).mpr ?_
  rintro - addr ⟨r, hne, hlive, k, hk, hend, rfl⟩ -
  obtain rfl : r = 1 := by
    by_contra hother
    simp [MemWorld.call, Written.after, MemCall.run, Caller.alloc_status, Written.set_apply, hne,
      hother, MemWorld.fresh] at hlive
  rw [hsecond] at hend ⊢
  have hapart : ∀ k < 10, ((((MemWorld.fresh 1024 0).call () (.alloc 0 300)).call ()
      (.alloc 1 10)).sys.mm ()).ramCell (Caller.regionAddr ⟨300, 310⟩ (k : ℕ)) ≠
        ((((MemWorld.fresh 1024 0).call () (.alloc 0 300)).call () (.alloc 1 10)).sys.mm
          ()).ramCell ((((MemWorld.fresh 1024 0).call () (.alloc 0 300)).call ()
            (.alloc 1 10)).accessAddr () 0 299) := by
    decide +kernel
  lift k to ℕ using hk
  exact hapart k (by dsimp only at hend; omega)

/-- The byte behind a region of 256 bytes is the first byte of the next region.  A read through the
first one delivers it. -/
theorem not_isolated : ¬ ∀ w : MemWorld Unit, (worldSystem Unit).Reachable w → ∀ p rgid,
    0 ≤ rgid → rgid < pagingMaxSymtblSz → w.written p rgid ≠ none →
      ∀ offset, w.Isolated p rgid offset := by
  intro h
  have hfirst : (worldSystem Unit).Reachable ((MemWorld.fresh 1024 0).call () (.alloc 0 256)) :=
    .step (.start ⟨MemSys.initial_fresh 1024 0, rfl⟩) (a := ((), .alloc 0 256)) rfl
  have hreached : (worldSystem Unit).Reachable
      (((MemWorld.fresh 1024 0).call () (.alloc 0 256)).call () (.alloc 1 256)) :=
    .step hfirst (a := ((), .alloc 1 256)) rfl
  have hlive : (((MemWorld.fresh 1024 0).call () (.alloc 0 256)).call () (.alloc 1 256)).written
      () 0 ≠ none := by
    simp [MemWorld.call, Written.after, MemCall.run, Caller.alloc_status, Written.set_apply]
  have hrefused := (h _ hreached () 0 le_rfl (by decide) hlive 256).refused
    (by unfold Beyond; decide +kernel)
  exact absurd hrefused.read.1 (by decide +kernel)

/-- When every allocation was backed, no access inside a region exchanges a page: all pages of the
area are present. -/
theorem fetchesNothing_of_backed {w : MemWorld Pid}
    (hw : (((worldSystem Pid).startIn fun w => w.sys.NoStaleRegions).restrict
      fun w a => (w.sys.caller a.1).StaysMapped a.2).Reachable w) {p : Pid} {rgid : ℤ}
    {offset : Word} (hin : ¬ w.Beyond p rgid offset) : w.FetchesNothing p rgid offset := by
  have hall : ∀ q, ∃ v, AllMapped (w.sys.mm q) v := by
    refine hw.invariant_restrict (I := fun w => ∀ q, ∃ v, AllMapped (w.sys.mm q) v) ?_ ?_
    · rintro w ⟨⟨hinit, -⟩, hstale⟩ q
      exact allMapped_of_initial hinit hstale q
    · intro w a w' h ht hok
      obtain rfl : w' = w.call a.1 a.2 := ht
      obtain ⟨v, hv⟩ := h a.1
      exact MemSys.forall_call (P := fun mm => ∃ v, AllMapped mm v) h
        (AllMapped.call (c := w.sys.caller a.1) hv hok)
  obtain ⟨v, hv⟩ := hall p
  have hregion := (hv.laid.sym rgid).2
  have hsmall := hv.laid.small
  have haligned := hv.laid.aligned
  have haddr := w.accessAddr_toNat p rgid offset
  unfold Beyond at hin
  refine .inl (hv.present _ ?_)
  rw [pagingPagesz_eq] at haligned ⊢
  rw [pagingPgn_eq, haddr]
  omega

end MemWorld

end Ossim
