import Ossim.Lib.Translation
import Ossim.Paging.System

/-!
# Paged memory as memory

What the processes expect of their memory is a byte map for each live region: the byte last
written at each address since the region was allocated.  `memSystem` runs the calls of all
processes together with these maps, and `ReadsBack` says that a read delivers the expected byte.

The code does not read back every byte.  `PAGING_FPN` decodes the frame of a page from other bits
than those `pte_set_fpn` fills, so pages share RAM cells; and an entry of a swapped-out page still
has the present bit, so the page is never brought back.  `paged_memory_reads_back` shows
that these are the only ways to lose a byte: as long as every access goes to a page that is
resident and every write goes to a cell of its own, a read delivers what was written, whatever
was allocated, freed, evicted or written in between.
-/

namespace Ossim

namespace Mm

/-- The RAM address of a virtual address on a resident page. -/
def resolve (mm : Mm) (addr : Word) : Option ℤ :=
  if pteResident (mm.pgd (pagingPgn addr)) then some (mm.ramCell addr) else none

end Mm

/-- `rg.Contains addr`: the address of some offset inside the region. -/
def VmRg.Contains (rg : VmRg) (addr : Word) : Prop :=
  ∃ offset : ℤ, 0 ≤ offset ∧ rg.rgStart + offset < rg.rgEnd ∧ addr = Caller.regionAddr rg offset

/-! ## What the processes expect -/

/-- For each process and region id: `none` when no region is live under this id, otherwise the
bytes written to each address since the region was allocated. -/
abbrev Written (Pid : Type*) := Pid → ℤ → Option (Word → Option Byte)

/-- The state of all processes' memory and what they expect of it. -/
structure MemWorld (Pid : Type*) where
  /-- The memory. -/
  sys : MemSys Pid
  /-- What was written to it. -/
  written : Written Pid

variable {Pid : Type*} [DecidableEq Pid]

/-- Set what is expected under one region id of one process. -/
def Written.set (w : Written Pid) (p : Pid) (rgid : ℤ) (x : Option (Word → Option Byte)) :
    Written Pid :=
  Function.update w p (Function.update (w p) rgid x)

lemma Written.set_apply (w : Written Pid) (p q : Pid) (rgid r : ℤ)
    (x : Option (Word → Option Byte)) :
    w.set p rgid x q r = if q = p ∧ r = rgid then x else w q r := by
  unfold Written.set
  by_cases hq : q = p
  · subst hq
    by_cases hr : r = rgid <;> simp [hr]
  · simp [hq]

/-- What is expected after a call that process `p` makes in the state `s`. -/
def Written.after (w : Written Pid) (s : MemSys Pid) (p : Pid) (k : MemCall) : Written Pid :=
  if (k.run (s.caller p)).1 = 0 then
    match k with
    | .alloc rgid _ => w.set p rgid (some fun _ => none)
    | .free rgid => w.set p rgid none
    | .read _ _ => w
    | .write rgid offset value =>
      let addr := Caller.regionAddr ((s.mm p).symrgtbl rgid) offset
      Function.update w p fun r => (w p r).map fun bytes => Function.update bytes addr (some value)
  else w

namespace MemWorld

/-- The world after a call. -/
def call (w : MemWorld Pid) (p : Pid) (k : MemCall) : MemWorld Pid :=
  ⟨w.sys.call p k, w.written.after w.sys p k⟩

omit [DecidableEq Pid] in
/-- `w.Expects p addr b`: process `p` wrote `b` last at `addr`, the address of an offset inside
a live region that was allocated before. -/
def Expects (w : MemWorld Pid) (p : Pid) (addr : Word) (b : Byte) : Prop :=
  ∃ rgid bytes, w.written p rgid = some bytes ∧ bytes addr = some b ∧
    ((w.sys.mm p).symrgtbl rgid).Contains addr

omit [DecidableEq Pid] in
/-- A read that succeeds, at an offset inside a live region and where the process has written
since the region was allocated, delivers the byte written last. -/
def ReadsBack (w : MemWorld Pid) (p : Pid) (rgid offset : ℤ) : Prop :=
  ∀ bytes b, w.written p rgid = some bytes → 0 ≤ offset →
    ((w.sys.mm p).symrgtbl rgid).rgStart + offset < ((w.sys.mm p).symrgtbl rgid).rgEnd →
    bytes (Caller.regionAddr ((w.sys.mm p).symrgtbl rgid) offset) = some b →
    ((w.sys.caller p).read 0 rgid offset).1 = 0 →
    ((w.sys.caller p).read 0 rgid offset).2.1 = some b

end MemWorld

/-- The calls that the theorems on runs allow: an allocation names an entry of the symbol table and
asks for at least one byte. -/
def MemCall.Valid : MemCall → Prop
  | .alloc rgid size => 0 ≤ rgid ∧ rgid < pagingMaxSymtblSz ∧ 1 ≤ size ∧ size < 2 ^ 31
  | _ => True

instance (k : MemCall) : Decidable k.Valid := by
  cases k <;> unfold MemCall.Valid <;> infer_instance

/-- The processes' calls, interleaved in any order, while the address spaces stay below 4 MB. -/
def memSystem (Pid : Type*) [DecidableEq Pid] : LTS (MemWorld Pid) (Pid × MemCall) where
  start w := w.sys.Initial ∧ w.written = fun _ _ => none
  step w a w' := a.2.Valid ∧ w' = w.call a.1 a.2 ∧ w'.sys.Small

/-- The access goes to a resident page. -/
def MemWorld.AccessResident (w : MemWorld Pid) (p : Pid) (rgid offset : ℤ) : Prop :=
  ∀ addr, (w.sys.mm p).target rgid offset = some addr →
    pteResident ((w.sys.mm p).pgd (pagingPgn addr)) = true

/-- The write goes to a RAM cell that no other expected byte on a resident page uses. -/
def MemWorld.WriteApart (w : MemWorld Pid) (p : Pid) (rgid offset : ℤ) : Prop :=
  ∀ addr, (w.sys.mm p).target rgid offset = some addr →
    ∀ q addr' b, (q, addr') ≠ (p, addr) → w.Expects q addr' b →
      (w.sys.mm q).resolve addr' ≠ some ((w.sys.mm p).ramCell addr)

/-- The condition under which no byte is lost. -/
def MemWorld.AccessOk (w : MemWorld Pid) (a : Pid × MemCall) : Prop :=
  match a.2 with
  | .alloc _ _ => True
  | .free _ => True
  | .read rgid offset => w.AccessResident a.1 rgid offset
  | .write rgid offset _ => w.AccessResident a.1 rgid offset ∧ w.WriteApart a.1 rgid offset

/-! ## One access to a resident page -/

lemma resolve_of_resident {mm : Mm} {addr : Word}
    (h : pteResident (mm.pgd (pagingPgn addr)) = true) :
    mm.resolve addr = some (mm.ramCell addr) :=
  if_pos h

/-- A resident page has the present bit. -/
lemma present_of_resident {mm : Mm} {addr : Word}
    (h : pteResident (mm.pgd (pagingPgn addr)) = true) : mm.Present addr := by
  unfold pteResident at h
  exact (Bool.and_eq_true_iff.mp h).1

/-! ## The invariant -/

/-- A process with a single area that is made of whole pages and holds all resident pages. -/
structure PagesBelow (mm : Mm) (v : VmArea) : Prop where
  /-- The only area. -/
  mmap : mm.mmap = [v]
  /-- It ends below 4 MB. -/
  small : v.vmEnd ≤ 2 ^ 22
  /-- It ends at a page boundary. -/
  aligned : pagingPagesz ∣ v.vmEnd
  /-- Resident pages lie in it. -/
  resident : ∀ n, pteResident (mm.pgd n) = true → n < v.vmEnd / pagingPagesz

/-- The invariant of the runs that lose no byte. -/
structure Coherent (w : MemWorld Pid) : Prop where
  /-- RAM is in random access mode. -/
  rdmflg : w.sys.mram.rdmflg = true
  /-- Each process has a single area, with its resident and its expected pages. -/
  area : ∀ p, ∃ v, PagesBelow (w.sys.mm p) v ∧
    ∀ addr b, w.Expects p addr b → pagingPgn addr < v.vmEnd / pagingPagesz
  /-- RAM holds the expected byte of each resident address. -/
  content : Mirrors (fun a : Pid × Word => (w.sys.mm a.1).resolve a.2) w.sys.mram.storage
    fun a b => w.Expects a.1 a.2 b

lemma coherent_of_start {w : MemWorld Pid} (h : (memSystem Pid).start w) : Coherent w := by
  obtain ⟨hinit, hwritten⟩ := h
  have hnone : ∀ p addr b, ¬ w.Expects p addr b := by
    rintro p addr b ⟨rgid, bytes, hbytes, -⟩
    simp [hwritten] at hbytes
  refine ⟨?_, ?_, Mirrors.of_empty fun a b => hnone a.1 a.2 b⟩
  · obtain ⟨mp, tail, maxSize, hmram⟩ := hinit.mram
    rw [hmram, Memphy.rdmflg_initMemphy]
  · intro p
    obtain ⟨mm, freerg, hmm⟩ := hinit.mm p
    refine ⟨_, ⟨by rw [hmm]; rfl, by simp, by simp, fun n hn => ?_⟩,
      fun addr b h => absurd h (hnone p addr b)⟩
    rw [hmm] at hn
    simp [initMm, pteResident] at hn

/-! ## Calls that only forget or remap -/

omit [DecidableEq Pid] in
/-- A step of process `p` that keeps RAM and every other process, loses expectations only, and
keeps or swaps out the expected pages, keeps the invariant. -/
lemma Coherent.of_remap {w w' : MemWorld Pid} (h : Coherent w) (p : Pid)
    (hrdm : w'.sys.mram.rdmflg = w.sys.mram.rdmflg)
    (hstorage : w'.sys.mram.storage = w.sys.mram.storage)
    (hother : ∀ q, q ≠ p → w'.sys.mm q = w.sys.mm q)
    (hexp : ∀ q addr b, w'.Expects q addr b → w.Expects q addr b) {v v' : VmArea}
    (hv : PagesBelow (w.sys.mm p) v) (hv' : PagesBelow (w'.sys.mm p) v')
    (hle : v.vmEnd ≤ v'.vmEnd)
    (hpgd : ∀ n, n < v.vmEnd / pagingPagesz → (w'.sys.mm p).pgd n = (w.sys.mm p).pgd n ∨
      pteSwapped ((w'.sys.mm p).pgd n) = true) : Coherent w' := by
  have hbound : ∀ addr b, w.Expects p addr b → pagingPgn addr < v.vmEnd / pagingPagesz := by
    obtain ⟨u, hu, hpages⟩ := h.area p
    obtain rfl : u = v := by simpa using hu.mmap.symm.trans hv.mmap
    exact hpages
  refine ⟨hrdm.trans h.rdmflg, ?_, ?_⟩
  · intro q
    by_cases hq : q = p
    · subst hq
      refine ⟨v', hv', fun addr b hb => ?_⟩
      exact (hbound addr b (hexp q addr b hb)).trans_le (Nat.div_le_div_right hle)
    · rw [hother q hq]
      obtain ⟨u, hu, hpages⟩ := h.area q
      exact ⟨u, hu, fun addr b hb => hpages addr b (hexp q addr b hb)⟩
  · rw [hstorage]
    refine h.content.mono (fun a b hb => hexp a.1 a.2 b hb) fun a b c hb hc => ?_
    obtain ⟨q, addr⟩ := a
    by_cases hq : q = p
    · subst hq
      have hpage := hbound addr b (hexp q addr b hb)
      simp only [Mm.resolve, Mm.ramCell] at hc ⊢
      rcases hpgd _ hpage with heq | hswap
      · rwa [heq] at hc
      · simp [pteResident, hswap] at hc
    · simpa only [hother q hq] using hc

/-- An allocation keeps the invariant. -/
lemma Coherent.alloc {w : MemWorld Pid} (h : Coherent w) (p : Pid) {rgid size : ℤ}
    (hlo : 1 ≤ size) (hhi : size < 2 ^ 31) (hsmall : (w.call p (.alloc rgid size)).sys.Small) :
    Coherent (w.call p (.alloc rgid size)) := by
  obtain ⟨v, hv, -⟩ := h.area p
  have heff := Caller.alloc_effect (c := w.sys.caller p) hv.mmap rgid size
  have hwritten : (w.call p (.alloc rgid size)).written =
      w.written.set p rgid (some fun _ => none) := by
    simp [MemWorld.call, Written.after, MemCall.run]
  have hsys : (w.call p (.alloc rgid size)).sys =
      w.sys.put p ((w.sys.caller p).alloc 0 rgid size).2.2 := rfl
  generalize w.call p (.alloc rgid size) = w' at hsmall hwritten hsys ⊢
  generalize ((w.sys.caller p).alloc 0 rgid size).2.2 = c at heff hsys
  have hmm : w'.sys.mm p = c.mm := by rw [hsys, MemSys.mm_put_self]
  have hram : w'.sys.mram = c.mram := by rw [hsys, MemSys.put]
  have hother : ∀ q, q ≠ p → w'.sys.mm q = w.sys.mm q := by
    intro q hq
    rw [hsys, MemSys.mm_put_of_ne _ hq]
  have hexp : ∀ q addr b, w'.Expects q addr b → w.Expects q addr b := by
    rintro q addr b ⟨r, bytes, hbytes, hb, hin⟩
    rw [hwritten, Written.set_apply] at hbytes
    split at hbytes
    · cases hbytes
      cases hb
    · next hne =>
      have hsym : (w'.sys.mm q).symrgtbl r = (w.sys.mm q).symrgtbl r := by
        by_cases hq : q = p
        · subst hq
          rw [hmm]
          exact heff.symrgtbl r fun hr => hne ⟨rfl, hr⟩
        · rw [hother q hq]
      rw [hsym] at hin
      exact ⟨r, bytes, hbytes, hb, hin⟩
  obtain ⟨v', hmmap, harea⟩ := heff.area
  have hend : v'.vmEnd ≤ 2 ^ 22 := hsmall p v' (by simp [hmm, hmmap])
  have hpages : v.vmEnd ≤ v'.vmEnd ∧ pagingPagesz ∣ v'.vmEnd ∧
      ∀ n, c.mm.pgd n = (w.sys.mm p).pgd n ∨ pteSwapped (c.mm.pgd n) = true ∨
        v.vmEnd / pagingPagesz ≤ n ∧ n < v'.vmEnd / pagingPagesz := by
    rcases harea with ⟨hsame, hpgd⟩ | ⟨hgrown, hpgd⟩
    · rw [hsame, hpgd]
      exact ⟨le_rfl, hv.aligned, fun n => .inl rfl⟩
    · rw [hgrown] at hend ⊢
      obtain ⟨hle, hdvd, hfirst, hlast⟩ := Caller.grown_pages hv.aligned hv.small hlo hhi hend
      rw [hlast, hfirst] at hpgd
      exact ⟨hle, hdvd, hpgd⟩
  obtain ⟨hle, hdvd, hpgd⟩ := hpages
  have hstorage : w'.sys.mram.storage = w.sys.mram.storage := by rw [hram]; exact heff.storage
  have hmmap' : (w'.sys.mm p).mmap = [v'] := by rw [hmm, hmmap]
  refine h.of_remap p (by rw [hram]; exact heff.rdmflg) hstorage hother hexp hv
    ⟨hmmap', hend, hdvd, fun n hn => ?_⟩ hle fun n hn => ?_
  · rw [hmm] at hn
    rcases hpgd n with heq | hswap | hnew
    · rw [heq] at hn
      exact (hv.resident n hn).trans_le (Nat.div_le_div_right hle)
    · simp [pteResident, hswap] at hn
    · exact hnew.2
  · rw [hmm]
    rcases hpgd n with heq | hswap | hnew
    · exact .inl heq
    · exact .inr hswap
    · omega

/-- A release keeps the invariant. -/
lemma Coherent.free {w : MemWorld Pid} (h : Coherent w) (p : Pid) (rgid : ℤ) :
    Coherent (w.call p (.free rgid)) := by
  obtain ⟨v, hv, -⟩ := h.area p
  obtain ⟨list, hfree⟩ := Caller.free_single (c := w.sys.caller p) hv.mmap 0 rgid
  have hsys : (w.call p (.free rgid)).sys = w.sys.put p ((w.sys.caller p).free 0 rgid).2 := rfl
  have hwritten : ∀ q r bytes, (w.call p (.free rgid)).written q r = some bytes →
      w.written q r = some bytes := by
    intro q r bytes hbytes
    simp only [MemWorld.call, Written.after] at hbytes
    split at hbytes
    · rw [Written.set_apply] at hbytes
      split at hbytes
      · cases hbytes
      · exact hbytes
    · exact hbytes
  generalize w.call p (.free rgid) = w' at hsys hwritten ⊢
  rw [hfree] at hsys
  have hother : ∀ q, q ≠ p → w'.sys.mm q = w.sys.mm q := by
    intro q hq
    rw [hsys, MemSys.mm_put_of_ne _ hq]
  have hsym : ∀ q, (w'.sys.mm q).symrgtbl = (w.sys.mm q).symrgtbl := by
    intro q
    by_cases hq : q = p
    · subst hq
      rw [hsys, MemSys.mm_put_self]
      rfl
    · rw [hother q hq]
  have hpgd : (w'.sys.mm p).pgd = (w.sys.mm p).pgd := by
    rw [hsys, MemSys.mm_put_self]
    rfl
  have hmmap : (w'.sys.mm p).mmap = [{ v with vmFreergList := list }] := by
    rw [hsys, MemSys.mm_put_self]
  have hexp : ∀ q addr b, w'.Expects q addr b → w.Expects q addr b := by
    rintro q addr b ⟨r, bytes, hbytes, hb, hin⟩
    rw [hsym q] at hin
    exact ⟨r, bytes, hwritten q r bytes hbytes, hb, hin⟩
  exact h.of_remap p (by rw [hsys]; rfl) (by rw [hsys]; rfl) hother hexp hv
    ⟨hmmap, hv.small, hv.aligned, fun n hn => hv.resident n (by rwa [hpgd] at hn)⟩ le_rfl
    fun n _ => .inl (by rw [hpgd])

/-! ## Calls that access memory -/

/-- A read of a resident page changes nothing. -/
lemma Coherent.call_read {w : MemWorld Pid} (h : Coherent w) (p : Pid) {rgid offset : ℤ}
    (hres : w.AccessResident p rgid offset) : w.call p (.read rgid offset) = w := by
  obtain ⟨v, hv, -⟩ := h.area p
  have hsame : ((w.sys.caller p).read 0 rgid offset).2.2 = w.sys.caller p := by
    cases htarget : (w.sys.mm p).target rgid offset with
    | none => rw [read_of_target_none htarget]
    | some addr =>
      rw [read_of_target (c := w.sys.caller p) hv.mmap htarget,
        Caller.pgGetval_present (c := w.sys.caller p) h.rdmflg
          (present_of_resident (hres addr htarget))]
  have hsys : w.sys.call p (.read rgid offset) = w.sys := by
    rw [MemSys.call, MemCall.run, hsame, MemSys.put_caller]
  simp only [MemWorld.call, hsys, Written.after]
  split <;> rfl

/-- What a write to a resident page does: one RAM cell changes, and the byte is expected in all
live regions. -/
lemma Coherent.call_write {w : MemWorld Pid} (h : Coherent w) (p : Pid) {rgid offset : ℤ}
    (value : Byte) (hres : w.AccessResident p rgid offset) {addr : Word}
    (htarget : (w.sys.mm p).target rgid offset = some addr) :
    w.call p (.write rgid offset value) =
      { sys := { w.sys with
          mram := { w.sys.mram with
            storage :=
              Function.update w.sys.mram.storage ((w.sys.mm p).ramCell addr) value } }
        written := Function.update w.written p fun r =>
          (w.written p r).map fun bytes => Function.update bytes addr (some value) } := by
  obtain ⟨v, hv, -⟩ := h.area p
  have hwrite := write_of_target (c := w.sys.caller p) hv.mmap value htarget
  rw [Caller.pgSetval_present (c := w.sys.caller p) h.rdmflg value
    (present_of_resident (hres addr htarget))] at hwrite
  obtain ⟨-, rfl⟩ := target_eq_some htarget
  simp only [MemWorld.call, MemSys.call, MemCall.run, Written.after, hwrite, if_true]
  simp [MemSys.put, MemSys.caller]

/-- A write to a resident page, to a cell that no other expected byte uses, keeps the
invariant. -/
lemma Coherent.write {w : MemWorld Pid} (h : Coherent w) (p : Pid) {rgid offset : ℤ}
    (value : Byte) (hres : w.AccessResident p rgid offset) (hapart : w.WriteApart p rgid offset) :
    Coherent (w.call p (.write rgid offset value)) := by
  obtain ⟨v, hv, -⟩ := h.area p
  cases htarget : (w.sys.mm p).target rgid offset with
  | none =>
    have hsame : w.call p (.write rgid offset value) = w := by
      simp only [MemWorld.call, MemSys.call, MemCall.run, Written.after,
        write_of_target_none (c := w.sys.caller p) value htarget]
      simp
    rwa [hsame]
  | some addr =>
    have hpte := hres addr htarget
    -- afterwards only the written address and what was expected before is expected
    have hexp : ∀ q addr' b, (w.call p (.write rgid offset value)).Expects q addr' b →
        (q, addr') = (p, addr) ∧ b = value ∨ (q, addr') ≠ (p, addr) ∧ w.Expects q addr' b := by
      rintro q addr' b ⟨r, bytes', hbytes', hb, hin⟩
      rw [h.call_write p value hres htarget] at hbytes' hin
      by_cases hq : q = p
      · subst hq
        simp only [Function.update_self] at hbytes'
        obtain ⟨bytes, hbytes, rfl⟩ := Option.map_eq_some_iff.mp hbytes'
        by_cases haddr : addr' = addr
        · subst haddr
          rw [Function.update_self] at hb
          exact .inl ⟨rfl, (Option.some.inj hb).symm⟩
        · rw [Function.update_of_ne haddr] at hb
          exact .inr ⟨by simp [haddr], r, bytes, hbytes, hb, hin⟩
      · simp only [Function.update_of_ne hq] at hbytes'
        exact .inr ⟨by simp [hq], r, bytes', hbytes', hb, hin⟩
    have hmm : (w.call p (.write rgid offset value)).sys.mm = w.sys.mm := by
      rw [h.call_write p value hres htarget]
    refine ⟨?_, ?_, ?_⟩
    · rw [h.call_write p value hres htarget]
      exact h.rdmflg
    · intro q
      rw [hmm]
      obtain ⟨u, hu, hpages⟩ := h.area q
      refine ⟨u, hu, fun addr' b hb => ?_⟩
      rcases hexp q addr' b hb with ⟨heq, -⟩ | ⟨-, hold⟩
      · obtain ⟨rfl, rfl⟩ := Prod.mk.inj heq
        exact hu.resident _ hpte
      · exact hpages addr' b hold
    · have hstorage : (w.call p (.write rgid offset value)).sys.mram.storage =
          Function.update w.sys.mram.storage ((w.sys.mm p).ramCell addr) value := by
        rw [h.call_write p value hres htarget]
      rw [hmm, hstorage]
      refine h.content.write (a := (p, addr)) (resolve_of_resident hpte) ?_ ?_ ?_
      · exact fun a b hne hb => hapart addr htarget a.1 a.2 b hne hb
      · intro b hb
        rcases hexp p addr b hb with ⟨-, hb⟩ | ⟨hne, -⟩
        · exact hb
        · exact absurd rfl hne
      · intro a b hne hb
        rcases hexp a.1 a.2 b hb with ⟨heq, -⟩ | ⟨-, hold⟩
        · exact absurd heq hne
        · exact hold

/-- Every call that meets the condition keeps the invariant. -/
lemma Coherent.step {w w' : MemWorld Pid} {a : Pid × MemCall} (h : Coherent w)
    (ht : (memSystem Pid).step w a w') (hok : w.AccessOk a) : Coherent w' := by
  obtain ⟨p, k⟩ := a
  obtain ⟨hvalid, rfl, hsmall⟩ := ht
  cases k with
  | alloc rgid size => exact h.alloc p hvalid.2.2.1 hvalid.2.2.2 hsmall
  | free rgid => exact h.free p rgid
  | read rgid offset =>
    rw [h.call_read p hok]
    exact h
  | write rgid offset value => exact h.write p value hok.1 hok.2

omit [DecidableEq Pid] in
/-- In a state that meets the invariant, a read of a resident page delivers the expected
byte. -/
lemma Coherent.readsBack {w : MemWorld Pid} (h : Coherent w) {p : Pid} {rgid offset : ℤ}
    (hres : w.AccessResident p rgid offset) : w.ReadsBack p rgid offset := by
  intro bytes b hbytes hlo hhi hb hret
  obtain ⟨v, hv, hpages⟩ := h.area p
  cases htarget : (w.sys.mm p).target rgid offset with
  | none =>
    rw [read_of_target_none (c := w.sys.caller p) htarget] at hret
    simp at hret
  | some addr =>
    have hpte := hres addr htarget
    rw [read_of_target (c := w.sys.caller p) hv.mmap htarget,
      Caller.pgGetval_present (c := w.sys.caller p) h.rdmflg (present_of_resident hpte)]
    obtain ⟨-, rfl⟩ := target_eq_some htarget
    have hexp : w.Expects p (Caller.regionAddr ((w.sys.mm p).symrgtbl rgid) offset) b :=
      ⟨rgid, bytes, hbytes, hb, offset, hlo, hhi, rfl⟩
    exact congrArg some (h.content (p, _) b _ hexp (resolve_of_resident hpte))

/-! ## Runs -/

/-- Paged memory reads back what was written, in every run in which each access goes to a resident
page and each write to a RAM cell that no other expected byte uses. -/
theorem paged_memory_reads_back {w : MemWorld Pid}
    (hw : ((memSystem Pid).restrict MemWorld.AccessOk).Reachable w) {p : Pid} {rgid offset : ℤ}
    (hok : w.AccessOk (p, .read rgid offset)) : w.ReadsBack p rgid offset := by
  have hcoherent : Coherent w :=
    hw.invariant_restrict (fun _ => coherent_of_start) fun _ _ _ h ht hok => h.step ht hok
  exact hcoherent.readsBack hok

/-- A single process and nothing written yet, with `ram` bytes of RAM. -/
def MemWorld.fresh (ram swp : ℤ) : MemWorld Unit := ⟨MemSys.fresh Unit ram swp, fun _ _ => none⟩

lemma MemWorld.start_fresh (ram swp : ℤ) : (memSystem Unit).start (MemWorld.fresh ram swp) :=
  ⟨MemSys.initial_fresh ram swp, rfl⟩

/-- The steps of `memSystem` as a partial function. -/
def MemWorld.next (w : MemWorld Unit) (a : Unit × MemCall) : Option (MemWorld Unit) :=
  if a.2.Valid ∧ (w.call a.1 a.2).sys.Small then some (w.call a.1 a.2) else none

lemma MemWorld.step_of_next (w : MemWorld Unit) (a : Unit × MemCall) (w' : MemWorld Unit)
    (h : w.next a = some w') : (memSystem Unit).step w a w' := by
  unfold MemWorld.next at h
  split at h
  · next hvalid =>
    cases h
    exact ⟨hvalid.1, rfl, hvalid.2⟩
  · cases h

/-- A byte that was written to a region of two pages is read back. -/
theorem paged_memory_reads_back_second_page :
    (((MemWorld.fresh 1024 0).call () (.alloc 0 300)).call () (.write 0 299 7#8)).ReadsBack
      () 0 299 := by
  have hfirst : ((memSystem Unit).restrict MemWorld.AccessOk).Reachable
      ((MemWorld.fresh 1024 0).call () (.alloc 0 300)) :=
    .step (.start (MemWorld.start_fresh 1024 0))
      (a := ((), .alloc 0 300)) ⟨⟨by decide, rfl, by decide⟩, trivial⟩
  refine paged_memory_reads_back (.step hfirst (a := ((), .write 0 299 7#8))
    ⟨⟨trivial, rfl, by decide⟩, ?_, ?_⟩) ?_
  · intro addr h
    obtain ⟨-, rfl⟩ := target_eq_some h
    decide
  · rintro - - q addr b - ⟨rgid, bytes, hbytes, hb, -⟩
    simp only [MemWorld.call, Written.after, MemCall.run, Caller.alloc_status, if_true,
      Written.set_apply] at hbytes
    split at hbytes
    · cases hbytes
      cases hb
    · simp [MemWorld.fresh] at hbytes
  · intro addr h
    obtain ⟨-, rfl⟩ := target_eq_some h
    decide

/-- Two pages of one region share the RAM cells of frame 0: the second write overwrites what the
first one stored. -/
theorem paged_memory_collides :
    ¬ ∀ w : MemWorld Unit, (memSystem Unit).Reachable w →
      ∀ p rgid offset, w.ReadsBack p rgid offset := by
  intro h
  obtain ⟨w, hw, hP⟩ := LTS.exists_reachable_of_exec (T := memSystem Unit)
    MemWorld.next MemWorld.step_of_next
    (fun w => (w.written () 0).any (fun bytes => bytes 0#32 = some 7#8) &&
      ((w.sys.mm ()).symrgtbl 0 = ⟨0, 300⟩) &&
      (((w.sys.caller ()).read 0 0 0).1 = 0) && (((w.sys.caller ()).read 0 0 0).2.1 = some 9#8))
    [((), .alloc 0 300), ((), .write 0 0 7#8), ((), .write 0 256 9#8)]
    (MemWorld.start_fresh 1024 0) (by decide +kernel)
  simp only [Bool.and_eq_true, decide_eq_true_eq] at hP
  obtain ⟨⟨⟨hwritten, hrg⟩, hret⟩, hdata⟩ := hP
  obtain ⟨bytes, hbytes, hb⟩ := Option.any_eq_true _ _ |>.mp hwritten
  have hread := h w hw () 0 0 bytes 7#8 hbytes le_rfl (by rw [hrg]; decide)
    (by rw [hrg]; exact of_decide_eq_true hb) hret
  rw [hdata] at hread
  exact absurd hread (by decide)

end Ossim
