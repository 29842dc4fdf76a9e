import Ossim.Lib.Simulation
import Ossim.Lib.Transition
import Ossim.Tlb.System

/-!
# Is the TLB transparent?

`tlbSystem` runs the same instructions on two copies of a process, with and without a TLB.  The
TLB would be transparent if statuses, registers and the contents of live regions stayed the same.
They do not: `pgread` loses the byte it read, `tlbwrite` uses the status of a hit as a frame
number, both `tlbread` and `tlbwrite` look up the page of `regs[i] + offset` instead of the page
of the region, and `tlbfree_data` takes a region from 0 to 0 for a free one.

`tlb_transparent` shows that there is nothing else: as long as no instruction takes one of
these branches, or takes it without effect, the two copies differ in their TLB only, whatever the
TLB contains.
-/

namespace Ossim

namespace Pcb

/-- The virtual address of an offset in a region. -/
def regionAddr (p : Pcb) (rgid offset : Word) : Word :=
  Caller.regionAddr (p.caller.mm.symrgtbl rgid.toInt) offset.toInt

/-- The offset lies in the region. -/
def Inside (p : Pcb) (rgid offset : Word) : Prop :=
  (p.caller.mm.symrgtbl rgid.toInt).rgStart + offset.toNat < (p.caller.mm.symrgtbl rgid.toInt).rgEnd

/-- The content of a region at an offset: the byte that `__read` delivers. -/
def content (p : Pcb) (rgid offset : Word) : Option Byte :=
  (p.caller.read 0 rgid.toInt offset.toInt).2.1

end Pcb

/-! ## Two copies of a process -/

/-- A process with a TLB and one without, and which region ids are live: allocated and not freed
since. -/
structure TlbRun where
  /-- The two processes, with the statuses of their instructions. -/
  pair : Paired Pcb Pcb ℤ
  /-- The live region ids. -/
  live : Word → Bool

/-- The region ids of an instruction name entries of the symbol table; those of a read or write
are registers too. -/
def Inst.IdsValid : Inst → Prop
  | .calc => True
  | .alloc _ regIndex => regIndex.toNat < pagingMaxSymtblSz
  | .free regIndex => regIndex.toNat < pagingMaxSymtblSz
  | .read source _ _ => source.toNat < numRegs
  | .write _ destination _ => destination.toNat < numRegs

namespace TlbRun

/-- Both processes execute an instruction. -/
def exec (w : TlbRun) (a : Inst × Byte) : TlbRun where
  pair := w.pair.exec (fun a => BackEnd.tlb.run a.2 a.1) (fun a => BackEnd.paging.run a.2 a.1) a
  live :=
    match a.1 with
    | .alloc _ regIndex => Function.update w.live regIndex true
    | .free regIndex => Function.update w.live regIndex false
    | _ => w.live

/-- Valid operands: an allocation names an entry of the symbol table, the others a live region;
reads and writes use registers that exist and offsets in the region. -/
def Valid (w : TlbRun) : Inst → Prop
  | .calc => True
  | .alloc _ regIndex => regIndex.toNat < pagingMaxSymtblSz
  | .free regIndex => regIndex.toNat < pagingMaxSymtblSz ∧ w.live regIndex = true
  | .read source offset destination => source.toNat < numRegs ∧ destination.toNat < numRegs ∧
    w.live source = true ∧ w.pair.right.Inside source offset
  | .write _ destination offset => destination.toNat < numRegs ∧
    w.live destination = true ∧ w.pair.right.Inside destination offset

instance (w : TlbRun) (ins : Inst) : Decidable (w.Valid ins) := by
  cases ins <;> unfold Valid <;> try unfold Pcb.Inside
  all_goals infer_instance

lemma Valid.ids {w : TlbRun} {ins : Inst} (h : w.Valid ins) : ins.IdsValid := by
  cases ins with
  | «calc» => trivial
  | alloc size regIndex => exact h
  | free regIndex => exact h.1
  | read source offset destination => exact h.1
  | write data destination offset => exact h.1

/-- Statuses, registers and the contents of live regions are the same. -/
structure Transparent (w : TlbRun) : Prop where
  /-- The statuses of all instructions. -/
  status : w.pair.leftOut = w.pair.rightOut
  /-- The registers. -/
  regs : ∀ i < numRegs, w.pair.left.regs i = w.pair.right.regs i
  /-- The contents of live regions. -/
  content : ∀ rgid, w.live rgid = true → ∀ offset, w.pair.right.Inside rgid offset →
    w.pair.left.content rgid offset = w.pair.right.content rgid offset

end TlbRun

/-- Instructions with valid operands, from the same state: a single area and RAM in random
access mode, as `init_mm` and `init_memphy` leave them, and a TLB of at least one line. -/
def tlbSystem : LTS TlbRun (Inst × Byte) where
  start w := w.pair.left = w.pair.right ∧ w.pair.leftOut = [] ∧ w.pair.rightOut = [] ∧
    w.live = (fun _ => false) ∧ (∃ v, w.pair.right.caller.mm.mmap = [v]) ∧
    w.pair.right.caller.mram.rdmflg = true ∧ cacheLineSize ≤ w.pair.right.tlb.maxsz
  step w a w' := w.Valid a.1 ∧ w' = w.exec a

/-! ## Instructions without a defect -/

namespace Pcb

/-- A region from 0 to 0 is taken for a free one. -/
def FreeOk (p : Pcb) (regIndex : Word) : Prop := p.caller.mm.symrgtbl regIndex.toInt ≠ ⟨0, 0⟩

/-- `tlbread` stores a byte in the register, `pgread` does not: the register already contains the
byte of the region.  If the TLB has an entry that is not present, `tlbread` takes the page of
`regs[source] + offset`, and adds the whole offset to a frame number other than 0: that page is
present too, and the register contains the byte found there. -/
def ReadOk (p : Pcb) (source offset destination : Word) : Prop :=
  let mm := p.caller.mm
  let storage := p.caller.mram.storage
  let frmnum := pagingFpn (mm.pgd (pagingPgn (p.regAddr source offset)))
  mm.Present (p.regionAddr source offset) ∧
  p.regs destination.toNat = byteInt (storage (mm.ramCell (p.regionAddr source offset))) ∧
  ((p.tlbLookup source offset).2 = some (-1) → mm.Present (p.regAddr source offset) ∧
    (frmnum = 0 ∨ p.regs destination.toNat =
      byteInt (storage (cint (frmnum * 2 ^ pagingPageszBits + offset.toNat)))))

/-- If the TLB has an entry, `tlbwrite` uses the frame 0, or the frame of the page of
`regs[destination] + offset` for an entry that is not present: the cell there is the one of the
region. -/
def WriteOk (p : Pcb) (destination offset : Word) : Prop :=
  let mm := p.caller.mm
  let addr := p.regAddr destination offset
  ∀ check ∈ (p.tlbLookup destination offset).2,
    mm.Present (p.regionAddr destination offset) ∧
    if check = -1 then
      mm.Present addr ∧ mm.ramCell addr = mm.ramCell (p.regionAddr destination offset)
    else (pagingOffst addr : ℤ) = mm.ramCell (p.regionAddr destination offset)

/-- No branch that goes wrong is taken with an effect. -/
def TlbOk (p : Pcb) : Inst → Prop
  | .calc => True
  | .alloc _ _ => True
  | .free regIndex => p.FreeOk regIndex
  | .read source offset destination => p.ReadOk source offset destination
  | .write _ destination offset => p.WriteOk destination offset

instance (p : Pcb) (source offset destination : Word) :
    Decidable (p.ReadOk source offset destination) := by
  unfold ReadOk
  infer_instance

instance (p : Pcb) (destination offset : Word) : Decidable (p.WriteOk destination offset) := by
  unfold WriteOk
  infer_instance

instance (p : Pcb) (ins : Inst) : Decidable (p.TlbOk ins) := by
  cases ins <;> unfold TlbOk <;> try unfold FreeOk
  all_goals infer_instance

end Pcb

/-- The condition under which an instruction does the same with and without a TLB, a condition on
the state before it. -/
def TlbRun.TlbOk (w : TlbRun) (a : Inst × Byte) : Prop := w.pair.left.TlbOk a.1

instance (w : TlbRun) (a : Inst × Byte) : Decidable (w.TlbOk a) :=
  inferInstanceAs (Decidable (w.pair.left.TlbOk a.1))

/-! ## The two functions for each instruction -/

namespace Pcb

/-- `tlbfree_data` frees as `pgfree_data`. -/
lemma tlbfreeData_eq {p : Pcb} {regIndex : Word} (hid : regIndex.toNat < pagingMaxSymtblSz)
    (hok : p.FreeOk regIndex) :
    ∃ tlb, p.tlbfreeData regIndex =
      ((p.pgfreeData regIndex).1, (p.pgfreeData regIndex).2.setTlb tlb) := by
  have hstatus : (p.caller.free 0 regIndex.toInt).1 = 0 := by
    have hlt : (regIndex.toNat : ℤ) < 30 := hid
    have hvalid : ¬ ((regIndex.toNat : ℤ) < 0 ∨ (regIndex.toNat : ℤ) > 30) := by omega
    rw [toInt_of_lt hid]
    unfold Caller.free
    rw [if_neg hvalid]
  have hregion : ¬ ((p.caller.mm.symrgtbl regIndex.toNat).rgStart = 0 ∧
      (p.caller.mm.symrgtbl regIndex.toNat).rgEnd = 0) := by
    rintro ⟨hstart, hend⟩
    apply hok
    rw [toInt_of_lt hid]
    generalize p.caller.mm.symrgtbl regIndex.toNat = region at hstart hend ⊢
    obtain ⟨rgStart, rgEnd⟩ := region
    exact congrArg₂ VmRg.mk hstart hend
  unfold tlbfreeData pgfreeData
  dsimp only
  rw [if_neg (not_le.mpr hid), if_neg hregion, hstatus]
  obtain ⟨tlb, htlb⟩ := foldl_setTlb tlbfreePage_setTlb _
    { p with caller := (p.caller.free 0 regIndex.toInt).2 }
  exact ⟨tlb, Prod.ext rfl htlb⟩

/-- A register that already has a value. -/
lemma setReg_self {p : Pcb} {i x : Word} (h : p.regs i.toNat = x) : p.setReg i x = p := by
  unfold setReg
  rw [← h, Function.update_eq_self]

/-- An access to a region goes to its address. -/
lemma target_eq {p : Pcb} {rgid : Word} (hid : rgid.toNat < numRegs) (offset : Word) :
    p.caller.mm.target rgid.toInt offset.toInt = some (p.regionAddr rgid offset) := by
  have hint := toInt_of_lt (id_of_numRegs hid)
  have hlt : rgid.toNat < 10 := hid
  have hvalid : ¬ (rgid.toInt < 0 ∨ rgid.toInt > 30) := by omega
  unfold Mm.target Mm.getSymrgByid
  rw [if_neg hvalid]
  rfl

/-- Reading a region on a present page delivers its RAM cell and changes nothing. -/
lemma read_eq {p : Pcb} {v : VmArea} (hv : p.caller.mm.mmap = [v])
    (hrdm : p.caller.mram.rdmflg = true) {rgid offset : Word} (hid : rgid.toNat < numRegs)
    (h : p.caller.mm.Present (p.regionAddr rgid offset)) :
    p.caller.read 0 rgid.toInt offset.toInt =
      (0, some (p.caller.mram.storage (p.caller.mm.ramCell (p.regionAddr rgid offset))),
        p.caller) := by
  rw [read_of_target hv (target_eq hid offset), Caller.pgGetval_present hrdm h]

/-- The second half of `tlbread`, when the register already contains what it is given. -/
lemma tlbreadFrom_eq {p : Pcb} {v : VmArea} (hv : p.caller.mm.mmap = [v])
    (hrdm : p.caller.mram.rdmflg = true) {source offset destination : Word}
    (hid : source.toNat < numRegs) (hpage : p.caller.mm.Present (p.regionAddr source offset))
    (hreg : p.regs destination.toNat =
      byteInt (p.caller.mram.storage (p.caller.mm.ramCell (p.regionAddr source offset))))
    {frmnum : ℤ} (hframe : frmnum > 0 → p.regs destination.toNat =
      byteInt (p.caller.mram.storage (cint (frmnum * 2 ^ pagingPageszBits + offset.toNat))))
    (junk : Byte) (pgn : ℕ) :
    ∃ tlb, tlbreadFrom junk p pgn frmnum source offset destination = (0, p.setTlb tlb) := by
  unfold tlbreadFrom
  dsimp only
  split
  · next hpos =>
    exact ⟨p.tlb, by rw [setReg_self (hframe hpos)]; rfl⟩
  · rw [read_eq hv hrdm hid hpage]
    dsimp only [Option.getD_some]
    rw [setReg_self (p := tlbRefill _ pgn) hreg]
    exact ⟨_, rfl⟩

/-- `tlbread` reads as `pgread`. -/
lemma tlbread_eq {p : Pcb} {v : VmArea} (hv : p.caller.mm.mmap = [v])
    (hrdm : p.caller.mram.rdmflg = true) {source offset destination : Word}
    (hid : source.toNat < numRegs) (hok : p.ReadOk source offset destination) (junk : Byte) :
    ∃ tlb, p.tlbread junk source offset destination =
      ((p.pgread source offset destination).1,
        (p.pgread source offset destination).2.setTlb tlb) := by
  obtain ⟨hpage, hreg, hentry⟩ := hok
  have hpgread : p.pgread source offset destination = (0, p) := by
    unfold pgread
    rw [read_eq hv hrdm hid hpage]
  rw [hpgread]
  unfold tlbread
  rcases tlbCacheRead_cases p.tlb p.pid (pagingPgn (p.regAddr source offset)) with
    hnone | habsent | ⟨frame, hframe, hhit⟩
  · have hlookup : p.tlbLookup source offset = (-1, none) := hnone
    rw [hlookup]
    dsimp only [Option.getD_none]
    rw [if_neg (by decide)]
    exact tlbreadFrom_eq hv hrdm hid hpage hreg (fun hpos => absurd hpos (by decide)) junk _
  · have hlookup : p.tlbLookup source offset = (-1, some (-1)) := habsent
    obtain ⟨hpresent, hcell⟩ := hentry (by rw [hlookup])
    rw [hlookup]
    dsimp only [Option.getD_some]
    rw [if_pos rfl, Caller.pgGetpage_present hpresent]
    refine tlbreadFrom_eq hv hrdm hid hpage hreg (fun hpos => ?_) junk _
    exact hcell.resolve_left (by omega)
  · have hlookup : p.tlbLookup source offset = (0, some frame) := hhit
    rw [hlookup]
    dsimp only [Option.getD_some]
    rw [if_neg hframe]
    exact tlbreadFrom_eq hv hrdm hid hpage hreg (fun hpos => absurd hpos (by decide)) junk _

/-- Writing a region on a present page stores in its RAM cell. -/
lemma pgwrite_eq {p : Pcb} {v : VmArea} (hv : p.caller.mm.mmap = [v])
    (hrdm : p.caller.mram.rdmflg = true) {destination offset : Word}
    (hid : destination.toNat < numRegs)
    (h : p.caller.mm.Present (p.regionAddr destination offset)) (data : Byte) :
    p.pgwrite data destination offset = (0, { p with
      caller := { p.caller with
        mram := { p.caller.mram with
          storage := Function.update p.caller.mram.storage
            (p.caller.mm.ramCell (p.regionAddr destination offset)) data } } }) := by
  unfold pgwrite
  rw [write_of_target hv data (target_eq hid offset), Caller.pgSetval_present hrdm data h]

/-- `tlbwrite` writes as `pgwrite`. -/
lemma tlbwrite_eq {p : Pcb} {v : VmArea} (hv : p.caller.mm.mmap = [v])
    (hrdm : p.caller.mram.rdmflg = true) {destination offset : Word}
    (hid : destination.toNat < numRegs) (hok : p.WriteOk destination offset) (data : Byte) :
    ∃ tlb, p.tlbwrite data destination offset =
      ((p.pgwrite data destination offset).1,
        (p.pgwrite data destination offset).2.setTlb tlb) := by
  unfold tlbwrite
  rcases tlbCacheRead_cases p.tlb p.pid (pagingPgn (p.regAddr destination offset)) with
    hnone | habsent | ⟨frame, hframe, hhit⟩
  · have hlookup : p.tlbLookup destination offset = (-1, none) := hnone
    rw [hlookup]
    exact ⟨_, rfl⟩
  · have hlookup : p.tlbLookup destination offset = (-1, some (-1)) := habsent
    obtain ⟨hpage, hcell⟩ := hok (-1) (by rw [hlookup]; rfl)
    rw [if_pos rfl] at hcell
    obtain ⟨hpresent, hcell⟩ := hcell
    rw [hlookup, pgwrite_eq hv hrdm hid hpage, ← hcell]
    dsimp only [Option.getD_some]
    rw [if_pos rfl, Caller.pgGetpage_present hpresent]
    dsimp only [tlbwriteTo]
    rw [if_pos (Int.natCast_nonneg _), Memphy.write_of_rdmflg hrdm]
    exact ⟨p.tlb, rfl⟩
  · have hlookup : p.tlbLookup destination offset = (0, some frame) := hhit
    obtain ⟨hpage, hcell⟩ := hok frame (by rw [hlookup]; rfl)
    rw [if_neg hframe] at hcell
    rw [hlookup, pgwrite_eq hv hrdm hid hpage, ← hcell]
    dsimp only [Option.getD_some]
    rw [if_neg hframe]
    dsimp only [tlbwriteTo]
    rw [if_pos le_rfl, Memphy.write_of_rdmflg hrdm, Int.zero_mul, Int.zero_add]
    exact ⟨p.tlb, rfl⟩

end Pcb

/-! ## Runs -/

/-- The first process is the second one with another TLB, and the second one has a single area
and RAM in random access mode. -/
structure SameButTlb (p q : Pcb) : Prop where
  /-- Only the TLBs differ. -/
  eq : ∃ tlb, p = q.setTlb tlb
  /-- The only area. -/
  area : ∃ v, q.caller.mm.mmap = [v]
  /-- RAM in random access mode. -/
  rdmflg : q.caller.mram.rdmflg = true

/-- Without the defects, an instruction does the same with and without a TLB, but for the TLB. -/
lemma BackEnd.run_tlb_eq {p : Pcb} {v : VmArea} (hv : p.caller.mm.mmap = [v])
    (hrdm : p.caller.mram.rdmflg = true) {ins : Inst} (hids : ins.IdsValid) (hok : p.TlbOk ins)
    (junk : Byte) :
    ∃ tlb, BackEnd.tlb.run junk ins p =
      ((BackEnd.paging.run junk ins p).1, (BackEnd.paging.run junk ins p).2.setTlb tlb) := by
  cases ins with
  | «calc» => exact ⟨p.tlb, rfl⟩
  | alloc size regIndex => exact p.tlballoc_eq size regIndex
  | free regIndex => exact Pcb.tlbfreeData_eq hids hok
  | read source offset destination => exact Pcb.tlbread_eq hv hrdm hids hok junk
  | write data destination offset =>
    exact Pcb.tlbwrite_eq hv hrdm hids hok (data.setWidth 8)

/-- Without a TLB, an instruction does not depend on it. -/
lemma BackEnd.run_paging_setTlb (q : Pcb) (tlb : Memphy) (junk : Byte) (ins : Inst) :
    BackEnd.paging.run junk ins (q.setTlb tlb) =
      ((BackEnd.paging.run junk ins q).1, (BackEnd.paging.run junk ins q).2.setTlb tlb) := by
  cases ins <;> rfl

/-- An instruction keeps the single area and the access mode of RAM. -/
lemma BackEnd.run_paging_frame {q : Pcb} (harea : ∃ v, q.caller.mm.mmap = [v])
    (hrdm : q.caller.mram.rdmflg = true) (junk : Byte) (ins : Inst) :
    (∃ v, (BackEnd.paging.run junk ins q).2.caller.mm.mmap = [v]) ∧
      (BackEnd.paging.run junk ins q).2.caller.mram.rdmflg = true := by
  obtain ⟨v, hv⟩ := harea
  cases ins with
  | «calc» => exact ⟨⟨v, hv⟩, hrdm⟩
  | alloc size regIndex =>
    have heff := Caller.alloc_effect hv regIndex.toInt size.toInt
    obtain ⟨v', hv', -⟩ := heff.area
    exact ⟨⟨v', hv'⟩, heff.rdmflg.trans hrdm⟩
  | free regIndex =>
    obtain ⟨list, hfree⟩ := Caller.free_single hv 0 regIndex.toInt
    have hcaller : (BackEnd.paging.run junk (.free regIndex) q).2.caller =
        (q.caller.free 0 regIndex.toInt).2 := rfl
    rw [hcaller, hfree]
    exact ⟨⟨_, rfl⟩, hrdm⟩
  | read source offset destination =>
    obtain ⟨hmmap, hkeep⟩ := q.caller.read_frame 0 source.toInt offset.toInt
    exact ⟨⟨v, hmmap.trans hv⟩, hkeep.trans hrdm⟩
  | write data destination offset =>
    obtain ⟨hmmap, hkeep⟩ :=
      q.caller.write_frame 0 destination.toInt offset.toInt (data.setWidth 8)
    exact ⟨⟨v, hmmap.trans hv⟩, hkeep.trans hrdm⟩

/-- Without the defects, every instruction keeps the two processes the same but for their TLB. -/
lemma TlbRun.agree_exec {w : TlbRun} {a : Inst × Byte} (h : w.pair.Agree SameButTlb)
    (hvalid : w.Valid a.1) (hok : w.TlbOk a) : (w.exec a).pair.Agree SameButTlb := by
  obtain ⟨⟨tlb, hleft⟩, ⟨v, hv⟩, hrdm⟩ := h.rel
  have hv' : w.pair.left.caller.mm.mmap = [v] := by rw [hleft]; exact hv
  have hrdm' : w.pair.left.caller.mram.rdmflg = true := by rw [hleft]; exact hrdm
  obtain ⟨tlb', hrun⟩ := BackEnd.run_tlb_eq hv' hrdm' hvalid.ids hok a.2
  rw [hleft, BackEnd.run_paging_setTlb, ← hleft] at hrun
  obtain ⟨harea, hrdm⟩ := BackEnd.run_paging_frame ⟨v, hv⟩ hrdm a.2 a.1
  refine h.exec ?_ ⟨⟨tlb', ?_⟩, harea, hrdm⟩
  · rw [hrun]
  · rw [hrun]
    rfl

/-- The TLB is transparent in every run without the defects. -/
theorem tlb_transparent {w : TlbRun} (hw : (tlbSystem.restrict TlbRun.TlbOk).Reachable w) :
    w.Transparent := by
  have hagree : w.pair.Agree SameButTlb := by
    refine hw.invariant_restrict (I := fun w => w.pair.Agree SameButTlb) (fun w h => ?_)
      fun w a w' h ht hok => ?_
    · obtain ⟨hsame, hleft, hright, -, harea, hrdm, -⟩ := h
      exact ⟨⟨⟨w.pair.right.tlb, hsame⟩, harea, hrdm⟩, hleft.trans hright.symm⟩
    · obtain ⟨hvalid, rfl⟩ := ht
      exact TlbRun.agree_exec h hvalid hok
  obtain ⟨tlb, hleft⟩ := hagree.rel.eq
  refine ⟨hagree.out, ?_, ?_⟩
  · intro i _
    rw [hleft]
    rfl
  · intro rgid _ offset _
    rw [hleft]
    rfl

/-- Process 1 with zeroed registers, 1024 bytes of RAM and a zeroed TLB of 64 KB. -/
def Pcb.fresh : Pcb :=
  ⟨1, fun _ => 0, (MemSys.fresh Unit 1024 0).caller (), ⟨fun _ => 0, 0x10000, true, 0, []⟩⟩

namespace TlbRun

/-- This process with and without a TLB. -/
def fresh : TlbRun := ⟨⟨.fresh, .fresh, [], []⟩, fun _ => false⟩

lemma start_fresh : tlbSystem.start fresh :=
  ⟨rfl, rfl, rfl, rfl, ⟨_, rfl⟩, rfl, by decide⟩

/-- One step that meets the condition, as a function. -/
def next (w : TlbRun) (a : Inst × Byte) : Option TlbRun :=
  if w.Valid a.1 ∧ w.TlbOk a then some (w.exec a) else none

lemma step_of_next (w : TlbRun) (a : Inst × Byte) (w' : TlbRun) (h : w.next a = some w') :
    (tlbSystem.restrict TlbOk).step w a w' := by
  unfold next at h
  split at h
  · next hok => exact ⟨⟨hok.1, (Option.some.inj h).symm⟩, hok.2⟩
  · cases h

end TlbRun

/-- Allocating a region, writing to it, reading a byte that its register holds already, and freeing
the region. -/
theorem tlb_transparent_write_read :
    ∃ w : TlbRun, w.pair.leftOut = [0, 0, 0, 0] ∧ w.Transparent := by
  obtain ⟨w, hw, hout⟩ := LTS.exists_reachable_of_exec TlbRun.next TlbRun.step_of_next
    (fun w => w.pair.leftOut = [0, 0, 0, 0])
    [(.alloc 100 0, 0), (.write 7 0 0, 0), (.read 0 1 1, 0), (.free 0, 0)] TlbRun.start_fresh
    (by decide +kernel)
  exact ⟨w, of_decide_eq_true hout, tlb_transparent hw⟩

/-- After a byte was written, reading it into a register sets the register with a TLB only. -/
theorem tlb_not_transparent : ¬ ∀ w : TlbRun, tlbSystem.Reachable w → w.Transparent := by
  intro h
  obtain ⟨w, hw, hP⟩ := LTS.exists_reachable_of_exec (T := tlbSystem)
    (fun w a => if w.Valid a.1 then some (w.exec a) else none)
    (fun w a w' hstep => by
      obtain ⟨hvalid, hexec⟩ := Option.ite_none_right_eq_some.mp hstep
      exact ⟨hvalid, (Option.some.inj hexec).symm⟩)
    (fun w => (w.pair.left.regs 1 = 7) && (w.pair.right.regs 1 = 0))
    [(.alloc 100 0, 0), (.write 7 0 0, 0), (.read 0 0 1, 0)] TlbRun.start_fresh
    (by decide +kernel)
  simp only [Bool.and_eq_true, decide_eq_true_eq] at hP
  have hregs := (h w hw).regs 1 (by decide)
  rw [hP.1, hP.2] at hregs
  exact absurd hregs (by decide)

end Ossim
