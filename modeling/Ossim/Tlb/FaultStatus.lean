import Ossim.Tlb.System

/-!
# Faults and the status of an instruction

A `READ` or `WRITE` whose page cannot be brought to RAM should return an error, and one that returns
0 should have moved a byte between the process and the frame of the page.  The status of
`pg_getpage` passes through `pg_getval` and `pg_setval`, which report it, to `__read` and
`__write`, which drop it; `tlbread` drops that of `__read` as well, and reports only a failure of
the `pg_getpage` it calls itself.

`Build.reach` is what an access comes to, `Build.ReportsFaults` the property, and
`reportsFaults_iff` says for which states and operands it holds.
-/

namespace Ossim

/-- The page is present and the cell lies in its frame, the one that `PAGING_FPN` decodes from the
entry and `pg_getpage` delivers. -/
def Mm.InFrame (mm : Mm) (pgn : ℕ) (cell : ℤ) : Prop :=
  pagingPagePresent (mm.pgd pgn) = true ∧ Caller.phyaddr (pagingFpn (mm.pgd pgn)) 0 ≤ cell ∧
    cell < Caller.phyaddr (pagingFpn (mm.pgd pgn)) pagingPagesz

/-! ## What an access comes to -/

/-- What an access comes to. -/
inductive Reach
  /-- A page that `pg_getpage` cannot bring to RAM. -/
  | fault (pgn : ℕ)
  /-- No address: the region id is not valid. -/
  | invalid
  /-- A RAM cell, for an address on a page. -/
  | cell (pgn : ℕ) (cell : ℤ)
  deriving DecidableEq

/-- `__read` and `__write`. -/
def Caller.regionReach (c : Caller) (rgid offset : ℤ) : Reach :=
  match c.mm.target rgid offset with
  | none => .invalid
  | some addr =>
    match (c.pgGetpage (pagingPgn addr)).1 with
    | none => .fault (pagingPgn addr)
    | some fpn => .cell (pagingPgn addr) (phyaddr fpn (pagingOffst addr))

namespace Pcb

/-- `tlbread`. -/
def tlbreadReach (p : Pcb) (source offset : Word) : Reach :=
  match p.located source offset with
  | none => .fault (p.lookupPgn source offset)
  | some (frmnum, c) =>
    if frmnum > 0 then .cell (p.lookupPgn source offset)
      (cint (frmnum * 2 ^ pagingPageszBits + offset.toNat))
    else c.regionReach source.toInt offset.toInt

/-- `tlbwrite`. -/
def tlbwriteReach (p : Pcb) (destination offset : Word) : Reach :=
  match p.located destination offset with
  | none => .fault (p.lookupPgn destination offset)
  | some (frmnum, c) =>
    if frmnum ≥ 0 then .cell (p.lookupPgn destination offset)
      (frmnum * 2 ^ pagingPageszBits + pagingOffst (p.regAddr destination offset))
    else c.regionReach destination.toInt offset.toInt

end Pcb

/-- The instructions that move a byte. -/
inductive MemInst
  | read (source offset destination : Word)
  | write (data destination offset : Word)
  deriving DecidableEq

/-- The instruction that `run` gets. -/
def MemInst.inst : MemInst → Inst
  | .read source offset destination => .read source offset destination
  | .write data destination offset => .write data destination offset

namespace Build

/-- What an access of a process comes to. -/
def reach (p : Pcb) : Build → MemInst → Reach
  | .paging, .read source offset _ => p.caller.regionReach source.toInt offset.toInt
  | .paging, .write _ destination offset => p.caller.regionReach destination.toInt offset.toInt
  | .tlb, .read source offset _ => p.tlbreadReach source offset
  | .tlb, .write _ destination offset => p.tlbwriteReach destination offset

/-- The byte was moved between the process `p` and the cell: in the process `p'` left behind the
register holds the byte of the cell, or the cell the operand.  `pgread` gets the byte from `__read`
and has no use for it. -/
def Moved (p p' : Pcb) (cell : ℤ) : Build → MemInst → Prop
  | .paging, .read source offset _ =>
    (p.caller.read 0 source.toInt offset.toInt).2.1 = some (p'.caller.mram.storage cell)
  | .tlb, .read _ _ destination =>
    p'.regs destination.toNat = byteInt (p'.caller.mram.storage cell)
  | _, .write data _ _ => p'.caller.mram.storage cell = data.setWidth 8

/-- Faults reach the status of the instruction.  The frame of a page is the one that `pg_getpage`
delivers, also where `pte_set_fpn` recorded another one. -/
structure ReportsFaults (build : Build) (p : Pcb) (a : MemInst) : Prop where
  /-- A fault is an error, and leaves registers and TLB as they were. -/
  fault : ∀ junk pgn, build.reach p a = .fault pgn →
    (build.backEnd.run junk a.inst p).1 ≠ 0 ∧
      (build.backEnd.run junk a.inst p).2.regs = p.regs ∧
      (build.backEnd.run junk a.inst p).2.tlb = p.tlb
  /-- The status 0 means that the byte was moved, from or to the frame of the page. -/
  moved : ∀ junk, (build.backEnd.run junk a.inst p).1 = 0 →
    ∃ pgn cell, build.reach p a = .cell pgn cell ∧
      (build.backEnd.run junk a.inst p).2.caller.mm.InFrame pgn cell ∧
      build.Moved p (build.backEnd.run junk a.inst p).2 cell a

variable {build : Build} {p : Pcb} {a : MemInst}

/-- An access that faults. -/
lemma reportsFaults_of_fault {pgn : ℕ} (h : build.reach p a = .fault pgn) :
    build.ReportsFaults p a ↔ ∀ junk, (build.backEnd.run junk a.inst p).1 ≠ 0 ∧
      (build.backEnd.run junk a.inst p).2.regs = p.regs ∧
      (build.backEnd.run junk a.inst p).2.tlb = p.tlb := by
  constructor
  · intro hreports junk
    exact hreports.fault junk pgn h
  · intro hall
    exact ⟨fun junk _ _ => hall junk, fun junk hzero => absurd hzero (hall junk).1⟩

/-- An access with an invalid region id. -/
lemma reportsFaults_of_invalid (h : build.reach p a = .invalid) :
    build.ReportsFaults p a ↔ ∀ junk, (build.backEnd.run junk a.inst p).1 ≠ 0 := by
  constructor
  · intro hreports junk hzero
    obtain ⟨pgn, cell, hcell, -⟩ := hreports.moved junk hzero
    rw [h] at hcell
    cases hcell
  · intro hall
    refine ⟨fun junk pgn hfault => ?_, fun junk hzero => absurd hzero (hall junk)⟩
    rw [h] at hfault
    cases hfault

/-- An access that reaches a cell. -/
lemma reportsFaults_of_cell {pgn : ℕ} {cell : ℤ} (h : build.reach p a = .cell pgn cell) :
    build.ReportsFaults p a ↔ ∀ junk, (build.backEnd.run junk a.inst p).1 = 0 →
      (build.backEnd.run junk a.inst p).2.caller.mm.InFrame pgn cell ∧
        build.Moved p (build.backEnd.run junk a.inst p).2 cell a := by
  constructor
  · intro hreports junk hzero
    obtain ⟨pgn', cell', hcell, hmoved⟩ := hreports.moved junk hzero
    rw [h] at hcell
    cases hcell
    exact hmoved
  · intro hall
    refine ⟨fun junk pgn' hfault => ?_, fun junk hzero => ⟨pgn, cell, h, hall junk hzero⟩⟩
    rw [h] at hfault
    cases hfault

end Build

/-! ## Accesses through a region id -/

namespace Caller

variable {c c' : Caller} {pgn fpn : ℕ}

/-- An address on a page that `pg_getpage` brought to RAM lies in its frame. -/
lemma inFrame_of_pgGetpage (h : c.pgGetpage pgn = (some fpn, c')) {off : ℕ}
    (hoff : off < pagingPagesz) : c'.mm.InFrame pgn (phyaddr fpn off) := by
  obtain ⟨hpresent, hfpn⟩ := present_of_pgGetpage h
  refine ⟨hpresent, ?_, ?_⟩ <;> rw [hfpn] <;> unfold phyaddr <;> omega

variable {v : VmArea} {rgid offset : ℤ} {addr : Word}

/-- A read on a page that cannot be brought to RAM returns 0 and stores nothing. -/
lemma read_of_fault (hv : c.mm.mmap = [v]) (h : c.mm.target rgid offset = some addr)
    (hpage : c.pgGetpage (pagingPgn addr) = (none, c')) :
    c.read 0 rgid offset = (0, none, c') := by
  rw [read_of_target hv h]
  unfold pgGetval
  dsimp only
  rw [hpage]

/-- A read on a page in RAM. -/
lemma read_of_page (hv : c.mm.mmap = [v]) (hrdm : c.mram.rdmflg = true)
    (h : c.mm.target rgid offset = some addr)
    (hpage : c.pgGetpage (pagingPgn addr) = (some fpn, c')) :
    c.read 0 rgid offset =
      (0, some (c'.mram.storage (phyaddr fpn (pagingOffst addr))), c') := by
  have hrdm' := (c.pgGetpage_frame (pagingPgn addr)).2
  rw [hpage] at hrdm'
  rw [read_of_target hv h]
  unfold pgGetval
  dsimp only
  rw [hpage]
  dsimp only
  rw [Memphy.read_of_rdmflg (hrdm'.trans hrdm)]

/-- A write on a page that cannot be brought to RAM returns 0. -/
lemma write_of_fault (hv : c.mm.mmap = [v]) (h : c.mm.target rgid offset = some addr)
    (hpage : c.pgGetpage (pagingPgn addr) = (none, c')) (value : Byte) :
    c.write 0 rgid offset value = (0, c') := by
  rw [write_of_target hv value h]
  unfold pgSetval
  dsimp only
  rw [hpage]

/-- A write on a page in RAM. -/
lemma write_of_page (hv : c.mm.mmap = [v]) (hrdm : c.mram.rdmflg = true)
    (h : c.mm.target rgid offset = some addr)
    (hpage : c.pgGetpage (pagingPgn addr) = (some fpn, c')) (value : Byte) :
    c.write 0 rgid offset value = (0, { c' with
      mram := { c'.mram with
        storage := Function.update c'.mram.storage (phyaddr fpn (pagingOffst addr)) value } }) := by
  have hrdm' := (c.pgGetpage_frame (pagingPgn addr)).2
  rw [hpage] at hrdm'
  rw [write_of_target hv value h]
  unfold pgSetval
  dsimp only
  rw [hpage]
  dsimp only
  rw [Memphy.write_of_rdmflg (hrdm'.trans hrdm)]

lemma regionReach_invalid (h : c.mm.target rgid offset = none) :
    c.regionReach rgid offset = .invalid := by
  unfold regionReach
  rw [h]

lemma regionReach_fault (h : c.mm.target rgid offset = some addr)
    (hpage : c.pgGetpage (pagingPgn addr) = (none, c')) :
    c.regionReach rgid offset = .fault (pagingPgn addr) := by
  unfold regionReach
  rw [h]
  dsimp only
  rw [hpage]

lemma regionReach_cell (h : c.mm.target rgid offset = some addr)
    (hpage : c.pgGetpage (pagingPgn addr) = (some fpn, c')) :
    c.regionReach rgid offset = .cell (pagingPgn addr) (phyaddr fpn (pagingOffst addr)) := by
  unfold regionReach
  rw [h]
  dsimp only
  rw [hpage]

/-- An access through the region id does not fault: the id is not valid, or the page of its address
can be brought to RAM. -/
def Fetchable (c : Caller) (rgid offset : ℤ) : Prop :=
  ∀ addr, c.mm.target rgid offset = some addr → ¬ c.Unfetchable (pagingPgn addr)

/-- The courses that an access through a region id can take. -/
lemma region_cases (c : Caller) (rgid offset : ℤ) :
    c.mm.target rgid offset = none ∨
      (∃ addr c', c.mm.target rgid offset = some addr ∧ c.Unfetchable (pagingPgn addr) ∧
        c.pgGetpage (pagingPgn addr) = (none, c')) ∨
      ∃ addr fpn c', c.mm.target rgid offset = some addr ∧ ¬ c.Unfetchable (pagingPgn addr) ∧
        c.pgGetpage (pagingPgn addr) = (some fpn, c') := by
  cases htarget : c.mm.target rgid offset with
  | none => exact .inl rfl
  | some addr =>
    by_cases h : c.Unfetchable (pagingPgn addr)
    · obtain ⟨c', hpage⟩ := pgGetpage_of_unfetchable h
      exact .inr (.inl ⟨addr, c', rfl, h, hpage⟩)
    · obtain ⟨c', hpage⟩ := pgGetpage_of_fetchable h
      exact .inr (.inr ⟨addr, _, c', rfl, h, hpage⟩)

lemma fetchable_of_none (h : c.mm.target rgid offset = none) : c.Fetchable rgid offset := by
  intro addr haddr
  rw [h] at haddr
  cases haddr

lemma fetchable_iff (h : c.mm.target rgid offset = some addr) :
    c.Fetchable rgid offset ↔ ¬ c.Unfetchable (pagingPgn addr) := by
  unfold Fetchable
  rw [h]
  simp

end Caller

namespace Build

variable {build : Build} {p : Pcb} {a : MemInst} {c : Caller} {v : VmArea}

/-- An access through a region id returns 0 when it faults, so there must be no fault to report; and
an invalid id must be refused. -/
lemma reportsFaults_of_region {rgid offset : ℤ}
    (hreach : build.reach p a = c.regionReach rgid offset)
    (hfault : ∀ addr c', c.mm.target rgid offset = some addr →
      c.pgGetpage (pagingPgn addr) = (none, c') →
        ∀ junk, (build.backEnd.run junk a.inst p).1 = 0)
    (hcell : ∀ addr fpn c', c.mm.target rgid offset = some addr →
      c.pgGetpage (pagingPgn addr) = (some fpn, c') → ∀ junk,
        (build.backEnd.run junk a.inst p).2.caller.mm = c'.mm ∧
          build.Moved p (build.backEnd.run junk a.inst p).2
            (Caller.phyaddr fpn (pagingOffst addr)) a) :
    build.ReportsFaults p a ↔
      (c.mm.target rgid offset = none → ∀ junk, (build.backEnd.run junk a.inst p).1 ≠ 0) ∧
        c.Fetchable rgid offset := by
  rcases c.region_cases rgid offset with
    htarget | ⟨addr, c', htarget, hpage, hget⟩ | ⟨addr, fpn, c', htarget, hpage, hget⟩
  · rw [reportsFaults_of_invalid (hreach.trans (Caller.regionReach_invalid htarget))]
    simp only [htarget, true_implies, Caller.fetchable_of_none htarget, and_true]
  · rw [reportsFaults_of_fault (hreach.trans (Caller.regionReach_fault htarget hget)),
      Caller.fetchable_iff htarget]
    refine iff_of_false (fun h => (h 0).1 ?_) fun h => h.2 hpage
    exact hfault addr c' htarget hget 0
  · rw [reportsFaults_of_cell (hreach.trans (Caller.regionReach_cell htarget hget)),
      Caller.fetchable_iff htarget, htarget]
    refine iff_of_true (fun junk _ => ?_) ⟨fun hnone => (by cases hnone), hpage⟩
    obtain ⟨hmm, hmoved⟩ := hcell addr fpn c' htarget hget junk
    rw [hmm]
    exact ⟨Caller.inFrame_of_pgGetpage hget (pagingOffst_lt addr), hmoved⟩

/-! ## Without a TLB -/

/-- `pgread` reports faults exactly if there is none to report. -/
lemma pgread_reportsFaults (hv : p.caller.mm.mmap = [v]) (hrdm : p.caller.mram.rdmflg = true)
    (source offset destination : Word) :
    paging.ReportsFaults p (.read source offset destination) ↔
      p.caller.Fetchable source.toInt offset.toInt := by
  have hrun : ∀ junk, paging.backEnd.run junk (MemInst.read source offset destination).inst p =
      ((p.caller.read 0 source.toInt offset.toInt).1,
        { p with caller := (p.caller.read 0 source.toInt offset.toInt).2.2 }) := fun _ => rfl
  have hreach : paging.reach p (.read source offset destination) =
      p.caller.regionReach source.toInt offset.toInt := rfl
  rw [reportsFaults_of_region hreach
    (fun addr c' htarget hget junk => by rw [hrun, Caller.read_of_fault hv htarget hget])
    fun addr fpn c' htarget hget junk => by
      unfold Moved
      dsimp only
      rw [hrun, Caller.read_of_page hv hrdm htarget hget]
      exact ⟨rfl, rfl⟩]
  refine and_iff_right fun htarget junk => ?_
  rw [hrun, read_of_target_none htarget]
  exact (by decide : (-1 : ℤ) ≠ 0)

/-- So does `pgwrite`. -/
lemma pgwrite_reportsFaults (hv : p.caller.mm.mmap = [v]) (hrdm : p.caller.mram.rdmflg = true)
    (data destination offset : Word) :
    paging.ReportsFaults p (.write data destination offset) ↔
      p.caller.Fetchable destination.toInt offset.toInt := by
  have hrun : ∀ junk, paging.backEnd.run junk (MemInst.write data destination offset).inst p =
      ((p.caller.write 0 destination.toInt offset.toInt (data.setWidth 8)).1,
        { p with caller :=
            (p.caller.write 0 destination.toInt offset.toInt (data.setWidth 8)).2 }) :=
    fun _ => rfl
  have hreach : paging.reach p (.write data destination offset) =
      p.caller.regionReach destination.toInt offset.toInt := rfl
  rw [reportsFaults_of_region hreach
    (fun addr c' htarget hget junk => by rw [hrun, Caller.write_of_fault hv htarget hget])
    fun addr fpn c' htarget hget junk => by
      rw [hrun, Caller.write_of_page hv hrdm htarget hget]
      exact ⟨rfl, Function.update_self _ _ _⟩]
  refine and_iff_right fun htarget junk => ?_
  rw [hrun, write_of_target_none _ htarget]
  exact (by decide : (-1 : ℤ) ≠ 0)

/-! ## With a TLB -/

/-- `tlbread` gets to `__read`, in the state `c`: it reports no fault and refuses no region id, so
there must be a byte to deliver. -/
lemma tlbread_region_reportsFaults {source offset destination : Word} {frmnum : ℤ}
    (hlocated : p.located source offset = some (frmnum, c)) (hfrmnum : ¬ frmnum > 0)
    (hv : c.mm.mmap = [v]) (hrdm : c.mram.rdmflg = true) :
    tlb.ReportsFaults p (.read source offset destination) ↔
      ∃ addr, c.mm.target source.toInt offset.toInt = some addr ∧
        ¬ c.Unfetchable (pagingPgn addr) := by
  have hreach : tlb.reach p (.read source offset destination) =
      c.regionReach source.toInt offset.toInt := by
    unfold reach Pcb.tlbreadReach
    dsimp only
    rw [hlocated]
    exact if_neg hfrmnum
  have hrun : ∀ junk, tlb.backEnd.run junk (MemInst.read source offset destination).inst p =
      (0, ((({ p with caller := (c.read 0 source.toInt offset.toInt).2.2 } : Pcb).tlbRefill
        (p.lookupPgn source offset)).setReg destination
          (byteInt ((c.read 0 source.toInt offset.toInt).2.1.getD junk)))) := by
    intro junk
    show p.tlbread junk source offset destination = _
    rw [Pcb.tlbread_located, hlocated]
    dsimp only
    unfold Pcb.tlbreadFrom
    rw [if_neg hfrmnum]
  rw [reportsFaults_of_region hreach (fun _ _ _ _ junk => by rw [hrun])
    fun addr fpn c' htarget hget junk => by
      rw [hrun, Caller.read_of_page hv hrdm htarget hget]
      exact ⟨rfl, Function.update_self _ _ _⟩]
  cases htarget : c.mm.target source.toInt offset.toInt with
  | none =>
    refine iff_of_false (fun h => h.1 rfl 0 (by rw [hrun])) ?_
    rintro ⟨addr, haddr, -⟩
    cases haddr
  | some addr =>
    rw [Caller.fetchable_iff htarget]
    simp

/-- `tlbwrite` gets to `__write`. -/
lemma tlbwrite_region_reportsFaults {data destination offset : Word} {frmnum : ℤ}
    (hlocated : p.located destination offset = some (frmnum, c)) (hfrmnum : ¬ frmnum ≥ 0)
    (hv : c.mm.mmap = [v]) (hrdm : c.mram.rdmflg = true) :
    tlb.ReportsFaults p (.write data destination offset) ↔
      c.Fetchable destination.toInt offset.toInt := by
  have hreach : tlb.reach p (.write data destination offset) =
      c.regionReach destination.toInt offset.toInt := by
    unfold reach Pcb.tlbwriteReach
    dsimp only
    rw [hlocated]
    exact if_neg hfrmnum
  have hrun : ∀ junk, tlb.backEnd.run junk (MemInst.write data destination offset).inst p =
      ((c.write 0 destination.toInt offset.toInt (data.setWidth 8)).1,
        ({ p with caller :=
          (c.write 0 destination.toInt offset.toInt (data.setWidth 8)).2 } : Pcb).tlbRefill
            (p.lookupPgn destination offset)) := by
    intro junk
    show p.tlbwrite (data.setWidth 8) destination offset = _
    rw [Pcb.tlbwrite_located, hlocated]
    dsimp only
    unfold Pcb.tlbwriteTo
    rw [if_neg hfrmnum]
  rw [reportsFaults_of_region hreach
    (fun addr c' htarget hget junk => by rw [hrun, Caller.write_of_fault hv htarget hget])
    fun addr fpn c' htarget hget junk => by
      rw [hrun, Caller.write_of_page hv hrdm htarget hget]
      exact ⟨rfl, Function.update_self _ _ _⟩]
  refine and_iff_right fun htarget junk => ?_
  rw [hrun, write_of_target_none _ htarget]
  exact (by decide : (-1 : ℤ) ≠ 0)

/-- What finding the page gives when it has to be fetched. -/
lemma located_of_fetches {i offset : Word} (h : p.Fetches i offset) :
    p.caller.Unfetchable (p.lookupPgn i offset) ∧ p.located i offset = none ∨
      ¬ p.caller.Unfetchable (p.lookupPgn i offset) ∧
        ∃ c', p.caller.pgGetpage (p.lookupPgn i offset) =
          (some (p.caller.decodedFrame (p.lookupPgn i offset)), c') ∧
          p.located i offset = some ((p.caller.decodedFrame (p.lookupPgn i offset) : ℤ), c') := by
  unfold Pcb.located
  rw [if_pos h]
  by_cases hpage : p.caller.Unfetchable (p.lookupPgn i offset)
  · obtain ⟨c', hget⟩ := Caller.pgGetpage_of_unfetchable hpage
    exact .inl ⟨hpage, by rw [hget]⟩
  · obtain ⟨c', hget⟩ := Caller.pgGetpage_of_fetchable hpage
    exact .inr ⟨hpage, c', hget, by rw [hget]⟩

/-- The page cannot be fetched: the one fault that is reported. -/
lemma tlbread_fault_reportsFaults {source offset destination : Word}
    (hlocated : p.located source offset = none) :
    tlb.ReportsFaults p (.read source offset destination) := by
  have hreach : tlb.reach p (.read source offset destination) =
      .fault (p.lookupPgn source offset) := by
    unfold reach Pcb.tlbreadReach
    dsimp only
    rw [hlocated]
  refine (reportsFaults_of_fault hreach).mpr fun junk => ?_
  show (p.tlbread junk source offset destination).1 ≠ 0 ∧
    (p.tlbread junk source offset destination).2.regs = _ ∧
    (p.tlbread junk source offset destination).2.tlb = _
  rw [Pcb.tlbread_located, hlocated]
  exact ⟨(by decide : (-1 : ℤ) ≠ 0), rfl, rfl⟩

lemma tlbwrite_fault_reportsFaults {data destination offset : Word}
    (hlocated : p.located destination offset = none) :
    tlb.ReportsFaults p (.write data destination offset) := by
  have hreach : tlb.reach p (.write data destination offset) =
      .fault (p.lookupPgn destination offset) := by
    unfold reach Pcb.tlbwriteReach
    dsimp only
    rw [hlocated]
  refine (reportsFaults_of_fault hreach).mpr fun junk => ?_
  show (p.tlbwrite (data.setWidth 8) destination offset).1 ≠ 0 ∧
    (p.tlbwrite (data.setWidth 8) destination offset).2.regs = _ ∧
    (p.tlbwrite (data.setWidth 8) destination offset).2.tlb = _
  rw [Pcb.tlbwrite_located, hlocated]
  exact ⟨(by decide : (-1 : ℤ) ≠ 0), rfl, rfl⟩

/-- `tlbread` reads RAM itself, at the offset of the operand instead of that in the page. -/
lemma tlbread_direct_reportsFaults {source offset destination : Word} {pgn fpn : ℕ}
    (hpgn : p.lookupPgn source offset = pgn) (hget : p.caller.pgGetpage pgn = (some fpn, c))
    (hlocated : p.located source offset = some ((fpn : ℤ), c)) (hfpn : 0 < fpn) :
    tlb.ReportsFaults p (.read source offset destination) ↔ offset.toNat < pagingPagesz := by
  have hpos : (fpn : ℤ) > 0 := by omega
  have hreach : tlb.reach p (.read source offset destination) =
      .cell pgn (cint (fpn * 2 ^ pagingPageszBits + offset.toNat)) := by
    unfold reach Pcb.tlbreadReach
    dsimp only
    rw [hlocated, hpgn]
    exact if_pos hpos
  have hrun : ∀ junk, tlb.backEnd.run junk (MemInst.read source offset destination).inst p =
      (0, ({ p with caller := c } : Pcb).setReg destination
        (byteInt (c.mram.storage (cint (fpn * 2 ^ pagingPageszBits + offset.toNat))))) := by
    intro junk
    show p.tlbread junk source offset destination = _
    rw [Pcb.tlbread_located, hlocated]
    dsimp only
    unfold Pcb.tlbreadFrom
    rw [if_pos hpos]
  obtain ⟨hpresent, hframe⟩ := Caller.present_of_pgGetpage hget
  have hlt := Caller.pgGetpage_lt hget
  have hword := offset.isLt
  rw [reportsFaults_of_cell hreach]
  constructor
  · intro h
    obtain ⟨⟨-, hlo, hhi⟩, -⟩ := h 0 (by rw [hrun])
    rw [hrun] at hlo hhi
    unfold Pcb.setReg at hlo hhi
    rw [hframe] at hlo hhi
    unfold Caller.phyaddr cint at hlo hhi
    rw [pagingPagesz_cast] at hhi
    rw [Int.bmod_def, pagingPageszBits_eq] at hlo hhi
    rw [pagingPagesz_eq]
    split at hlo <;> omega
  · intro hoffset junk _
    have hcell : cint (fpn * 2 ^ pagingPageszBits + offset.toNat) =
        Caller.phyaddr fpn offset.toNat := by
      rw [pagingPagesz_eq] at hoffset
      rw [pagingPageszBits_eq, cint_of_mem (by omega) (by omega)]
      rfl
    rw [hrun, hcell]
    refine ⟨Caller.inFrame_of_pgGetpage hget hoffset, ?_⟩
    exact Function.update_self _ _ _

/-- `tlbwrite` writes to RAM itself: to the frame `frmnum`, be it the frame of the page or not. -/
lemma tlbwrite_direct_reportsFaults {data destination offset : Word} {fpn : ℕ}
    (hlocated : p.located destination offset = some ((fpn : ℤ), c))
    (hrdm : c.mram.rdmflg = true) :
    tlb.ReportsFaults p (.write data destination offset) ↔
      pagingPagePresent (c.mm.pgd (p.lookupPgn destination offset)) = true ∧
        pagingFpn (c.mm.pgd (p.lookupPgn destination offset)) = fpn := by
  have hnonneg : (fpn : ℤ) ≥ 0 := by omega
  have hreach : tlb.reach p (.write data destination offset) =
      .cell (p.lookupPgn destination offset)
        (fpn * 2 ^ pagingPageszBits + pagingOffst (p.regAddr destination offset)) := by
    unfold reach Pcb.tlbwriteReach
    dsimp only
    rw [hlocated]
    exact if_pos hnonneg
  have hrun : ∀ junk, tlb.backEnd.run junk (MemInst.write data destination offset).inst p =
      (0, { p with caller := { c with mram := { c.mram with
        storage := Function.update c.mram.storage
          (fpn * 2 ^ pagingPageszBits + pagingOffst (p.regAddr destination offset))
          (data.setWidth 8) } } }) := by
    intro junk
    show p.tlbwrite (data.setWidth 8) destination offset = _
    rw [Pcb.tlbwrite_located, hlocated]
    dsimp only
    unfold Pcb.tlbwriteTo
    rw [if_pos hnonneg]
    dsimp only
    rw [Memphy.write_of_rdmflg hrdm]
  have hoff := pagingOffst_lt (p.regAddr destination offset)
  rw [pagingPagesz_eq] at hoff
  rw [reportsFaults_of_cell hreach]
  constructor
  · intro h
    obtain ⟨⟨hpresent, hlo, hhi⟩, -⟩ := h 0 (by rw [hrun])
    rw [hrun] at hpresent hlo hhi
    unfold Caller.phyaddr at hlo hhi
    rw [pagingPagesz_cast] at hhi
    rw [pagingPageszBits_eq] at hlo hhi
    refine ⟨hpresent, ?_⟩
    dsimp only at hlo hhi
    omega
  · rintro ⟨hpresent, hfpn⟩ junk -
    rw [hrun]
    refine ⟨⟨hpresent, ?_, ?_⟩, ?_⟩
    · dsimp only
      rw [hfpn]
      unfold Caller.phyaddr
      omega
    · dsimp only
      rw [hfpn]
      unfold Caller.phyaddr
      rw [pagingPagesz_cast]
      omega
    · exact Function.update_self _ _ _

/-! ## Which faults are reported -/

/-- The accesses that fault with an error or not at all, and move the right byte.  Without a TLB
there must be no fault.  With one, the page of the lookup is fetched if its entry is not present,
and a fault there is an error. -/
def Serves (p : Pcb) : Build → MemInst → Prop
  | .paging, .read source offset _ => p.caller.Fetchable source.toInt offset.toInt
  | .paging, .write _ destination offset => p.caller.Fetchable destination.toInt offset.toInt
  | .tlb, .read source offset _ =>
    let pgn := p.lookupPgn source offset
    if p.Fetches source offset then
      -- a frame other than 0 is read directly, at the offset of the operand
      p.caller.Unfetchable pgn ∨ 0 < p.caller.decodedFrame pgn ∧ offset.toNat < pagingPagesz ∨
        p.caller.decodedFrame pgn = 0 ∧
          ∃ addr, p.caller.mm.target source.toInt offset.toInt = some addr ∧
            ¬ p.caller.UnfetchableAfter pgn (pagingPgn addr)
    else ∃ addr, p.caller.mm.target source.toInt offset.toInt = some addr ∧
      ¬ p.caller.Unfetchable (pagingPgn addr)
  | .tlb, .write _ destination offset =>
    let pgn := p.lookupPgn destination offset
    if p.Fetches destination offset then True
    else if (p.tlbLookup destination offset).1 = 0 then
      -- the status of a hit is taken for the frame number
      pagingPagePresent (p.caller.mm.pgd pgn) = true ∧ pagingFpn (p.caller.mm.pgd pgn) = 0
    else p.caller.Fetchable destination.toInt offset.toInt

variable {p : Pcb} {v : VmArea}

/-- An access that does not fetch the page of its lookup: the status of the lookup is that of a hit
or a miss. -/
lemma located_of_not_fetches {i offset : Word} (h : ¬ p.Fetches i offset) :
    p.located i offset = some ((p.tlbLookup i offset).1, p.caller) ∧
      ((p.tlbLookup i offset).1 = 0 ∨ (p.tlbLookup i offset).1 = -1) := by
  unfold Pcb.located
  refine ⟨if_neg h, ?_⟩
  rcases tlbCacheRead_cases p.tlb p.pid (pagingPgn (p.regAddr i offset)) with
    hlookup | hlookup | ⟨frame, -, hlookup⟩ <;>
  · unfold Pcb.tlbLookup
    rw [hlookup]
    simp

lemma tlbread_reportsFaults (hv : p.caller.mm.mmap = [v]) (hrdm : p.caller.mram.rdmflg = true)
    (source offset destination : Word) :
    tlb.ReportsFaults p (.read source offset destination) ↔
      tlb.Serves p (.read source offset destination) := by
  unfold Serves
  dsimp only
  by_cases hfetches : p.Fetches source offset
  · rw [if_pos hfetches]
    rcases located_of_fetches hfetches with ⟨hpage, hlocated⟩ | ⟨hpage, c, hget, hlocated⟩
    · exact iff_of_true (tlbread_fault_reportsFaults hlocated) (.inl hpage)
    · have hframe := p.caller.pgGetpage_frame (p.lookupPgn source offset)
      have hsym := p.caller.symrgtbl_pgGetpage (p.lookupPgn source offset)
      have hafter := Caller.unfetchable_pgGetpage hget
      rw [hget] at hframe hsym
      have htarget : c.mm.target source.toInt offset.toInt =
          p.caller.mm.target source.toInt offset.toInt := by
        unfold Mm.target Mm.getSymrgByid
        rw [hsym]
      rcases Nat.eq_zero_or_pos (p.caller.decodedFrame (p.lookupPgn source offset)) with
        hzero | hpos
      · have hfrmnum : ¬ ((p.caller.decodedFrame (p.lookupPgn source offset) : ℕ) : ℤ) > 0 := by
          omega
        rw [tlbread_region_reportsFaults hlocated hfrmnum (hframe.1.trans hv)
          (hframe.2.trans hrdm), htarget]
        simp only [hafter, hpage, hzero, lt_irrefl, false_and, false_or, true_and]
      · rw [tlbread_direct_reportsFaults rfl hget hlocated hpos]
        simp only [hpage, hpos, hpos.ne', false_and, or_false, false_or, true_and]
  · obtain ⟨hlocated, hstatus⟩ := located_of_not_fetches hfetches
    rw [if_neg hfetches]
    exact tlbread_region_reportsFaults hlocated (by omega) hv hrdm

lemma tlbwrite_reportsFaults (hv : p.caller.mm.mmap = [v]) (hrdm : p.caller.mram.rdmflg = true)
    (data destination offset : Word) :
    tlb.ReportsFaults p (.write data destination offset) ↔
      tlb.Serves p (.write data destination offset) := by
  unfold Serves
  dsimp only
  by_cases hfetches : p.Fetches destination offset
  · rw [if_pos hfetches]
    refine iff_of_true ?_ trivial
    rcases located_of_fetches hfetches with ⟨-, hlocated⟩ | ⟨-, c, hget, hlocated⟩
    · exact tlbwrite_fault_reportsFaults hlocated
    · have hframe := p.caller.pgGetpage_frame (p.lookupPgn destination offset)
      rw [hget] at hframe
      exact (tlbwrite_direct_reportsFaults hlocated (hframe.2.trans hrdm)).mpr
        (Caller.present_of_pgGetpage hget)
  · obtain ⟨hlocated, hstatus⟩ := located_of_not_fetches hfetches
    rw [if_neg hfetches]
    by_cases hhit : (p.tlbLookup destination offset).1 = 0
    · rw [if_pos hhit]
      have hfound : p.located destination offset = some (((0 : ℕ) : ℤ), p.caller) := by
        rw [hlocated, hhit]
        rfl
      exact tlbwrite_direct_reportsFaults hfound hrdm
    · rw [if_neg hhit]
      exact tlbwrite_region_reportsFaults hlocated (by omega) hv hrdm

/-- Faults reach the status of an access exactly in the states that `Serves` describes. -/
theorem reportsFaults_iff (hv : p.caller.mm.mmap = [v]) (hrdm : p.caller.mram.rdmflg = true)
    (build : Build) (a : MemInst) : build.ReportsFaults p a ↔ build.Serves p a := by
  cases build with
  | paging =>
    cases a with
    | read source offset destination =>
      exact pgread_reportsFaults hv hrdm source offset destination
    | write data destination offset =>
      exact pgwrite_reportsFaults hv hrdm data destination offset
  | tlb =>
    cases a with
    | read source offset destination =>
      exact tlbread_reportsFaults hv hrdm source offset destination
    | write data destination offset =>
      exact tlbwrite_reportsFaults hv hrdm data destination offset

/-- A read that fetches a page from frame 0, of an address on a present page. -/
lemma serves_read_of_present {source offset destination addr : Word}
    (hfetches : p.Fetches source offset)
    (hzero : p.caller.decodedFrame (p.lookupPgn source offset) = 0)
    (htarget : p.caller.mm.target source.toInt offset.toInt = some addr)
    (hpresent : p.caller.mm.Present addr) : tlb.Serves p (.read source offset destination) := by
  unfold Serves
  dsimp only
  rw [if_pos hfetches]
  exact .inr (.inr ⟨hzero, addr, htarget, Caller.not_unfetchableAfter_of_present hpresent _⟩)

/-- The first byte of a region that got its frame. -/
theorem reportsFaults_first_byte :
    tlb.ReportsFaults
        (((TlbSys.fresh (fun _ : Unit => 1) 256 0).run () (.alloc 256 0) 0).pcb ())
        (.read 0 0 1) ∧
      paging.ReportsFaults
        (((TlbSys.fresh (fun _ : Unit => 1) 256 0).run () (.alloc 256 0) 0).pcb ())
        (.write 7 0 0) := by
  have hv : (((TlbSys.fresh (fun _ : Unit => 1) 256 0).run () (.alloc 256 0) 0).pcb
      ()).caller.mm.mmap = [⟨1, 0, 256, 256, [⟨0, 0⟩]⟩] := by decide +kernel
  have hrdm : (((TlbSys.fresh (fun _ : Unit => 1) 256 0).run () (.alloc 256 0) 0).pcb
      ()).caller.mram.rdmflg = true := by decide +kernel
  have htarget : (((TlbSys.fresh (fun _ : Unit => 1) 256 0).run () (.alloc 256 0) 0).pcb
      ()).caller.mm.target (0 : Word).toInt (0 : Word).toInt = some 0 := by decide +kernel
  have hpresent : (((TlbSys.fresh (fun _ : Unit => 1) 256 0).run () (.alloc 256 0) 0).pcb
      ()).caller.mm.Present 0 := by decide +kernel
  have hfetches : (((TlbSys.fresh (fun _ : Unit => 1) 256 0).run () (.alloc 256 0) 0).pcb
      ()).Fetches 0 0 := by decide +kernel
  have hzero : (((TlbSys.fresh (fun _ : Unit => 1) 256 0).run () (.alloc 256 0) 0).pcb
      ()).caller.decodedFrame ((((TlbSys.fresh (fun _ : Unit => 1) 256 0).run ()
      (.alloc 256 0) 0).pcb ()).lookupPgn 0 0) = 0 := by decide +kernel
  -- from here on the state matters only through these facts
  generalize ((TlbSys.fresh (fun _ : Unit => 1) 256 0).run () (.alloc 256 0) 0).pcb () = p
    at hv hrdm htarget hpresent hfetches hzero ⊢
  constructor
  · refine (reportsFaults_iff hv hrdm .tlb (.read 0 0 1)).mpr ?_
    exact serves_read_of_present hfetches hzero htarget hpresent
  · refine (reportsFaults_iff hv hrdm .paging (.write 7 0 0)).mpr ?_
    exact (Caller.fetchable_iff htarget).mpr (Caller.not_unfetchable_of_present hpresent)

/-- An allocation of two pages with one frame of RAM maps no page.  A read of the region fails in
`pg_getpage` and returns 0. -/
theorem not_reportsFaults :
    (¬ ∀ s : TlbSys Unit, (instSystem Unit).Reachable s →
      ∀ a, tlb.ReportsFaults (s.pcb ()) a) ∧
    ¬ ∀ s : MemSys Unit, (callSystem Unit).Reachable s →
      ∀ pid regs tlb a, paging.ReportsFaults ⟨pid, regs, s.caller (), tlb⟩ a := by
  constructor
  · intro h
    have hreached : (instSystem Unit).Reachable
        ((TlbSys.fresh (fun _ : Unit => 1) 256 0).run () (.alloc 512 0) 0) :=
      .step (.start (start_fresh _ 256 0)) (a := ((), .alloc 512 0, 0)) rfl
    exact absurd ((h _ hreached (.read 0 0 1)).fault 0 0 (by decide +kernel)).1 (by decide +kernel)
  · intro h
    have hreached : (callSystem Unit).Reachable
        ((MemSys.fresh Unit 256 0).call () (.alloc 0 512)) :=
      .step (.start (MemSys.initial_fresh 256 0)) (a := ((), .alloc 0 512)) rfl
    exact absurd ((h _ hreached 1 (fun _ => 0) ⟨fun _ => 0, 6, true, 0, []⟩ (.read 0 0 1)).fault 0 0
      (by decide +kernel)).1 (by decide +kernel)

end Build

end Ossim
