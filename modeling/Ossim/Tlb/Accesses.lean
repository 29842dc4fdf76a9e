import Ossim.Tlb.System

/-!
# Which array elements instructions use

The elements of `regs`, `symrgtbl`, `pgd` and of the storage of RAM that an instruction reads or
writes, function by function as the code goes through them.  An element that a function uses more
than once in a row is listed once.  `Ossim.Tlb.Changes` shows that nothing else is changed.
-/

namespace Ossim

/-- An element of one of the four arrays. -/
inductive Access
  /-- `proc->regs[i]`. -/
  | regs (i : ℕ)
  /-- `mm->symrgtbl[i]`. -/
  | symrgtbl (i : ℤ)
  /-- `mm->pgd[i]`. -/
  | pgd (i : ℕ)
  /-- `mram->storage[i]`. -/
  | mram (i : ℤ)
  deriving DecidableEq

/-- The element exists, for a RAM of `maxsz` bytes. -/
def Access.InRange (maxsz : ℤ) : Access → Prop
  | .regs i => i < numRegs
  | .symrgtbl i => 0 ≤ i ∧ i < pagingMaxSymtblSz
  | .pgd i => i < pagingMaxPgn
  | .mram i => 0 ≤ i ∧ i < maxsz

/-- A run of page table entries. -/
def pgdRange (first n : ℕ) : List Access := (List.range' first n).map .pgd

/-! ## Paging -/

namespace Caller

/-- The RAM side of `__swap_cp_page`. -/
def frameAccesses (fpn : ℕ) : List Access :=
  (List.range pagingPagesz).map fun cellidx : ℕ => .mram (fpn * pagingPagesz + cellidx)

/-- The loop of `alloc_pages_range`. -/
def gatherAccesses : ℕ → Caller → List Access
  | 0, _ => []
  | n + 1, c =>
    match c.mram.getFreefp with
    | some (_, mram) => gatherAccesses n { c with mram := mram }
    | none =>
      match findVictimPage c.mm with
      | none => []
      | some (victimPage, mm) =>
        match c.activeMswp.getFreefp with
        | none => []
        | some (swpfpn, mswp) =>
          let c : Caller := { c with mm := mm, activeMswp := mswp }
          .pgd victimPage :: frameAccesses (pagingFpn (c.mm.pgd victimPage)) ++
            gatherAccesses n (c.evictPage victimPage swpfpn)

/-- `vm_map_ram`: `alloc_pages_range` and `vmap_page_range`. -/
def mapAccesses (c : Caller) (mapstart incpgnum : ℤ) : List Access :=
  gatherAccesses incpgnum.toNat c ++ (c.vmMapRamWrites mapstart incpgnum).map .pgd

/-- `inc_vma_limit`. -/
def growAccesses (c : Caller) (vmaid incSz : ℤ) : List Access :=
  let incAmt := pagingPageAlignsz incSz
  let area := c.getVmAreaNodeAtBrk vmaid incSz incAmt
  if c.validateOverlapVmArea vmaid (cint area.rgStart) (cint area.rgEnd) < 0 then []
  else (c.growArea vmaid incSz).mapAccesses (cint (c.mm.curVma vmaid).vmEnd)
    (incAmt.tdiv pagingPagesz)

/-- `__alloc`. -/
def allocAccesses (c : Caller) (rgid size : ℤ) : List Access :=
  match c.getFreeVmrgArea 0 size with
  | (some _, _) => [.symrgtbl rgid]
  | (none, c) => c.growAccesses 0 (pagingPageAlignsz size) ++ [.symrgtbl rgid]

/-- `__free`. -/
def freeAccesses (rgid : ℤ) : List Access :=
  if rgid < 0 ∨ rgid > pagingMaxSymtblSz then [] else [.symrgtbl rgid]

/-- `pg_getpage`. -/
def getpageAccesses (c : Caller) (pgn : ℕ) : List Access :=
  .pgd pgn ::
    if pagingPagePresent (c.mm.pgd pgn) then []
    else
      match findVictimPage c.mm with
      | none => []
      | some (vicpgn, mm) =>
        match c.activeMswp.getFreefp with
        | none => []
        | some _ => .pgd vicpgn :: frameAccesses (pagingFpn (mm.pgd vicpgn))

/-- `pg_getval` and `pg_setval`. -/
def valAccesses (c : Caller) (addr : Word) : List Access :=
  c.getpageAccesses (pagingPgn addr) ++
    match c.pgGetpage (pagingPgn addr) with
    | (none, _) => []
    | (some fpn, _) => [.mram (phyaddr fpn (pagingOffst addr))]

/-- `__read` and `__write`. -/
def regionAccesses (c : Caller) (rgid offset : ℤ) : List Access :=
  match c.mm.getSymrgByid rgid, c.mm.getVmaByNum 0 with
  | some currg, some _ => .symrgtbl rgid :: c.valAccesses (regionAddr currg offset)
  | _, _ => []

/-- `print_pgtbl(caller, 0, -1)`, which dumps the entries below the end of the area. -/
def dumpAccesses (c : Caller) : List Access :=
  pgdRange 0 (pagingPgn (BitVec.ofNat 32 (c.mm.curVma 0).vmEnd))

end Caller

/-! ## Instructions -/

namespace Pcb

/-- `tlballoc`. -/
def tlballocAccesses (p : Pcb) (size regIndex : Word) : List Access :=
  let (val, addr, _) := p.caller.alloc 0 regIndex.toInt size.toInt
  p.caller.allocAccesses regIndex.toInt size.toInt ++
    if val ≠ 0 then []
    else pgdRange (pagingPgn (BitVec.ofInt 32 addr))
      ((size + BitVec.ofNat 32 (pagingPagesz - 1)).toNat / pagingPagesz)

/-- `tlbfree_data`. -/
def tlbfreeAccesses (p : Pcb) (regIndex : Word) : List Access :=
  let region := p.caller.mm.symrgtbl regIndex.toNat
  if pagingMaxSymtblSz ≤ regIndex.toNat then []
  else .symrgtbl regIndex.toNat ::
    if region.rgStart = 0 ∧ region.rgEnd = 0 then [] else Caller.freeAccesses regIndex.toInt

/-- The beginning of `tlbread` and `tlbwrite`, up to `pg_getpage`. -/
def findAccesses (p : Pcb) (i offset : Word) : List Access :=
  .regs i.toNat ::
    if p.Fetches i offset then p.caller.getpageAccesses (p.lookupPgn i offset) else []

/-- `tlbread`. -/
def tlbreadAccesses (p : Pcb) (source offset destination : Word) : List Access :=
  p.findAccesses source offset ++
    match p.located source offset with
    | none => []
    | some (frmnum, c) =>
      c.dumpAccesses ++
        (if frmnum > 0 then [.mram (cint (frmnum * 2 ^ pagingPageszBits + offset.toNat))]
        else c.regionAccesses source.toInt offset.toInt ++ [.pgd (p.lookupPgn source offset)]) ++
        [.regs destination.toNat]

/-- `tlbwrite`. -/
def tlbwriteAccesses (p : Pcb) (destination offset : Word) : List Access :=
  p.findAccesses destination offset ++
    match p.located destination offset with
    | none => []
    | some (frmnum, c) =>
      c.dumpAccesses ++
        if frmnum ≥ 0 then
          [.mram (frmnum * 2 ^ pagingPageszBits + pagingOffst (p.regAddr destination offset))]
        else c.regionAccesses destination.toInt offset.toInt ++
          [.pgd (p.lookupPgn destination offset)]

/-- The elements that an instruction reads or writes. -/
def accesses (p : Pcb) : Inst → List Access
  | .calc => []
  | .alloc size regIndex => p.tlballocAccesses size regIndex
  | .free regIndex => p.tlbfreeAccesses regIndex
  | .read source offset destination => p.tlbreadAccesses source offset destination
  | .write _ destination offset => p.tlbwriteAccesses destination offset

end Pcb

end Ossim
