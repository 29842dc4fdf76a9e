import Ossim.Paging.Vm
import Ossim.Tlb.Cache

/-!
# Instructions

The two sets of functions between which `run` in `src/cpu.c` chooses: those of `src/cpu-tlb.c`
with a TLB and those of `src/mm-vm.c` without.  Operands are the `uint32_t` fields of `struct
inst_t`; where a function has an `int` parameter they are converted.

`junk` is what the uninitialised variable `data` of a read holds.  The registers are a function
on all indices, of which the code allocates the first ten, and the symbol table is a function on
all region ids, of which it allocates the first thirty.  What lies behind these arrays in C (`pc`,
`prio` and the pointers of the `pcb_t`, `fifo_pgn` and the rest of the `mm_struct`) is apart from
them here: a store to index 10 or to region 30 changes nothing else.
-/

namespace Ossim

/-- The number of registers. -/
abbrev numRegs : ℕ := 10

/-- `struct pcb_t`, as far as the memory instructions use it. -/
structure Pcb where
  /-- `pid`. -/
  pid : Word
  /-- `regs`. -/
  regs : ℕ → Word
  /-- `mm`, `mram` and `active_mswp`. -/
  caller : Caller
  /-- `tlb`. -/
  tlb : Memphy

/-- The instructions that `run` knows. -/
inductive Inst
  | calc
  | alloc (size regIndex : Word)
  | free (regIndex : Word)
  | read (source offset destination : Word)
  | write (data destination offset : Word)
  deriving DecidableEq

namespace Pcb

/-- Store into a register. -/
def setReg (p : Pcb) (i : Word) (x : Word) : Pcb :=
  { p with regs := Function.update p.regs i.toNat x }

/-! ## Without a TLB -/

/-- `pgalloc`. -/
def pgalloc (p : Pcb) (size regIndex : Word) : ℤ × Pcb :=
  let (val, _, caller) := p.caller.alloc 0 regIndex.toInt size.toInt
  (val, { p with caller := caller })

/-- `pgfree_data`. -/
def pgfreeData (p : Pcb) (regIndex : Word) : ℤ × Pcb :=
  let (val, caller) := p.caller.free 0 regIndex.toInt
  (val, { p with caller := caller })

/-- `pgread`: it stores the byte in its parameter `destination`, not in the register. -/
def pgread (p : Pcb) (source offset _destination : Word) : ℤ × Pcb :=
  let (val, _, caller) := p.caller.read 0 source.toInt offset.toInt
  (val, { p with caller := caller })

/-- `pgwrite`. -/
def pgwrite (p : Pcb) (data : Byte) (destination offset : Word) : ℤ × Pcb :=
  let (val, caller) := p.caller.write 0 destination.toInt offset.toInt data
  (val, { p with caller := caller })

/-! ## With a TLB -/

/-- One turn of the loop of `tlballoc`. -/
def tlballocPage (p : Pcb) (pgnum : ℕ) : Pcb :=
  let pte := p.caller.mm.pgd pgnum
  if pagingPagePresent pte then
    let frameNumber := pagingFpn pte
    let (tlbResult, frameInTlb) := tlbCacheRead p.tlb p.pid pgnum
    if tlbResult ≠ 0 ∨ frameInTlb.map byteInt ≠ some (BitVec.ofNat 32 frameNumber) then
      { p with tlb := (tlbCacheWrite p.tlb p.pid pgnum (byteInt (BitVec.ofNat 8 frameNumber))).2 }
    else p
  else p

/-- `tlballoc`. -/
def tlballoc (p : Pcb) (size regIndex : Word) : ℤ × Pcb :=
  let (val, addr, caller) := p.caller.alloc 0 regIndex.toInt size.toInt
  let p := { p with caller := caller }
  if val ≠ 0 then (val, p)
  else
    let numPages := (size + BitVec.ofNat 32 (pagingPagesz - 1)).toNat / pagingPagesz
    let startPage := pagingPgn (BitVec.ofInt 32 addr)
    (0, (List.range' startPage numPages).foldl tlballocPage p)

/-- One turn of the loop of `tlbfree_data`, which writes the dummy frame number `0xFF`. -/
def tlbfreePage (p : Pcb) (pageNumber : ℕ) : Pcb :=
  if (tlbCacheRead p.tlb p.pid pageNumber).1 = 0 then
    { p with tlb := (tlbCacheWrite p.tlb p.pid pageNumber (byteInt 0xFF#8)).2 }
  else p

/-- `tlbfree_data`.  The status of `__free` is dropped, and the bounds of the region are read
again afterwards. -/
def tlbfreeData (p : Pcb) (regIndex : Word) : ℤ × Pcb :=
  let region := p.caller.mm.symrgtbl regIndex.toNat
  if pagingMaxSymtblSz ≤ regIndex.toNat then (-1, p)
  else if region.rgStart = 0 ∧ region.rgEnd = 0 then (-1, p)
  else
    let p := { p with caller := (p.caller.free 0 regIndex.toInt).2 }
    let region := p.caller.mm.symrgtbl regIndex.toNat
    let startPage := pagingPgn (BitVec.ofNat 32 region.rgStart)
    let endPage := pagingPgn (BitVec.ofInt 32 (region.rgEnd - 1))
    (0, (List.range' startPage (endPage + 1 - startPage)).foldl tlbfreePage p)

/-- The address `regs[i] + offset`, on which `tlbread` and `tlbwrite` look up their page. -/
def regAddr (p : Pcb) (i offset : Word) : Word := p.regs i.toNat + offset

/-- The page is looked up in the TLB: the status, and the byte stored in `check`. -/
def tlbLookup (p : Pcb) (i offset : Word) : ℤ × Option Byte :=
  tlbCacheRead p.tlb p.pid (pagingPgn (p.regAddr i offset))

/-- The end of a miss: the entry of the page is written to the TLB. -/
def tlbRefill (p : Pcb) (pgn : ℕ) : Pcb :=
  { p with tlb := (tlbCacheWrite p.tlb p.pid pgn (p.caller.mm.pgd pgn)).2 }

/-- The second half of `tlbread`, for a page `pgn` and the value of `frmnum`. -/
def tlbreadFrom (junk : Byte) (p : Pcb) (pgn : ℕ) (frmnum : ℤ) (source offset destination : Word) :
    ℤ × Pcb :=
  if frmnum > 0 then
    let phyaddr := cint (frmnum * 2 ^ pagingPageszBits + offset.toNat)
    (0, p.setReg destination (byteInt (p.caller.mram.storage phyaddr)))
  else
    let (_, data, caller) := p.caller.read 0 source.toInt offset.toInt
    let p := { p with caller := caller }.tlbRefill pgn
    (0, p.setReg destination (byteInt (data.getD junk)))

/-- `tlbread`. -/
def tlbread (junk : Byte) (p : Pcb) (source offset destination : Word) : ℤ × Pcb :=
  let pgn := pagingPgn (p.regAddr source offset)
  let (frmnum, check) := p.tlbLookup source offset
  -- `check` is initialised with 0
  if check.getD 0 = -1 then
    match p.caller.pgGetpage pgn with
    | (none, caller) => (-1, { p with caller := caller })
    | (some frmnum, caller) =>
      tlbreadFrom junk { p with caller := caller } pgn frmnum source offset destination
  else tlbreadFrom junk p pgn frmnum source offset destination

/-- The second half of `tlbwrite`, for a page `pgn` with the offset `off` in it and the value of
`frmnum`. -/
def tlbwriteTo (p : Pcb) (pgn off : ℕ) (frmnum : ℤ) (data : Byte) (destination offset : Word) :
    ℤ × Pcb :=
  if frmnum ≥ 0 then
    let phyaddr := frmnum * 2 ^ pagingPageszBits + off
    let (val, mram) := p.caller.mram.write phyaddr data
    (val, { p with caller := { p.caller with mram := mram } })
  else
    let (val, caller) := p.caller.write 0 destination.toInt offset.toInt data
    (val, { p with caller := caller }.tlbRefill pgn)

/-- `tlbwrite`. -/
def tlbwrite (p : Pcb) (data : Byte) (destination offset : Word) : ℤ × Pcb :=
  let pgn := pagingPgn (p.regAddr destination offset)
  let off := pagingOffst (p.regAddr destination offset)
  let (frmnum, check) := p.tlbLookup destination offset
  if check.getD 0 = -1 then
    match p.caller.pgGetpage pgn with
    | (none, caller) => (-1, { p with caller := caller })
    | (some frmnum, caller) =>
      tlbwriteTo { p with caller := caller } pgn off frmnum data destination offset
  else tlbwriteTo p pgn off frmnum data destination offset

end Pcb

/-! ## The switch of `run` -/

/-- The functions that `run` calls. -/
structure BackEnd where
  /-- For `ALLOC`. -/
  alloc : Pcb → Word → Word → ℤ × Pcb
  /-- For `FREE`. -/
  free : Pcb → Word → ℤ × Pcb
  /-- For `READ`; the first argument is what `data` holds before. -/
  read : Byte → Pcb → Word → Word → Word → ℤ × Pcb
  /-- For `WRITE`. -/
  write : Pcb → Byte → Word → Word → ℤ × Pcb

/-- With `CPU_TLB`. -/
def BackEnd.tlb : BackEnd := ⟨Pcb.tlballoc, Pcb.tlbfreeData, Pcb.tlbread, Pcb.tlbwrite⟩

/-- Without `CPU_TLB`. -/
def BackEnd.paging : BackEnd :=
  ⟨Pcb.pgalloc, Pcb.pgfreeData, fun _ => Pcb.pgread, Pcb.pgwrite⟩

/-- The switch of `run`: the status and the process.  `calc` returns 0. -/
def BackEnd.run (b : BackEnd) (junk : Byte) (ins : Inst) (p : Pcb) : ℤ × Pcb :=
  match ins with
  | .calc => (0, p)
  | .alloc size regIndex => b.alloc p size regIndex
  | .free regIndex => b.free p regIndex
  | .read source offset destination => b.read junk p source offset destination
  | .write data destination offset => b.write p (data.setWidth 8) destination offset

/-- Whether the program is compiled with `CPU_TLB`. -/
inductive Build
  | tlb
  | paging
  deriving DecidableEq

/-- The functions that `run` calls in a build. -/
def Build.backEnd : Build → BackEnd
  | .tlb => .tlb
  | .paging => .paging

/-! ## Changes of the TLB -/

namespace Pcb

/-- Changing the TLB only. -/
def setTlb (p : Pcb) (tlb : Memphy) : Pcb := { p with tlb := tlb }

/-- The loops that update the TLB change nothing else. -/
lemma foldl_setTlb {f : Pcb → ℕ → Pcb} (hf : ∀ p n, ∃ tlb, f p n = p.setTlb tlb) (l : List ℕ)
    (p : Pcb) : ∃ tlb, l.foldl f p = p.setTlb tlb := by
  induction l generalizing p with
  | nil => exact ⟨p.tlb, rfl⟩
  | cons n l ih =>
    obtain ⟨tlb, htlb⟩ := hf p n
    obtain ⟨tlb', htlb'⟩ := ih (p.setTlb tlb)
    exact ⟨tlb', by rw [List.foldl_cons, htlb, htlb']; rfl⟩

lemma tlballocPage_setTlb (p : Pcb) (pgnum : ℕ) : ∃ tlb, p.tlballocPage pgnum = p.setTlb tlb := by
  unfold tlballocPage
  dsimp only
  split
  · split
    · exact ⟨_, rfl⟩
    · exact ⟨p.tlb, rfl⟩
  · exact ⟨p.tlb, rfl⟩

lemma tlbfreePage_setTlb (p : Pcb) (pgnum : ℕ) : ∃ tlb, p.tlbfreePage pgnum = p.setTlb tlb := by
  unfold tlbfreePage
  split
  · exact ⟨_, rfl⟩
  · exact ⟨p.tlb, rfl⟩

/-- Region ids are the same as `uint32_t` and as `int`. -/
lemma toInt_of_lt {r : Word} (h : r.toNat < pagingMaxSymtblSz) : r.toInt = r.toNat := by
  have hlt : (r.toNat : ℤ) < 30 := h
  exact BitVec.toInt_eq_toNat_of_lt (by omega)

lemma id_of_numRegs {r : Word} (h : r.toNat < numRegs) : r.toNat < pagingMaxSymtblSz := by
  have hlt : r.toNat < 10 := h
  have hid : (r.toNat : ℤ) < 30 := by omega
  exact hid

end Pcb

end Ossim
