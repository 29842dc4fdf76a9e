import Ossim.Paging.Mm

/-!
# Virtual memory

The functions of `src/mm-vm.c`: regions and their free list, growth of an area, page access and
the four calls `__alloc`, `__free`, `__read` and `__write`.  A call holds `mmvm_lock` from its
first to its last statement, so it is one function here.

`get_vma_by_num` returns a position in the list of areas.  Where it would return `NULL` and the
code dereferences the result, the model reads a default area and stores nothing; with the area
number 0, which all instructions pass, the first area is returned.
-/

namespace Ossim

/-! ## Areas and regions -/

namespace Mm

/-- The loop of `get_vma_by_num` behind the first area. -/
def getVmaLoop (vmaid : ℤ) : ℕ → List VmArea → Option ℕ
  | _, [] => none
  | i, pvma :: rest => if cint pvma.vmId < vmaid then getVmaLoop vmaid (i + 1) rest else some i

/-- `get_vma_by_num`: the position of the area in the list. -/
def getVmaByNum (mm : Mm) (vmaid : ℤ) : Option ℕ :=
  match mm.mmap with
  | [] => none
  | _ :: rest => if 0 < vmaid then getVmaLoop vmaid 1 rest else some 0

/-- The area `get_vma_by_num` returns. -/
def curVma (mm : Mm) (vmaid : ℤ) : VmArea :=
  match mm.getVmaByNum vmaid with
  | none => default
  | some i => mm.mmap.getD i default

/-- Store into the area `get_vma_by_num` returns. -/
def setCurVma (mm : Mm) (vmaid : ℤ) (vma : VmArea) : Mm :=
  match mm.getVmaByNum vmaid with
  | none => mm
  | some i => { mm with mmap := mm.mmap.set i vma }

/-- Store a region in the symbol table. -/
def setSymrg (mm : Mm) (rgid : ℤ) (rg : VmRg) : Mm :=
  { mm with symrgtbl := Function.update mm.symrgtbl rgid rg }

/-- `enlist_vm_freerg_list`: the list of the first area; its status is not used. -/
def enlistVmFreergList (mm : Mm) (rgElmt : VmRg) : Mm :=
  if rgElmt.rgEnd ≤ rgElmt.rgStart then mm
  else
    match mm.mmap with
    | [] => mm
    | vma :: rest =>
      { mm with mmap := { vma with vmFreergList := rgElmt :: vma.vmFreergList } :: rest }

/-- `get_symrg_byid`: `none` for `NULL`. -/
def getSymrgByid (mm : Mm) (rgid : ℤ) : Option VmRg :=
  if rgid < 0 ∨ rgid > pagingMaxSymtblSz then none else some (mm.symrgtbl rgid)

end Mm

/-- The list walk of `get_free_vmrg_area`: the region cut out and the list left behind.  A region
that is used up takes over its successor, or stays as an empty last one. -/
def firstFit (size : ℤ) : List VmRg → Option (VmRg × List VmRg)
  | [] => none
  | rgit :: rgNext =>
    let cut := ulong (rgit.rgStart + size)
    if cut ≤ rgit.rgEnd then
      let newrg : VmRg := ⟨rgit.rgStart, cut⟩
      if cut < rgit.rgEnd then some (newrg, ⟨cut, rgit.rgEnd⟩ :: rgNext)
      else
        match rgNext with
        | nextrg :: rest => some (newrg, nextrg :: rest)
        | [] => some (newrg, [⟨rgit.rgEnd, rgit.rgEnd⟩])
    else (firstFit size rgNext).map fun (newrg, list) => (newrg, rgit :: list)

namespace Caller

/-- `get_free_vmrg_area`: the new region, `none` for the status `-1`. -/
def getFreeVmrgArea (c : Caller) (vmaid size : ℤ) : Option VmRg × Caller :=
  let curVma := c.mm.curVma vmaid
  match firstFit size curVma.vmFreergList with
  | none => (none, c)
  | some (newrg, list) =>
    let c : Caller := { c with mm := c.mm.setCurVma vmaid { curVma with vmFreergList := list } }
    -- the test whether a region was found compares its start with `-1`
    if newrg.rgStart = ulong (-1) then (none, c) else (some newrg, c)

/-- `get_vm_area_node_at_brk`. -/
def getVmAreaNodeAtBrk (c : Caller) (vmaid size _alignedsz : ℤ) : VmRg :=
  let curVma := c.mm.curVma vmaid
  ⟨curVma.sbrk, ulong (curVma.sbrk + size)⟩

/-- `validate_overlap_vm_area`. -/
def validateOverlapVmArea (c : Caller) (vmaid vmastart vmaend : ℤ) : ℤ :=
  match c.mm.getVmaByNum vmaid with
  | none => -1
  | some cur =>
    if c.mm.mmap.zipIdx.any fun (iter, i) =>
        !(i == cur || iter.vmEnd ≤ ulong vmastart || ulong vmaend ≤ iter.vmStart)
    then 1 else 0

/-- The new bounds that `inc_vma_limit` gives to an area. -/
def growArea (c : Caller) (vmaid incSz : ℤ) : Caller :=
  let curVma := c.mm.curVma vmaid
  { c with
    mm := c.mm.setCurVma vmaid { curVma with
      vmEnd := ulong (curVma.vmEnd + incSz)
      sbrk := ulong (curVma.sbrk + incSz) } }

/-- `inc_vma_limit`. -/
def incVmaLimit (c : Caller) (vmaid incSz : ℤ) : ℤ × Caller :=
  let incAmt := pagingPageAlignsz incSz
  let incnumpage := incAmt.tdiv pagingPagesz
  let area := c.getVmAreaNodeAtBrk vmaid incSz incAmt
  let oldEnd := cint (c.mm.curVma vmaid).vmEnd
  if c.validateOverlapVmArea vmaid (cint area.rgStart) (cint area.rgEnd) < 0 then (-1, c)
  else
    let (ret, c) :=
      (c.growArea vmaid incSz).vmMapRam (cint area.rgStart) (cint area.rgEnd) oldEnd incnumpage
    if ret < 0 then (-1, c) else (0, c)

/-! ## The calls on regions -/

/-- The end of `__alloc`: the region of `size` bytes at the old break becomes a symbol, and what
the area has behind it becomes a free region. -/
def carveAtBrk (c : Caller) (vmaid rgid size oldSbrk : ℤ) : Caller :=
  let rg : VmRg := ⟨ulong oldSbrk, ulong (cint (oldSbrk + size))⟩
  let mm := c.mm.setSymrg rgid rg
  let vmEnd := (mm.curVma vmaid).vmEnd
  if ulong (cint (oldSbrk + size)) < vmEnd then
    { c with mm := mm.enlistVmFreergList ⟨ulong (cint (oldSbrk + size)), vmEnd⟩ }
  else { c with mm := mm }

/-- The second half of `__alloc`, entered when no free region fits: grow the area and cut the
region out at its old break.  The status of the growth is dropped. -/
def allocAtBrk (c : Caller) (vmaid rgid size : ℤ) : ℤ × ℤ × Caller :=
  let oldSbrk := cint (c.mm.curVma vmaid).sbrk
  (0, oldSbrk,
    (c.incVmaLimit vmaid (pagingPageAlignsz size)).2.carveAtBrk vmaid rgid size oldSbrk)

/-- `__alloc`: status, address stored through `alloc_addr`, caller. -/
def alloc (c : Caller) (vmaid rgid size : ℤ) : ℤ × ℤ × Caller :=
  match c.getFreeVmrgArea vmaid size with
  | (some rgnode, c) =>
    (0, cint rgnode.rgStart, { c with mm := c.mm.setSymrg rgid rgnode })
  | (none, c) => c.allocAtBrk vmaid rgid size

/-- `__free`. -/
def free (c : Caller) (_vmaid rgid : ℤ) : ℤ × Caller :=
  if rgid < 0 ∨ rgid > pagingMaxSymtblSz then (-1, c)
  else (0, { c with mm := c.mm.enlistVmFreergList (c.mm.symrgtbl rgid) })

/-! ## Page access -/

/-- The page swap in `pg_getpage`: the victim's page is copied to the swap frame, the target's
page to the victim's RAM frame, and both entries and the resident list are set to that. -/
def pageIn (c : Caller) (pgn tgtfpn vicpgn swpfpn : ℕ) : Caller :=
  let vicfpn := pagingFpn (c.mm.pgd vicpgn)
  let c := c.swapCpPage .mram vicfpn .activeMswp swpfpn
  let c := c.swapCpPage .activeMswp tgtfpn .mram vicfpn
  let c := c.setPte vicpgn (pteSetSwap (c.mm.pgd vicpgn) 0 swpfpn)
  let c := c.setPte pgn (pteSetFpn (c.mm.pgd pgn) vicfpn)
  { c with mm := { c.mm with fifoPgn := enlistPgnNode c.mm.fifoPgn pgn } }

/-- `pg_getpage`: the frame number stored through `fpn`, `none` for the status `-1`. -/
def pgGetpage (c : Caller) (pgn : ℕ) : Option ℕ × Caller :=
  let pte := c.mm.pgd pgn
  if !pagingPagePresent pte then
    let tgtfpn := pagingSwp pte
    match findVictimPage c.mm with
    | none => (none, c)
    | some (vicpgn, mm) =>
      match c.activeMswp.getFreefp with
      | none => (none, { c with mm := mm })
      | some (swpfpn, mswp) =>
        let c := { c with mm := mm, activeMswp := mswp }.pageIn pgn tgtfpn vicpgn swpfpn
        (some (pagingFpn (c.mm.pgd pgn)), c)
  else (some (pagingFpn (c.mm.pgd pgn)), c)

/-- The physical address `(fpn << PAGING_ADDR_FPN_LOBIT) + off`. -/
def phyaddr (fpn off : ℕ) : ℤ := fpn * 2 ^ pagingPageszBits + off

/-- `pg_getval`: status, byte stored through `data`, caller.  The status of the device read is
dropped. -/
def pgGetval (c : Caller) (addr : Word) : ℤ × Option Byte × Caller :=
  let pgn := pagingPgn addr
  let off := pagingOffst addr
  match c.pgGetpage pgn with
  | (none, c) => (-1, none, c)
  | (some fpn, c) =>
    let (_, mram, data) := c.mram.read (phyaddr fpn off)
    (0, data, { c with mram := mram })

/-- `pg_setval`. -/
def pgSetval (c : Caller) (addr : Word) (value : Byte) : ℤ × Caller :=
  let pgn := pagingPgn addr
  let off := pagingOffst addr
  match c.pgGetpage pgn with
  | (none, c) => (-1, c)
  | (some fpn, c) => (0, { c with mram := (c.mram.write (phyaddr fpn off) value).2 })

/-- The `int` address `currg->rg_start + offset`. -/
def regionAddr (currg : VmRg) (offset : ℤ) : Word := BitVec.ofInt 32 (currg.rgStart + offset)

/-- `__read`: status, byte stored through `data`, caller.  The status of `pg_getval` is
dropped. -/
def read (c : Caller) (vmaid rgid offset : ℤ) : ℤ × Option Byte × Caller :=
  match c.mm.getSymrgByid rgid, c.mm.getVmaByNum vmaid with
  | some currg, some _ => (0, (c.pgGetval (regionAddr currg offset)).2)
  | _, _ => (-1, none, c)

/-- `__write`.  The status of `pg_setval` is dropped. -/
def write (c : Caller) (vmaid rgid offset : ℤ) (value : Byte) : ℤ × Caller :=
  match c.mm.getSymrgByid rgid, c.mm.getVmaByNum vmaid with
  | some currg, some _ => (0, (c.pgSetval (regionAddr currg offset) value).2)
  | _, _ => (-1, c)

end Caller

end Ossim
