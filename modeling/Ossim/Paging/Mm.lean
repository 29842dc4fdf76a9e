import Ossim.Paging.Memphy

/-!
# The memory management unit

The structures of `include/os-mm.h` and the functions of `src/mm.c`, with `find_victim_page` of
`src/mm-vm.c`, which `alloc_pages_range` calls.

The functions take a `struct pcb_t *caller` and use its `mm`, its RAM device and its active swap
device; these three are the structure `Caller`, and each function returns the caller it leaves
behind.  Singly linked lists are lists in their order of traversal.  `int` values are integers,
brought back into range by `cint` where the code may overflow or convert; `unsigned long` values
are natural numbers, taken modulo `2 ^ 64` by `ulong`.  A page table is a function on all
natural numbers, of which the code allocates the first `pagingMaxPgn`.
-/

namespace Ossim

/-! ## C integers -/

/-- Conversion to `int`, also the result of an `int` operation that overflows. -/
def cint (x : ℤ) : ℤ := Int.bmod x (2 ^ 32)

/-- Conversion to `unsigned long`. -/
def ulong (x : ℤ) : ℕ := (x % 2 ^ 64).toNat

/-- `PAGING_PAGE_ALIGNSZ(sz)` of an `int`. -/
def pagingPageAlignsz (sz : ℤ) : ℤ :=
  (cint (sz + pagingPagesz - 1)).tdiv pagingPagesz * pagingPagesz

lemma cint_of_mem {x : ℤ} (hlo : -2 ^ 31 ≤ x) (hhi : x < 2 ^ 31) : cint x = x := by
  unfold cint
  rw [Int.bmod_def]
  split <;> omega

lemma ulong_of_mem {x : ℤ} (hlo : 0 ≤ x) (hhi : x < 2 ^ 64) : (ulong x : ℤ) = x := by
  unfold ulong
  omega

/-- Aligning a positive size that fits rounds it up to whole pages. -/
lemma pagingPageAlignsz_of_mem {sz : ℤ} (hlo : 1 ≤ sz) (hhi : sz < 2 ^ 31 - 255) :
    pagingPageAlignsz sz = (sz + 255) / 256 * 256 := by
  have hcint : cint (sz + 256 - 1) = sz + 255 := by
    rw [cint_of_mem (by omega) (by omega)]
    omega
  unfold pagingPageAlignsz
  rw [pagingPagesz_cast, hcint, Int.tdiv_eq_ediv_of_nonneg (by omega)]

/-- Aligning a size next to the largest `int` overflows to a negative number. -/
lemma pagingPageAlignsz_of_ge {sz : ℤ} (hlo : 2 ^ 31 - 255 ≤ sz) (hhi : sz < 2 ^ 31) :
    pagingPageAlignsz sz < -2 ^ 30 ∧ -2 ^ 31 ≤ pagingPageAlignsz sz := by
  have hcint : cint (sz + 256 - 1) = sz + 255 - 2 ^ 32 := by
    unfold cint
    rw [Int.bmod_def]
    split <;> omega
  have hneg : (sz + 255 - 2 ^ 32).tdiv 256 =
      (sz + 255 - 2 ^ 32) / 256 + if 256 ∣ (sz + 255 - 2 ^ 32) then 0 else 1 := by
    rw [Int.tdiv_eq_ediv]
    split <;> grind
  unfold pagingPageAlignsz
  rw [pagingPagesz_cast, hcint, hneg]
  split <;> omega

/-! ## Structures -/

/-- `PAGING_MAX_SYMTBL_SZ`: the number of entries of a symbol table. -/
abbrev pagingMaxSymtblSz : ℤ := 30

/-- `struct vm_rg_struct`: the bounds of a memory region. -/
structure VmRg where
  /-- First address. -/
  rgStart : ℕ
  /-- Address behind the last one. -/
  rgEnd : ℕ
  deriving DecidableEq, Inhabited

/-- `struct vm_area_struct`. -/
structure VmArea where
  /-- Identifier. -/
  vmId : ℕ
  /-- First address. -/
  vmStart : ℕ
  /-- Address behind the last one. -/
  vmEnd : ℕ
  /-- Break: where the next growth starts. -/
  sbrk : ℕ
  /-- Free regions. -/
  vmFreergList : List VmRg
  deriving DecidableEq, Inhabited

/-- `struct mm_struct`. -/
structure Mm where
  /-- The page table. -/
  pgd : ℕ → Word
  /-- The memory areas. -/
  mmap : List VmArea
  /-- The symbol table, from region ids to regions; ids outside `0 .. 29` name the memory
  around the array. -/
  symrgtbl : ℤ → VmRg
  /-- The resident pages, the one mapped last first. -/
  fifoPgn : List ℕ

/-- The parts of a `struct pcb_t` that the memory functions use through `caller`. -/
structure Caller where
  /-- Memory management of the process. -/
  mm : Mm
  /-- The RAM device. -/
  mram : Memphy
  /-- The active swap device. -/
  activeMswp : Memphy

/-- The two devices a caller points to. -/
inductive Device
  | mram
  | activeMswp
  deriving DecidableEq

namespace Caller

/-- The device behind one of the two pointers. -/
def device (c : Caller) : Device → Memphy
  | .mram => c.mram
  | .activeMswp => c.activeMswp

/-- Store into one of the two devices. -/
def setDevice (c : Caller) : Device → Memphy → Caller
  | .mram, mp => { c with mram := mp }
  | .activeMswp, mp => { c with activeMswp := mp }

/-- Store a page table entry. -/
def setPte (c : Caller) (pgn : ℕ) (pte : Word) : Caller :=
  { c with mm := { c.mm with pgd := Function.update c.mm.pgd pgn pte } }

end Caller

/-! ## Lists of pages and regions -/

/-- `enlist_pgn_node`. -/
def enlistPgnNode (plist : List ℕ) (pgn : ℕ) : List ℕ := pgn :: plist

/-- `enlist_vm_rg_node`. -/
def enlistVmRgNode (rglist : List VmRg) (rgnode : VmRg) : List VmRg := rgnode :: rglist

/-- `init_vm_rg`. -/
def initVmRg (rgStart rgEnd : ℤ) : VmRg := ⟨ulong rgStart, ulong rgEnd⟩

/-- The list walk of `find_victim_page`: the last node and the list without it. -/
def takeTail : List ℕ → Option (ℕ × List ℕ)
  | [] => none
  | [pg] => some (pg, [])
  | pg :: next :: rest =>
    (takeTail (next :: rest)).map fun (victim, list) => (victim, pg :: list)

/-- `find_victim_page`: the page taken off the resident list, `none` for the status `-1`. -/
def findVictimPage (mm : Mm) : Option (ℕ × Mm) :=
  (takeTail mm.fifoPgn).map fun (victim, list) => (victim, { mm with fifoPgn := list })

/-! ## Frames and pages -/

namespace Caller

/-- One turn of the loop of `__swap_cp_page`.  The byte is indeterminate when the read stores
none, which happens on a sequential device only. -/
def swapCpCell (c : Caller) (src : Device) (srcfpn : ℕ) (dst : Device) (dstfpn : ℕ)
    (cellidx : ℕ) : Caller :=
  let addrsrc : ℤ := srcfpn * pagingPagesz + cellidx
  let addrdst : ℤ := dstfpn * pagingPagesz + cellidx
  let (_, mp, data) := (c.device src).read addrsrc
  let c := c.setDevice src mp
  c.setDevice dst ((c.device dst).write addrdst (data.getD 0)).2

/-- `__swap_cp_page`. -/
def swapCpPage (c : Caller) (src : Device) (srcfpn : ℕ) (dst : Device) (dstfpn : ℕ) : Caller :=
  (List.range pagingPagesz).foldl (fun c i => c.swapCpCell src srcfpn dst dstfpn i) c

/-- The page swap in the loop of `alloc_pages_range`: the victim's page is copied to the swap
frame and its entry set to it. -/
def evictPage (c : Caller) (victimPage swpfpn : ℕ) : Caller :=
  let vicpte := c.mm.pgd victimPage
  let vicfpn := pagingFpn vicpte
  let c := c.swapCpPage .mram vicfpn .activeMswp swpfpn
  c.setPte victimPage (pteSetSwap (c.mm.pgd victimPage) 0 swpfpn)

/-- The failure exit of `alloc_pages_range`: the nodes gathered so far are freed, their frames
are put back nowhere. -/
def allocPagesFail (c : Caller) (frmLst : List ℕ) : ℤ × List ℕ × Caller :=
  if frmLst = [] then (-1, [], c) else (-3000, [], c)

/-- The loop of `alloc_pages_range`, with the frames gathered so far. -/
def allocPagesLoop : ℕ → List ℕ → Caller → ℤ × List ℕ × Caller
  | 0, frmLst, c => (0, frmLst, c)
  | n + 1, frmLst, c =>
    match c.mram.getFreefp with
    | some (fpn, mram) => allocPagesLoop n (fpn :: frmLst) { c with mram := mram }
    | none =>
      match findVictimPage c.mm with
      | none => c.allocPagesFail frmLst
      | some (victimPage, mm) =>
        match c.activeMswp.getFreefp with
        | none => { c with mm := mm }.allocPagesFail frmLst
        | some (swpfpn, mswp) =>
          let c : Caller := { c with mm := mm, activeMswp := mswp }
          -- the new page reuses the frame of the victim
          allocPagesLoop n (pagingFpn (c.mm.pgd victimPage) :: frmLst)
            (c.evictPage victimPage swpfpn)

/-- `alloc_pages_range`: status, frame list and caller. -/
def allocPagesRange (c : Caller) (reqPgnum : ℤ) (frmLst : List ℕ) : ℤ × List ℕ × Caller :=
  allocPagesLoop reqPgnum.toNat frmLst c

/-- The loop of `vmap_page_range` from page `pgn` on.  It dereferences a frame for each page;
every call passes a list that has that many. -/
def vmapPageLoop : ℕ → ℕ → List ℕ → Mm → Mm
  | 0, _, _, mm => mm
  | _ + 1, _, [], mm => mm
  | n + 1, pgn, fpn :: frames, mm =>
    vmapPageLoop n (pgn + 1) frames
      { mm with
        pgd := Function.update mm.pgd pgn (pteSetFpn (mm.pgd pgn) fpn)
        fifoPgn := enlistPgnNode mm.fifoPgn pgn }

/-- `vmap_page_range`: the mapped region and the caller. -/
def vmapPageRange (c : Caller) (addr pgnum : ℤ) (frames : List ℕ) : VmRg × Caller :=
  let pgn := pagingPgn (BitVec.ofInt 32 addr)
  let retRg : VmRg := ⟨ulong addr, ulong (ulong addr + cint (pgnum * pagingPagesz))⟩
  (retRg, { c with mm := vmapPageLoop pgnum.toNat pgn frames c.mm })

/-- `vm_map_ram`; the area bounds `astart` and `aend` are not used by the code. -/
def vmMapRam (c : Caller) (_astart _aend mapstart incpgnum : ℤ) : ℤ × Caller :=
  let (retAlloc, frmLst, c) := c.allocPagesRange incpgnum []
  if retAlloc < 0 ∧ retAlloc ≠ -3000 then (-1, c)
  else if retAlloc = -3000 then (-1, c)
  else (0, (c.vmapPageRange mapstart incpgnum frmLst).2)

end Caller

/-- `init_mm` on a structure that held `mm` before.  The code assigns neither the symbol table
nor the resident list, and it links the first free region to `freerg`, what the fresh area held
as its free list. -/
def initMm (mm : Mm) (freerg : List VmRg) : Mm :=
  let vmStart : ℕ := 0
  let vmEnd := vmStart
  let firstRg := initVmRg vmStart vmEnd
  { mm with
    pgd := fun _ => 0#32
    mmap := [⟨1, vmStart, vmEnd, vmStart, enlistVmRgNode freerg firstRg⟩] }

end Ossim
