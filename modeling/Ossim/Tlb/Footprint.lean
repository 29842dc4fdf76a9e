import Ossim.Paging.Footprint
import Ossim.Tlb.Bounds
import Ossim.Tlb.Lines

/-!
# What instructions write

In either build, whatever the instructions, their operands, the registers and the TLB are, RAM is
written in its first 1024 bytes only, however large it is, and the TLB in the bytes of its lines.
And the swap device is write-once: as no swap frame is ever put back, a frame that was taken keeps
its bytes for ever (`storage_of_path`).
-/

namespace Ossim

/-! ## One instruction -/

namespace Pcb

/-- The operations of an instruction. -/
lemma writes_memOps {p : Pcb} {ins : Inst} {o : MemOp} (ho : o ∈ p.memOps ins) (c : Caller) :
    c.Writes (o.run c) := by
  have hcall : ∀ k, c.Writes ((MemOp.call k).run c) := fun k => k.writes_run c
  have hgetPage : ∀ pgn, c.Writes ((MemOp.getPage pgn).run c) := fun pgn => c.writes_pgGetpage pgn
  cases ins with
  | «calc» => cases ho
  | alloc size regIndex =>
    obtain rfl := List.mem_singleton.mp ho
    exact hcall _
  | free regIndex =>
    simp only [memOps] at ho
    split at ho
    · cases ho
    · split at ho
      · cases ho
      · obtain rfl := List.mem_singleton.mp ho
        exact hcall _
  | read source offset destination =>
    rw [memOps] at ho
    rcases mem_accessOps ho with rfl | ⟨found, -, ho⟩
    · exact hgetPage _
    · split at ho
      · cases ho
      · obtain rfl := List.mem_singleton.mp ho
        exact hcall _
  | write data destination offset =>
    rw [memOps] at ho
    rcases mem_accessOps ho with rfl | ⟨⟨frmnum, caller⟩, hfound, ho⟩
    · exact hgetPage _
    · have hlt := located_lt hfound
      split at ho
      · next hge =>
        obtain rfl := List.mem_singleton.mp ho
        obtain ⟨fpn, rfl⟩ := Int.eq_ofNat_of_zero_le hge
        exact c.writes_write (Int.ofNat_lt.mp hlt) (pagingOffst_lt _) _
      · obtain rfl := List.mem_singleton.mp ho
        exact hcall _

/-- An instruction. -/
lemma writes_run (b : Build) (junk : Byte) (ins : Inst) (p : Pcb) :
    p.caller.Writes (b.backEnd.run junk ins p).2.caller := by
  cases b with
  | tlb =>
    show p.caller.Writes (BackEnd.tlb.run junk ins p).2.caller
    rw [caller_run]
    exact .foldl (fun o ho c => writes_memOps ho c) p.caller
  | paging =>
    cases ins with
    | «calc» => exact .refl _
    | alloc size regIndex => exact (MemCall.alloc regIndex.toInt size.toInt).writes_run p.caller
    | free regIndex => exact (MemCall.free regIndex.toInt).writes_run p.caller
    | read source offset destination =>
      exact (MemCall.read source.toInt offset.toInt).writes_run p.caller
    | write data destination offset =>
      exact (MemCall.write destination.toInt offset.toInt (data.setWidth 8)).writes_run p.caller

/-! ## The TLB -/

/-- The bytes of the lines: they start in the first sixth of the TLB. -/
def lineArea (tlb : Memphy) : Set ℤ :=
  {a | cacheLineSize ≤ tlb.maxsz → 0 ≤ a ∧ a < tlb.maxsz.tdiv cacheLineSize + 5}

/-- From the first process to the second, only such bytes of the TLB were written. -/
abbrev WritesTlb (p p' : Pcb) : Prop :=
  WritesInside (fun p => lineArea p.tlb) (fun p => p.tlb.storage) p p'

/-- The TLB was not written. -/
lemma writesTlb_of_eq {p p' : Pcb} (h : p'.tlb = p.tlb) : p.WritesTlb p' :=
  .of_eq (by rw [h]) (by rw [h])

/-- A line is written. -/
lemma writesTlb_tlbCacheWrite (p : Pcb) (pgnum : ℕ) (pte : Word) :
    p.WritesTlb (p.setTlb (tlbCacheWrite p.tlb p.pid pgnum pte).2) where
  shrinks := by
    have hsize : (tlbCacheWrite p.tlb p.pid pgnum pte).2.maxsz = p.tlb.maxsz := by
      unfold tlbCacheWrite
      split <;> rfl
    show lineArea (tlbCacheWrite p.tlb p.pid pgnum pte).2 ⊆ lineArea p.tlb
    unfold lineArea
    rw [hsize]
  others a ha := by
    have hout : ¬ (0 ≤ a - tlbnb p.tlb pgnum ∧ a - tlbnb p.tlb pgnum < 6) := by
      rintro ⟨hlo, hhi⟩
      refine ha fun hsize => ?_
      have hlines : 0 < p.tlb.maxsz.tdiv cacheLineSize := by
        unfold cacheLineSize at hsize ⊢
        rw [Int.tdiv_eq_ediv_of_nonneg (by omega)]
        omega
      have hnonneg : 0 ≤ tlbnb p.tlb pgnum := Int.tmod_nonneg _ (Int.natCast_nonneg pgnum)
      have hlt : tlbnb p.tlb pgnum < p.tlb.maxsz.tdiv cacheLineSize := Int.tmod_lt_of_pos _ hlines
      omega
    exact (storage_tlbCacheWrite p.tlb p.pid pgnum pte a).trans (if_neg hout)

lemma writesTlb_tlballocPage (p : Pcb) (pgnum : ℕ) : p.WritesTlb (p.tlballocPage pgnum) := by
  unfold tlballocPage
  dsimp only
  split
  · split
    · exact p.writesTlb_tlbCacheWrite pgnum _
    · exact .refl p
  · exact .refl p

lemma writesTlb_tlbfreePage (p : Pcb) (pgnum : ℕ) : p.WritesTlb (p.tlbfreePage pgnum) := by
  unfold tlbfreePage
  split
  · exact p.writesTlb_tlbCacheWrite pgnum _
  · exact .refl p

/-- An instruction. -/
lemma writesTlb_run (b : Build) (junk : Byte) (ins : Inst) (p : Pcb) :
    p.WritesTlb (b.backEnd.run junk ins p).2 := by
  cases b with
  | paging => cases ins <;> exact writesTlb_of_eq rfl
  | tlb =>
    cases ins with
    | «calc» => exact .refl p
    | alloc size regIndex =>
      show p.WritesTlb (p.tlballoc size regIndex).2
      unfold tlballoc
      dsimp only
      split
      · exact writesTlb_of_eq rfl
      · have hallocated : p.WritesTlb
            { p with caller := (p.caller.alloc 0 regIndex.toInt size.toInt).2.2 } :=
          writesTlb_of_eq rfl
        exact hallocated.trans (.foldl (fun pgnum _ p => writesTlb_tlballocPage p pgnum) _)
    | free regIndex =>
      show p.WritesTlb (p.tlbfreeData regIndex).2
      unfold tlbfreeData
      dsimp only
      split
      · exact .refl p
      · split
        · exact .refl p
        · have hfreed : p.WritesTlb { p with caller := (p.caller.free 0 regIndex.toInt).2 } :=
            writesTlb_of_eq rfl
          exact hfreed.trans (.foldl (fun pgnum _ p => writesTlb_tlbfreePage p pgnum) _)
    | read source offset destination =>
      show p.WritesTlb (p.tlbread junk source offset destination).2
      rw [tlbread_located]
      rcases p.located source offset with _ | ⟨frmnum, caller⟩
      · exact writesTlb_of_eq rfl
      · dsimp only
        unfold tlbreadFrom
        split
        · exact writesTlb_of_eq rfl
        · have hread : p.WritesTlb
              { p with caller := (caller.read 0 source.toInt offset.toInt).2.2 } :=
            writesTlb_of_eq rfl
          exact hread.trans ((writesTlb_tlbCacheWrite _ _ _).trans (writesTlb_of_eq rfl))
    | write data destination offset =>
      show p.WritesTlb (p.tlbwrite (data.setWidth 8) destination offset).2
      rw [tlbwrite_located]
      rcases p.located destination offset with _ | ⟨frmnum, caller⟩
      · exact writesTlb_of_eq rfl
      · dsimp only
        unfold tlbwriteTo
        split
        · exact writesTlb_of_eq rfl
        · have hwritten : p.WritesTlb
              { p with
                caller :=
                  (caller.write 0 destination.toInt offset.toInt (data.setWidth 8)).2 } :=
            writesTlb_of_eq rfl
          exact hwritten.trans (writesTlb_tlbCacheWrite _ _ _)

end Pcb

/-! ## All processes -/

namespace MemSys

variable {Pid : Type*}

/-- The bytes of both devices. -/
def bytes (s : MemSys Pid) : Device × ℤ → Byte
  | (.mram, addr) => s.mram.storage addr
  | (.activeMswp, addr) => s.activeMswp.storage addr

/-- The cells that may still be written. -/
def writable (s : MemSys Pid) : Set (Device × ℤ) := Caller.cellsOf s.activeMswp.freeFpList

lemma bytes_caller (s : MemSys Pid) (p : Pid) : (s.caller p).bytes = s.bytes := by
  funext ⟨d, addr⟩
  cases d <;> rfl

/-- Storing a caller stores its devices. -/
lemma bytes_put [DecidableEq Pid] (s : MemSys Pid) (p : Pid) (c : Caller) :
    (s.put p c).bytes = c.bytes := by
  funext ⟨d, addr⟩
  cases d <;> rfl

end MemSys

namespace TlbSys

variable {Pid : Type*} [DecidableEq Pid]

/-- The state after a process executed an instruction, in either build. -/
def exec (b : Build) (s : TlbSys Pid) (p : Pid) (ins : Inst) (junk : Byte) : TlbSys Pid :=
  let proc := (b.backEnd.run junk ins (s.pcb p)).2
  ⟨s.pid, Function.update s.regs p proc.regs, s.mem.put p proc.caller, proc.tlb⟩

/-- With `CPU_TLB` it is the step of the system of all processes. -/
lemma exec_tlb (s : TlbSys Pid) (p : Pid) (ins : Inst) (junk : Byte) :
    s.exec .tlb p ins junk = s.run p ins junk := rfl

/-- An instruction of a process, on the devices. -/
lemma writes_exec (b : Build) (s : TlbSys Pid) (p : Pid) (ins : Inst) (junk : Byte) :
    WritesInside (fun s => s.mem.writable) (fun s => s.mem.bytes) s (s.exec b p ins junk) := by
  have hrun := Pcb.writes_run b junk ins (s.pcb p)
  refine ⟨hrun.shrinks, fun cell hcell => ?_⟩
  have hkept := hrun.others hcell
  show (s.mem.put p _).bytes cell = s.mem.bytes cell
  rw [MemSys.bytes_put, ← s.mem.bytes_caller p]
  exact hkept

/-- An instruction of a process, on the TLB. -/
lemma writesTlb_exec (b : Build) (s : TlbSys Pid) (p : Pid) (ins : Inst) (junk : Byte) :
    WritesInside (fun s => Pcb.lineArea s.tlb) (fun s => s.tlb.storage) s
      (s.exec b p ins junk) := by
  have hrun := Pcb.writesTlb_run b junk ins (s.pcb p)
  exact ⟨hrun.shrinks, hrun.others⟩

end TlbSys

/-- The instructions of all processes in any order, from any state, in either build. -/
def buildSystem (b : Build) (Pid : Type*) [DecidableEq Pid] :
    LTS (TlbSys Pid) (Pid × Inst × Byte) where
  start _ := True
  step s a s' := s' = s.exec b a.1 a.2.1 a.2.2

variable {Pid : Type*} [DecidableEq Pid] {b : Build} {s s' : TlbSys Pid}

/-- In every run of instructions, of any processes with any operands and in either build, no byte of
RAM behind the first 1024 changes, the free frames of swap only get fewer, a swap frame that is not
free keeps its bytes, and of the TLB only the bytes of the lines are written. -/
theorem storage_of_path {as : List (Pid × Inst × Byte)}
    (hp : (buildSystem b Pid).Path s as s') :
    (∀ addr : ℤ, addr < 0 ∨ 4 * pagingPagesz ≤ addr →
        s'.mem.mram.storage addr = s.mem.mram.storage addr) ∧
      s'.mem.activeMswp.freeFpList ⊆ s.mem.activeMswp.freeFpList ∧
      (∀ fpn ∉ s.mem.activeMswp.freeFpList, ∀ i < pagingPagesz,
        s'.mem.activeMswp.storage (Caller.phyaddr fpn i) =
          s.mem.activeMswp.storage (Caller.phyaddr fpn i)) ∧
      (cacheLineSize ≤ s.tlb.maxsz →
        ∀ addr, addr < 0 ∨ s.tlb.maxsz.tdiv cacheLineSize + 5 ≤ addr →
          s'.tlb.storage addr = s.tlb.storage addr) := by
  have hwrites : WritesInside (fun s : TlbSys Pid => s.mem.writable) (fun s => s.mem.bytes)
      s s' := by
    refine hp.writesInside ?_
    rintro s ⟨p, ins, junk⟩ s' rfl
    exact s.writes_exec b p ins junk
  have hlines : WritesInside (fun s : TlbSys Pid => Pcb.lineArea s.tlb) (fun s => s.tlb.storage)
      s s' := by
    refine hp.writesInside ?_
    rintro s ⟨p, ins, junk⟩ s' rfl
    exact s.writesTlb_exec b p ins junk
  refine ⟨fun addr haddr => ?_, fun fpn hfpn => ?_, fun fpn hfpn i hi => ?_,
    fun hsize addr haddr => ?_⟩
  · exact hwrites.others (Caller.mram_notMem_cellsOf haddr)
  · have hfirst : 0 < pagingPagesz := by decide
    have hfree := hwrites.shrinks ((Caller.mem_cellsOf_mswp hfirst).mpr hfpn)
    exact (Caller.mem_cellsOf_mswp hfirst).mp hfree
  · exact hwrites.others fun hcell => hfpn ((Caller.mem_cellsOf_mswp hi).mp hcell)
  · refine hlines.others fun hline => ?_
    have hline := hline hsize
    omega

/-- A process after two allocations on a single frame of RAM: its first page was swapped out. -/
def swappedOut : TlbSys Unit :=
  ((TlbSys.fresh (fun _ => 1) 256 1024).exec .tlb () (.alloc 256 0) 0).exec .tlb ()
    (.alloc 256 1) 0

/-- The swap frame with the page is not written by the instructions that follow. -/
theorem storage_of_path_swappedOut :
    ((swappedOut.exec .tlb () (.write 7 1 0) 0).exec .tlb ()
      (.alloc 256 2) 0).mem.activeMswp.storage (Caller.phyaddr 0 5) =
        swappedOut.mem.activeMswp.storage (Caller.phyaddr 0 5) := by
  have htaken : 0 ∉ swappedOut.mem.activeMswp.freeFpList := by decide +kernel
  have hp : (buildSystem .tlb Unit).Path swappedOut
      [((), .write 7 1 0, 0), ((), .alloc 256 2, 0)]
      ((swappedOut.exec .tlb () (.write 7 1 0) 0).exec .tlb () (.alloc 256 2) 0) :=
    .cons rfl (.cons rfl (.nil _))
  exact (storage_of_path hp).2.2.1 0 htaken 5 (by decide)

end Ossim
