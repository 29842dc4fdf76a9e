import Ossim.Os.Machine
import Ossim.Paging.Gathering

/-!
# No frame leaks

A frame leaks if it is not free and no page of an unfinished process records it.  Four things in the
code lose frames: a victim whose frame is decoded otherwise than it was recorded, a growth that
fails after it took some frames, a new page over an entry that records a frame, and the end of a
process, since `cpu_routine` frees the `pcb_t` only and nothing calls `free_pcb_memph`.

In runs in which none of the four happens all frames are accounted for (`MemSys.Accounted`), so none
leaks (`Machine.no_leak`).
-/

namespace Ossim

/-! ## Operations that lose no frame -/

/-- Each page that an operation evicts is clean. -/
def MemOp.EvictsClean (c : Caller) : MemOp → Prop
  | .call k => c.EvictsClean k
  | .getPage pgn => PageInClean c pgn
  | .store _ _ => True

/-- A growth finds no frame, or all it needs for pages whose entries record nothing. -/
def MemOp.GrowsLossless (c : Caller) : MemOp → Prop
  | .call (.alloc _ size) => AllocLossless c size
  | _ => True

/-- The condition under which an operation loses no frame. -/
structure MemOp.Lossless (c : Caller) (o : MemOp) : Prop where
  /-- Pages are evicted with the frames they record. -/
  clean : o.EvictsClean c
  /-- Growths lose nothing. -/
  grows : o.GrowsLossless c
  /-- New pages lie in the page table. -/
  inside : o.MapsInside c

/-- The entry of an absent page records nothing. -/
lemma InTable.clear_of_absent {mm : Mm} (h : InTable mm) {n : ℕ}
    (habsent : pagingPagePresent (mm.pgd n) = false) : ClearPte (mm.pgd n) := by
  have hin : ¬ pteResident (mm.pgd n) = true := by simp [pteResident, habsent]
  have hout : ¬ pteSwapped (mm.pgd n) = true := fun hout =>
    absurd (h.swapped n hout) (by simp [habsent])
  exact ⟨if_neg hin, if_neg hout⟩

/-- An entry that records a frame belongs to a page of the table. -/
lemma InTable.clear_of_le {mm : Mm} (h : InTable mm) {n : ℕ} (hn : pagingMaxPgn ≤ n) :
    ClearPte (mm.pgd n) := by
  refine h.clear_of_absent ?_
  by_contra hpresent
  have hlt := h.present n (by simpa using hpresent)
  omega

/-- A call loses nothing if its growth loses nothing. -/
lemma InTable.lossless {c : Caller} (h : InTable c.mm) {k : MemCall}
    (hgrows : (MemOp.call k).GrowsLossless c) : c.Lossless k := by
  cases k with
  | alloc rgid size => exact hgrows
  | free rgid => trivial
  | read rgid offset | write rgid offset value => exact fun addr _ => h.clear_of_absent

/-! ## All frames are accounted for -/

variable {Pid : Type*} [DecidableEq Pid]

/-- Every frame is recorded by a page of some process or free. -/
structure MemSys.Accounted (s : MemSys Pid) : Prop where
  /-- The frames are where they should be. -/
  kept : s.FramesKept
  /-- RAM frames. -/
  ram : ∀ f < s.mram.numfp, f ∈ stock (s.owner ramFrame) s.mram.freeFpList
  /-- Swap frames. -/
  swap : ∀ f < s.activeMswp.numfp, f ∈ stock (s.owner swapFrame) s.activeMswp.freeFpList
  /-- Each process has a single area. -/
  area : ∀ p, ∃ v, (s.mm p).mmap = [v]
  /-- All pages lie in the page table. -/
  table : ∀ p, InTable (s.mm p)

/-- The state in which `main` and `init_mm` leave the memory, where the resident lists, which
`init_mm` does not assign, name pages of the table. -/
structure MemSys.WellSet (s : MemSys Pid) : Prop where
  /-- The devices. -/
  sized : s.WellSized
  /-- The resident lists. -/
  fifo : ∀ p, ∀ n ∈ (s.mm p).fifoPgn, n < pagingMaxPgn

section
variable {s : MemSys Pid}

lemma accounted_of_initial (h : s.Initial) (hset : s.WellSet) : s.Accounted where
  kept := framesKept_of_initial h hset.sized
  ram f hf := .inl (hset.sized.ramFree.mem_iff.mpr (List.mem_range.mpr hf))
  swap f hf := .inl (hset.sized.swapFree.mem_iff.mpr (List.mem_range.mpr hf))
  area p := by
    obtain ⟨mm, freerg, hp⟩ := h.mm p
    exact ⟨_, by rw [hp, initMm]⟩
  table p := by
    obtain ⟨mm, freerg, hp⟩ := h.mm p
    have hfifo := hset.fifo p
    rw [hp] at hfifo ⊢
    exact inTable_initMm hfifo freerg

/-- An operation that loses no frame only moves frames. -/
lemma MemSys.Accounted.moves (h : s.Accounted) {p : Pid} {o : MemOp}
    (hok : o.Lossless (s.caller p)) :
    FramesApart (s.op p o) ∧ Kept True s p [] (s.caller p) [] (o.run (s.caller p)) := by
  have htable : InTable (s.caller p).mm := h.table p
  have htransit := h.kept.apart.transit p
  have hfit := h.kept.fitting p
  have hclean := hok.clean
  cases o with
  | call k =>
    have hframes := framesOk_of_clean h.kept.apart hfit hclean
    exact ⟨h.kept.apart.call p hframes, .run hfit hclean fun _ => htable.lossless hok.grows⟩
  | getPage pgn =>
    have hpage := pageInOk_of_clean htransit hfit hclean
    exact ⟨(htransit.pgGetpage hpage).framesApart,
      .pgGetpage hfit hclean fun _ => htable.clear_of_absent⟩
  | store addr data =>
    have hfree := (s.caller p).mram.freeFpList_write addr data
    have hstored : Transit s p [] ((MemOp.store addr data).run (s.caller p)) :=
      htransit.congr rfl hfree rfl
    exact ⟨hstored.framesApart, .congr rfl hfree rfl⟩

/-- An operation that loses no frame keeps all frames accounted for. -/
lemma MemSys.Accounted.op (h : s.Accounted) {p : Pid} {o : MemOp}
    (hok : o.Lossless (s.caller p)) : (s.op p o).Accounted := by
  obtain ⟨hapart, hkept⟩ := h.moves hok
  have hgeometry := o.geometry_run (s.caller p)
  have hnumfp : ∀ d, ((o.run (s.caller p)).device d).numfp = ((s.caller p).device d).numfp :=
    fun d => congrArg (fun mode : ℤ × Bool => (mode.1.tdiv (pagingPagesz : ℤ)).toNat)
      (congrFun hgeometry d)
  refine ⟨h.kept.of_kept hapart hkept hgeometry, fun f hf => ?_, fun f hf => ?_,
    MemSys.forall_put (P := fun mm => ∃ v, mm.mmap = [v]) h.area (MemOp.run_area (h.area p) o),
    MemSys.forall_put h.table (MemOp.inTable_run (h.area p) (h.table p) hok.inside)⟩
  · refine hkept.ram.complete trivial ?_
    rw [MemSys.ramStock, MemSys.put_caller]
    exact h.ram f ((hnumfp .mram) ▸ hf)
  · refine hkept.swap.complete trivial ?_
    rw [MemSys.swapStock, MemSys.put_caller]
    exact h.swap f ((hnumfp .activeMswp) ▸ hf)

end

/-! ## Runs -/

namespace Machine

variable {m : ℕ} {cfg : OsConfig} {code : ℕ → ℕ → Inst} {M M' : Machine m}

/-- No frame leaks. -/
structure NoLeak (M : Machine m) : Prop where
  /-- Each RAM frame is free or backs a resident page of an unfinished process. -/
  ram : ∀ f < M.sys.mem.mram.numfp, f ∈ M.sys.mem.mram.freeFpList ∨
    ∃ p ∉ M.os.finished, ∃ n < pagingMaxPgn, ramFrame ((M.sys.mem.mm p).pgd n) = some f
  /-- Each swap frame is free or holds a swapped-out page of an unfinished process. -/
  swap : ∀ f < M.sys.mem.activeMswp.numfp, f ∈ M.sys.mem.activeMswp.freeFpList ∨
    ∃ p ∉ M.os.finished, ∃ n < pagingMaxPgn, swapFrame ((M.sys.mem.mm p).pgd n) = some f

/-- The condition under which a step loses no frame: an instruction loses none, and a process
records none when it is freed. -/
structure LosesNothing (cfg : OsConfig) (code : ℕ → ℕ → Inst) (M : Machine m)
    (a : OsAct m × Byte) : Prop where
  /-- The operations of an instruction. -/
  executes : ∀ p ins, M.os.executes a.1 = some (p, ins) →
    LTS.Along (MemSys.op p) (fun s o => o.Lossless (s.caller p))
      ((M.sys.pcb p).memOps (code p ins)) M.sys.mem
  /-- The page table of a process that is freed. -/
  frees : ∀ p, M.os.frees cfg a.1 = some p →
    ∀ n < pagingMaxPgn, ClearPte ((M.sys.mem.mm p).pgd n)

/-- All frames are accounted for, none by a finished process. -/
structure Conserved (M : Machine m) : Prop where
  /-- Each process is in one place. -/
  owned : M.os.Owned
  /-- All frames are accounted for. -/
  accounted : M.sys.mem.Accounted
  /-- Finished processes record nothing. -/
  finished : ∀ p ∈ M.os.finished, ∀ n, ClearPte ((M.sys.mem.mm p).pgd n)

lemma conserved_of_initial (hos : M.os.Initial) (hmem : M.sys.mem.Initial)
    (hset : M.sys.mem.WellSet) : M.Conserved where
  owned := OsState.owned_of_initial hos
  accounted := accounted_of_initial hmem hset
  finished p hp := by
    rw [hos.finished] at hp
    exact absurd hp (Multiset.notMem_zero p)

/-- Every step that meets the condition keeps all frames accounted for. -/
lemma Conserved.step (h : M.Conserved) {a : OsAct m × Byte}
    (ht : (machineSystem cfg code m).step M a M') (hok : M.LosesNothing cfg code a) :
    M'.Conserved := by
  obtain ⟨hos, hsys⟩ := ht
  have howned := h.owned.step hos
  rcases hos.executes_or_frees with ⟨p, ins, hexec, ⟨c, hholds⟩, hfin⟩ | ⟨hexec, hfin⟩
  · -- the process that executes an instruction is unfinished
    have hsys : M'.sys = M.sys.run p (code p ins) a.2 := by
      rw [hsys, memoryAfter, hexec]
    refine ⟨howned, ?_, fun q hq n => ?_⟩
    · rw [hsys, TlbSys.mem_run]
      exact (hok.executes p ins hexec).foldl (fun s o hs ho => hs.op ho) h.accounted
    · rw [hfin] at hq
      have hne : q ≠ p := by
        rintro rfl
        exact OsState.not_finished_of_holds h.owned.nodup hholds hq
      rw [hsys, TlbSys.run, MemSys.mm_put_of_ne _ hne]
      exact h.finished q hq n
  · have hsys : M'.sys = M.sys := by
      rw [hsys, memoryAfter, hexec]
    refine ⟨howned, hsys ▸ h.accounted, fun q hq n => ?_⟩
    rw [hsys]
    rcases hfin with hfin | ⟨p, hfrees, hfin⟩
    · exact h.finished q (hfin ▸ hq) n
    · rw [hfin, Multiset.mem_cons] at hq
      rcases hq with rfl | hq
      · rcases Nat.lt_or_ge n pagingMaxPgn with hn | hn
        · exact hok.frees q hfrees n hn
        · exact (h.accounted.table q).clear_of_le hn
      · exact h.finished q hq n

/-- A frame that is accounted for does not leak. -/
lemma Conserved.noLeak (h : M.Conserved) : M.NoLeak := by
  -- whoever records a frame is unfinished, and its page has an entry in the page table
  have hpage : ∀ p n, ¬ ClearPte ((M.sys.mem.mm p).pgd n) →
      p ∉ M.os.finished ∧ n < pagingMaxPgn := by
    intro p n hrecords
    refine ⟨fun hp => hrecords (h.finished p hp n), ?_⟩
    by_contra hn
    exact hrecords ((h.accounted.table p).clear_of_le (not_lt.mp hn))
  refine ⟨fun f hf => (h.accounted.ram f hf).imp_right ?_,
    fun f hf => (h.accounted.swap f hf).imp_right ?_⟩
  · rintro ⟨⟨p, n⟩, hheld⟩
    obtain ⟨hp, hn⟩ := hpage p n fun hclear => by cases hclear.1.symm.trans hheld
    exact ⟨p, hp, n, hn, hheld⟩
  · rintro ⟨⟨p, n⟩, hheld⟩
    obtain ⟨hp, hn⟩ := hpage p n fun hclear => by cases hclear.2.symm.trans hheld
    exact ⟨p, hp, n, hn, hheld⟩

/-- No frame leaks, in every run from the state that `main` sets up whose steps lose no frame. -/
theorem no_leak (hM : (((machineSystem cfg code m).startIn fun M => M.sys.mem.WellSet).restrict
    (LosesNothing cfg code)).Reachable M) : M.NoLeak := by
  have hconserved : M.Conserved := by
    refine hM.invariant_restrict (I := Conserved) (fun M h => ?_) (fun M a M' h ht hok => ?_)
    · obtain ⟨⟨hos, hmem, -⟩, hset⟩ := h
      exact conserved_of_initial hos hmem hset
    · exact h.step ht hok
  exact hconserved.noLeak

/-! ## Processes that allocate pages and finish -/

/-- One RAM frame and one swap frame. -/
def oneFrame : TlbSys ℕ := .fresh (fun p => BitVec.ofNat 32 (p + 1)) 256 256

/-- Every instruction allocates a page. -/
def allocCode (_ _ : ℕ) : Inst := .alloc 256 0

/-- The memory after process 0 allocated a page. -/
def allocated : TlbSys ℕ := oneFrame.run 0 (.alloc 256 0) 0

/-- The runs that keep the slot barrier and lose no frame. -/
def losslessSystem (cfg : OsConfig) (code : ℕ → ℕ → Inst) (m : ℕ) :
    LTS (Machine m) (OsAct m × Byte) :=
  ((machineSystem cfg code m).startIn fun M => M.sys.mem.WellSet).restrict
    fun M a => M.os.BarrierOk a.1 ∧ M.LosesNothing cfg code a

lemma reachable_of_lossless (hM : (losslessSystem cfg code m).Reachable M) :
    (((machineSystem cfg code m).startIn fun M => M.sys.mem.WellSet).restrict
      (LosesNothing cfg code)).Reachable M := by
  refine LTS.Reachable.mono (fun M h => ?_) (fun M a M' h => ?_) hM
  · exact h
  · exact ⟨h.1, h.2.2⟩

lemma wellSet_oneFrame : oneFrame.mem.WellSet := by
  refine ⟨⟨?_, ?_, by decide, by decide, rfl⟩, fun p n hn => absurd hn List.not_mem_nil⟩
  · unfold Memphy.AllFree
    decide
  · unfold Memphy.AllFree
    decide

lemma lossless_alloc_oneFrame (p : ℕ) :
    LTS.Along (MemSys.op p) (fun s o => o.Lossless (s.caller p))
      ((oneFrame.pcb p).memOps (.alloc 256 0)) oneFrame.mem := by
  -- all address spaces are the same
  have hcaller : oneFrame.mem.caller p = oneFrame.mem.caller 0 := rfl
  refine ⟨?_, trivial⟩
  show MemOp.Lossless (oneFrame.mem.caller p) _
  rw [hcaller]
  refine ⟨fun c' hc' => ?_, fun c' hc' => ?_, fun c' hc' => ?_⟩ <;>
    obtain rfl : _ = c' := congrArg Prod.snd hc'
  · exact trivial
  · refine .inr ⟨by decide, fun m _ _ => ?_⟩
    show ClearPte 0#32
    exact ⟨by decide, by decide⟩
  · exact fun _ => by decide

/-- A step that neither executes an instruction nor frees a process. -/
lemma quiet_step {os os' : OsState m} {sys : TlbSys ℕ} {a : OsAct m}
    (hs : (losslessSystem cfg code m).Reachable ⟨os, sys⟩) (ht : OsState.Step cfg os a os')
    (hbarrier : os.BarrierOk a) (hexec : os.executes a = none) (hfrees : os.frees cfg a = none) :
    (losslessSystem cfg code m).Reachable ⟨os', sys⟩ := by
  refine hs.step (a := (a, 0)) ⟨⟨ht, ?_⟩, hbarrier, fun p ins h => ?_, fun p h => ?_⟩
  · rw [memoryAfter, hexec]
  · cases hexec.symm.trans h
  · cases hfrees.symm.trans h

/-- A step that executes an instruction. -/
lemma exec_step {os os' : OsState m} {sys : TlbSys ℕ} {c : Fin m} (p ins : ℕ)
    (hs : (losslessSystem cfg code m).Reachable ⟨os, sys⟩) (ht : OsState.Step cfg os (.cpu c) os')
    (hexec : os.executes (.cpu c) = some (p, ins)) (hfrees : os.frees cfg (.cpu c) = none)
    (hok : LTS.Along (MemSys.op p) (fun s o => o.Lossless (s.caller p))
      ((sys.pcb p).memOps (code p ins)) sys.mem) (junk : Byte) :
    (losslessSystem cfg code m).Reachable ⟨os', sys.run p (code p ins) junk⟩ := by
  refine hs.step (a := (.cpu c, junk)) ⟨⟨ht, ?_⟩, trivial, fun q i h => ?_, fun q h => ?_⟩
  · rw [memoryAfter, hexec]
  · obtain ⟨rfl, rfl⟩ := Prod.mk.inj (Option.some.inj (hexec.symm.trans h))
    exact hok
  · cases hfrees.symm.trans h

/-- A step that frees a finished process, whose page table records nothing. -/
lemma free_step {os os' : OsState m} {sys : TlbSys ℕ} {c : Fin m} (p : ℕ)
    (hs : (losslessSystem cfg code m).Reachable ⟨os, sys⟩) (ht : OsState.Step cfg os (.cpu c) os')
    (hexec : os.executes (.cpu c) = none) (hfrees : os.frees cfg (.cpu c) = some p)
    (hclear : ∀ n, ClearPte ((sys.mem.mm p).pgd n)) :
    (losslessSystem cfg code m).Reachable ⟨os', sys⟩ := by
  refine hs.step (a := (.cpu c, 0)) ⟨⟨ht, ?_⟩, trivial, fun q i h => ?_, fun q h n _ => ?_⟩
  · rw [memoryAfter, hexec]
  · cases hexec.symm.trans h
  · obtain rfl := Option.some.inj (hfrees.symm.trans h)
    exact hclear n

/-- The process is loaded and executes its only instruction. -/
lemma exists_allocated : ∃ os : OsState 1,
    (losslessSystem .single allocCode 1).Reachable ⟨os, allocated⟩ ∧ (os.cpu 0).loc = .head ∧
      (os.cpu 0).proc = some 0 ∧ os.pc 0 = 1 := by
  have h₀ : (losslessSystem .single allocCode 1).Reachable ⟨.fresh 1, oneFrame⟩ :=
    .start ⟨⟨OsState.initial_fresh 1, start_fresh _ 256 256⟩, wellSet_oneFrame⟩
  -- the loader adds the process
  have h₁ := quiet_step h₀ (.load rfl (by decide)) trivial rfl rfl
  have h₂ := quiet_step h₁ (.due rfl (by decide)) trivial rfl rfl
  have h₃ := quiet_step h₂ (.add rfl) trivial rfl rfl
  have h₄ := quiet_step h₃ (.ldCall true rfl) trivial rfl rfl
  -- the CPU takes it and executes the instruction
  have h₅ := quiet_step h₄ (.noProc 0 rfl rfl) trivial rfl rfl
  have h₆ := quiet_step h₅ (.getFirst 0 rfl) trivial rfl rfl
  have h₇ := quiet_step h₆ (.dispatch 0 0 (by decide +kernel) (by decide +kernel)) trivial
    (by decide +kernel) (by decide +kernel)
  have h₈ := quiet_step h₇ (.fetch 0 0 rfl (by decide +kernel) (by decide +kernel)) trivial rfl rfl
  have h₉ := exec_step 0 0 h₈ (.exec 0 0 0 rfl (by decide +kernel)) (by decide +kernel) rfl
    (lossless_alloc_oneFrame 0) 0
  -- the next slot
  have h₁₀ := quiet_step h₉ (.call 0 rfl) trivial rfl rfl
  have h₁₁ := quiet_step h₁₀ (.leave 0 rfl) ⟨by decide, fun _ => by decide⟩ rfl rfl
  exact ⟨_, h₁₁, rfl, by decide +kernel, by decide +kernel⟩

/-- A process of one instruction, followed by one of two. -/
def twoProcesses : OsConfig :=
  { OsConfig.single with numProcesses := 2, codeSize := fun p => if p = 0 then 1 else 2 }

/-- Process 0 only calculates, process 1 allocates a page with each instruction. -/
def calcThenAlloc (p ins : ℕ) : Inst := if p = 0 then .calc else .alloc 256 (BitVec.ofNat 32 ins)

/-- The page of the first allocation is evicted for that of the second one. -/
lemma lossless_evict_oneFrame : LTS.Along (MemSys.op 1) (fun s o => o.Lossless (s.caller 1))
    (((oneFrame.run 1 (.alloc 256 0) 0).pcb 1).memOps (.alloc 256 1))
      (oneFrame.run 1 (.alloc 256 0) 0).mem := by
  refine ⟨⟨fun c' hc' => ?_, fun c' hc' => ?_, fun c' hc' => ?_⟩, trivial⟩ <;>
    obtain rfl : _ = c' := congrArg Prod.snd hc'
  · -- the victim is resident, and PAGING_FPN decodes its frame 0
    exact ⟨by decide +kernel, trivial⟩
  · refine .inr ⟨by decide +kernel, fun m hm hlt => ?_⟩
    have hfirst : m = 1 := by
      have hpage : Caller.firstGrownPage
          (((oneFrame.run 1 (.alloc 256 0) 0).mem.mm 1).curVma 0) = 1 := by decide +kernel
      have hone : Caller.grownPages (pagingPageAlignsz 256) = 1 := by decide +kernel
      exact Nat.le_antisymm (Nat.lt_succ_iff.mp (hlt.trans_eq (congrArg₂ _ hpage hone)))
        (hpage.symm.trans_le hm)
    subst hfirst
    exact ⟨by decide +kernel, by decide +kernel⟩
  · exact fun _ => by decide +kernel

/-- A process has finished, the next one has evicted its first page for the second one, and no frame
has leaked. -/
theorem no_leak_eviction : ∃ M : Machine 1, M.os.finished = {0} ∧
    M.sys.mem.activeMswp.freeFpList = [] ∧ M.NoLeak := by
  have h₀ : (losslessSystem twoProcesses calcThenAlloc 1).Reachable ⟨.fresh 1, oneFrame⟩ :=
    .start ⟨⟨OsState.initial_fresh 1, start_fresh _ 256 256⟩, wellSet_oneFrame⟩
  -- the loader adds process 0, and the CPU executes its only instruction
  have h₁ := quiet_step h₀ (.load rfl (by decide)) trivial rfl rfl
  have h₂ := quiet_step h₁ (.due rfl (by decide)) trivial rfl rfl
  have h₃ := quiet_step h₂ (.add rfl) trivial rfl rfl
  have h₄ := quiet_step h₃ (.ldCall true rfl) trivial rfl rfl
  have h₅ := quiet_step h₄ (.noProc 0 rfl rfl) trivial rfl rfl
  have h₆ := quiet_step h₅ (.getFirst 0 rfl) trivial rfl rfl
  have h₇ := quiet_step h₆ (.dispatch 0 0 (by decide +kernel) (by decide +kernel)) trivial
    (by decide +kernel) (by decide +kernel)
  have h₈ := quiet_step h₇ (.fetch 0 0 rfl (by decide +kernel) (by decide +kernel)) trivial rfl rfl
  have h₉ := exec_step 0 0 h₈ (.exec 0 0 0 rfl (by decide +kernel)) (by decide +kernel) rfl
    trivial 0
  have h₁₀ := quiet_step h₉ (.call 0 rfl) trivial rfl rfl
  -- the loader adds process 1
  have h₁₁ := quiet_step h₁₀ (.ldLeave true rfl) ⟨by decide, fun _ => by decide⟩ rfl rfl
  have h₁₂ := quiet_step h₁₁ (.load rfl (by decide)) trivial rfl rfl
  have h₁₃ := quiet_step h₁₂ (.due rfl (by decide)) trivial rfl rfl
  have h₁₄ := quiet_step h₁₃ (.add rfl) trivial rfl rfl
  have h₁₅ := quiet_step h₁₄ (.ldCall true rfl) trivial rfl rfl
  have h₁₆ := quiet_step h₁₅ (.leave 0 rfl) ⟨by decide, fun _ => by decide⟩ rfl rfl
  -- process 0 has finished and is freed, and the CPU takes process 1
  have h₁₇ := free_step 0 h₁₆ (.free 0 0 rfl (by decide +kernel) (by decide +kernel))
    (by decide +kernel) (by decide +kernel) fun _ => show ClearPte 0#32 from ⟨by decide, by decide⟩
  have h₁₈ := quiet_step h₁₇ (.getFinished 0 rfl) trivial rfl rfl
  have h₁₉ := quiet_step h₁₈ (.dispatch 0 1 (by decide +kernel) (by decide +kernel)) trivial
    (by decide +kernel) (by decide +kernel)
  have h₂₀ := quiet_step h₁₉ (.fetch 0 1 rfl (by decide +kernel) (by decide +kernel)) trivial
    rfl rfl
  have h₂₁ := exec_step 1 0 h₂₀ (.exec 0 1 0 rfl (by decide +kernel)) (by decide +kernel) rfl
    (lossless_alloc_oneFrame 1) 0
  have h₂₂ := quiet_step h₂₁ (.call 0 rfl) trivial rfl rfl
  have h₂₃ := quiet_step h₂₂ (.leave 0 rfl) ⟨by decide, fun _ => by decide⟩ rfl rfl
  -- the second instruction of its quantum
  have h₂₄ := quiet_step h₂₃ (.keep 0 1 rfl (by decide +kernel) (by decide +kernel)
    (by decide +kernel)) trivial (by decide +kernel) (by decide +kernel)
  have h₂₅ := quiet_step h₂₄ (.dispatch 0 1 (by decide +kernel) (by decide +kernel)) trivial
    (by decide +kernel) (by decide +kernel)
  have h₂₆ := quiet_step h₂₅ (.fetch 0 1 rfl (by decide +kernel) (by decide +kernel)) trivial
    rfl rfl
  have h₂₇ := exec_step 1 1 h₂₆ (.exec 0 1 1 rfl (by decide +kernel)) (by decide +kernel) rfl
    lossless_evict_oneFrame 0
  exact ⟨_, rfl, by decide +kernel, no_leak (reachable_of_lossless h₂₇)⟩

/-- When the process has finished and is freed, the frame of its page has leaked. -/
theorem finished_process_leaks : ¬ ∀ (cfg : OsConfig) (code : ℕ → ℕ → Inst) (m : ℕ)
    (M : Machine m),
    ((machineSystem cfg code m).restrict fun M a => M.os.BarrierOk a.1).Reachable M → M.NoLeak := by
  intro h
  obtain ⟨os, hs, hloc, hproc, hpc⟩ := exists_allocated
  have hrun : ((machineSystem .single allocCode 1).restrict
      fun M a => M.os.BarrierOk a.1).Reachable ⟨os, allocated⟩ := by
    refine LTS.Reachable.mono (fun M hM => ?_) (fun M a M' hM => ?_) hs
    · exact hM.1
    · exact ⟨hM.1, hM.2.1⟩
  obtain ⟨os', hfree, hfin⟩ : ∃ os', OsState.Step .single os (.cpu 0) os' ∧
      os'.finished = 0 ::ₘ os.finished := ⟨_, .free 0 0 hloc hproc hpc, rfl⟩
  have hmem : allocated = memoryAfter allocCode ⟨os, allocated⟩ (.cpu 0, 0) := by
    simp [memoryAfter, OsState.executes, hloc]
  have hfreed : ((machineSystem .single allocCode 1).restrict
      fun M a => M.os.BarrierOk a.1).Reachable ⟨os', allocated⟩ :=
    hrun.step (a := (.cpu 0, 0)) ⟨⟨hfree, hmem⟩, trivial⟩
  have hframe : 0 < allocated.mem.mram.numfp := by decide +kernel
  have hused : 0 ∉ allocated.mem.mram.freeFpList := by decide +kernel
  rcases (h _ _ _ _ hfreed).ram 0 hframe with hlisted | ⟨p, hp, n, -, hrecords⟩
  · exact hused hlisted
  · -- no other process records a frame
    have hne : p ≠ 0 := by
      rintro rfl
      exact hp (hfin ▸ Multiset.mem_cons_self 0 _)
    have hnone : ramFrame ((allocated.mem.mm p).pgd n) = none := by
      rw [allocated, TlbSys.run, MemSys.mm_put_of_ne _ hne]
      exact (by decide : ramFrame 0#32 = none)
    cases hnone.symm.trans hrecords

end Machine

end Ossim
