import Ossim.Paging.Cells
import Ossim.Tlb.Bounds
import Ossim.Tlb.Lines

/-!
# The TLB on small RAM

`tlbwrite` takes the status of a lookup for the frame, so on a hit it writes to frame 0, at the
offset of the address in the register; otherwise `__write` goes to the address of the region.  With
at most 64 KB of RAM all pages have frame 0 anyway.  So the TLB is coherent there, whatever it
holds, if the register and the region have the same offset in their pages: the READ and WRITE
instructions of all processes, hits and misses, act on one page of 256 bytes
(`instructions_one_page`).
-/

namespace Ossim

variable {Pid : Type*} [DecidableEq Pid]

/-! ## The instructions and what they show -/

namespace TlbSys

/-- The access through a region goes to this address, whose page is resident.  Where the lookup
makes the page of the register's address be fetched, that page is resident too. -/
structure Reaches (s : TlbSys Pid) (p : Pid) (i offset addr : Word) : Prop where
  /-- The address. -/
  target : (s.mem.mm p).target i.toInt offset.toInt = some addr
  /-- Its page. -/
  resident : (s.mem.mm p).Resident addr
  /-- The page that is fetched. -/
  fetched : (s.pcb p).Fetches i offset → (s.mem.mm p).Resident ((s.pcb p).regAddr i offset)

/-- An instruction whose access, if any, goes to a resident page; for a WRITE the address in the
register has the same offset in its page. -/
def Served (s : TlbSys Pid) (p : Pid) : Inst → Prop
  | .read source offset _ => ∃ addr, s.Reaches p source offset addr
  | .write _ destination offset => ∃ addr, s.Reaches p destination offset addr ∧
      pagingOffst ((s.pcb p).regAddr destination offset) = pagingOffst addr
  | _ => True

/-- What an instruction does to the page: a READ loads the byte that its register holds afterwards,
and a WRITE stores its operand. -/
def act (s : TlbSys Pid) (p : Pid) (ins : Inst) (junk : Byte) :
    Option (MemAct (Fin pagingPagesz) Byte) :=
  match ins with
  | .read source offset destination =>
    ((s.mem.mm p).target source.toInt offset.toInt).map fun addr =>
      .load ((s.mem.mm p).offset addr)
        (some (((s.run p ins junk).regs p destination.toNat).setWidth 8))
  | .write data destination offset =>
    ((s.mem.mm p).target destination.toInt offset.toInt).map fun addr =>
      .store ((s.mem.mm p).offset addr) (data.setWidth 8)
  | _ => none

end TlbSys

/-- The instructions of all processes in any order, with what they do to the page, as long as their
accesses go to resident pages. -/
def servedSystem (Pid : Type*) [DecidableEq Pid] :
    LTS (TlbSys Pid) ((Pid × Inst × Byte) × Option (MemAct (Fin pagingPagesz) Byte)) where
  start := (instSystem Pid).start
  step s x s' := s' = s.run x.1.1 x.1.2.1 x.1.2.2 ∧ x.2 = s.act x.1.1 x.1.2.1 x.1.2.2 ∧
    s.Served x.1.1 x.1.2.1

/-! ## One instruction -/

/-- A call keeps RAM in random access mode and the single areas. -/
lemma MemSys.Plain.call {s : MemSys Pid} (h : s.Plain) (p : Pid) (k : MemCall) :
    (s.call p k).Plain where
  rdmflg := (congrArg Prod.snd (congrFun (k.geometry_run (s.caller p)) .mram)).trans h.rdmflg
  area q := by
    obtain ⟨v, hv⟩ := h.area p
    exact MemSys.forall_call (P := fun mm => ∃ v, mm.mmap = [v]) h.area
      (MemCall.run_area (c := s.caller p) hv k) q

omit [DecidableEq Pid] in
/-- Bytes of RAM do not matter. -/
lemma MemSys.Low.withStorage {s : MemSys Pid} (h : s.Low) (storage : ℤ → Byte) :
    { s with mram := { s.mram with storage := storage } }.Low :=
  ⟨⟨h.plain.rdmflg, h.plain.area⟩, fun p => ⟨(h.caller p).resident, (h.caller p).free⟩⟩

namespace TlbSys

variable {s : TlbSys Pid} {p : Pid} {i offset addr : Word}

omit [DecidableEq Pid] in
/-- Finding the page of an access gives frame 0 or none, and changes nothing. -/
lemma Reaches.located (h : s.Reaches p i offset addr) (hlow : s.mem.Low) :
    ∃ frmnum ≤ 0, (s.pcb p).located i offset = some (frmnum, s.mem.caller p) := by
  have hpresent := fun hfetch => present_of_resident (h.fetched hfetch)
  rcases hfound : (s.pcb p).located i offset with _ | ⟨frmnum, c⟩
  · have hfinds : (s.pcb p).Finds i offset := fun hfetch =>
      Caller.not_unfetchable_of_present (hpresent hfetch)
    exact absurd hfinds (Pcb.located_eq_none hfound).1
  · rcases (Pcb.located_eq_some hfound).2 with ⟨hfetch, rfl, rfl⟩ | ⟨-, hle, rfl⟩
    · have hgot := Caller.pgGetpage_present (c := s.mem.caller p) (hpresent hfetch)
      have hframe : (s.pcb p).caller.decodedFrame ((s.pcb p).lookupPgn i offset) = 0 := by
        have hpte : pagingPagePresent ((s.pcb p).caller.mm.pgd ((s.pcb p).lookupPgn i offset)) =
            true := hpresent hfetch
        unfold Caller.decodedFrame
        rw [if_pos hpte]
        exact (hlow.caller p).resident _ (h.fetched hfetch)
      refine ⟨0, le_rfl, ?_⟩
      rw [hframe]
      exact congrArg (fun page => some ((0 : ℤ), page.2)) hgot
    · exact ⟨frmnum, hle, rfl⟩

omit [DecidableEq Pid] in
/-- The cell of the address. -/
lemma Reaches.ramCell (h : s.Reaches p i offset addr) (hlow : s.mem.Low) :
    (s.mem.mm p).ramCell addr = pagingOffst addr := by
  have hzero := (hlow.caller p).resident _ h.resident
  unfold Mm.ramCell Caller.phyaddr
  rw [show pagingFpn ((s.mem.mm p).pgd (pagingPgn addr)) = 0 from hzero]
  simp

/-- A READ puts the byte of the page in its register and leaves memory as it is. -/
lemma Reaches.run_read {source : Word} (h : s.Reaches p source offset addr)
    (hlow : s.mem.Low) (destination : Word) (junk : Byte) :
    (s.run p (.read source offset destination) junk).mem = s.mem ∧
      (s.run p (.read source offset destination) junk).regs p destination.toNat =
        byteInt (s.mem.mram.storage (pagingOffst addr)) := by
  obtain ⟨frmnum, hle, hfound⟩ := h.located hlow
  have hread : (s.mem.caller p).read 0 source.toInt offset.toInt =
      (0, some (s.mem.mram.storage (pagingOffst addr)), s.mem.caller p) := by
    rw [← h.ramCell hlow]
    exact hlow.plain.run_read h.target (present_of_resident h.resident)
  have hproc : (BackEnd.tlb.run junk (.read source offset destination) (s.pcb p)).2 =
      ((s.pcb p).tlbRefill ((s.pcb p).lookupPgn source offset)).setReg destination
        (byteInt (s.mem.mram.storage (pagingOffst addr))) := by
    show ((s.pcb p).tlbread junk source offset destination).2 = _
    rw [Pcb.tlbread_located, hfound]
    unfold Pcb.tlbreadFrom
    dsimp only
    rw [if_neg (not_lt.mpr hle), hread]
    rfl
  unfold run
  rw [hproc]
  refine ⟨s.mem.put_caller p, ?_⟩
  dsimp only
  rw [Function.update_self]
  exact Function.update_self _ _ _

/-- A WRITE stores its operand in the page. -/
lemma Reaches.run_write {destination : Word} (h : s.Reaches p destination offset addr)
    (hlow : s.mem.Low)
    (hoffset : pagingOffst ((s.pcb p).regAddr destination offset) = pagingOffst addr)
    (data : Word) (junk : Byte) :
    (s.run p (.write data destination offset) junk).mem =
      { s.mem with
        mram := { s.mem.mram with
          storage := Function.update s.mem.mram.storage (pagingOffst addr)
            (data.setWidth 8) } } := by
  obtain ⟨frmnum, hle, hfound⟩ := h.located hlow
  have hproc : (BackEnd.tlb.run junk (.write data destination offset) (s.pcb p)).2.caller =
      { s.mem.caller p with
        mram := { s.mem.mram with
          storage := Function.update s.mem.mram.storage (pagingOffst addr)
            (data.setWidth 8) } } := by
    show ((s.pcb p).tlbwrite (data.setWidth 8) destination offset).2.caller = _
    rw [Pcb.tlbwrite_located, hfound, hoffset]
    unfold Pcb.tlbwriteTo
    dsimp only
    split
    · next hge =>
      have hrdm : (s.mem.caller p).mram.rdmflg = true := hlow.plain.rdmflg
      have haddr : frmnum * 2 ^ pagingPageszBits + (pagingOffst addr : ℤ) = pagingOffst addr := by
        rw [le_antisymm hle hge, Int.zero_mul, Int.zero_add]
      rw [haddr, Memphy.write_of_rdmflg hrdm]
      rfl
    · obtain ⟨v, hv⟩ := hlow.plain.area p
      have hcell : (s.mem.caller p).mm.ramCell addr = pagingOffst addr := h.ramCell hlow
      rw [write_of_target (c := s.mem.caller p) hv _ h.target,
        Caller.pgSetval_present (c := s.mem.caller p) hlow.plain.rdmflg _
          (present_of_resident h.resident), hcell]
      rfl
  unfold run
  dsimp only
  rw [hproc]
  simp [MemSys.put, MemSys.caller]

/-- The other instructions are calls, or do nothing. -/
lemma low_run (hlow : s.mem.Low) {ins : Inst} (hnone : ∀ junk, s.act p ins junk = none)
    (hserved : s.Served p ins) (junk : Byte) :
    (s.run p ins junk).mem.Low ∧
      (s.run p ins junk).mem.mram.storage = s.mem.mram.storage := by
  have hcall : ∀ k : MemCall, k.target (s.mem.mm p) = none →
      (s.mem.call p k).Low ∧ (s.mem.call p k).mram.storage = s.mem.mram.storage := by
    intro k hk
    refine ⟨hlow.call (hlow.plain.call p k) fun addr haddr => ?_, hlow.plain.storage_call hk⟩
    rw [hk] at haddr
    cases haddr
  rw [mem_run]
  cases ins with
  | «calc» => exact ⟨hlow, rfl⟩
  | alloc size regIndex => exact hcall (.alloc regIndex.toInt size.toInt) rfl
  | free regIndex =>
    simp only [Pcb.memOps]
    split
    · exact ⟨hlow, rfl⟩
    · split
      · exact ⟨hlow, rfl⟩
      · exact hcall (.free regIndex.toInt) rfl
  | read source offset destination =>
    obtain ⟨addr, haddr⟩ := hserved
    cases (Option.map_eq_none_iff.mp (hnone junk)).symm.trans haddr.target
  | write data destination offset =>
    obtain ⟨addr, haddr, -⟩ := hserved
    cases (Option.map_eq_none_iff.mp (hnone junk)).symm.trans haddr.target

/-- A step keeps the pages in frame 0, and what it shows is what it does to RAM. -/
lemma low_step (hlow : s.mem.Low) {ins : Inst} {junk : Byte} (hserved : s.Served p ins) :
    (s.run p ins junk).mem.Low ∧
      (s.act p ins junk = none → (s.run p ins junk).mem.mram.storage = s.mem.mram.storage) ∧
      ∀ e, s.act p ins junk = some e →
        e.Effect (fun o : Fin pagingPagesz => ((o : ℕ) : ℤ)) s.mem.mram.storage
          (s.run p ins junk).mem.mram.storage := by
  have hbyte := fun b : Byte => ((eq_byteInt_iff (byteInt b) b).mp rfl).2.symm
  cases ins with
  | «calc» | alloc size regIndex | free regIndex =>
    obtain ⟨hlow', hsame⟩ := low_run (p := p) hlow (fun _ => rfl) hserved junk
    exact ⟨hlow', fun _ => hsame, fun e he => by cases he⟩
  | read source offset destination =>
    obtain ⟨addr, haddr⟩ := hserved
    obtain ⟨hmem, hreg⟩ := haddr.run_read hlow destination junk
    refine ⟨hmem ▸ hlow, fun _ => by rw [hmem], ?_⟩
    rintro e he
    unfold act at he
    dsimp only at he
    rw [haddr.target, hreg, hbyte] at he
    obtain rfl := Option.some.inj he
    exact ⟨rfl, by rw [hmem]⟩
  | write data destination offset =>
    obtain ⟨addr, haddr, hoffset⟩ := hserved
    have hmem := haddr.run_write hlow hoffset data junk
    rw [hmem]
    refine ⟨hlow.withStorage _, ?_, ?_⟩
    · intro hnone
      cases (Option.map_eq_none_iff.mp hnone).symm.trans haddr.target
    · rintro e he
      unfold act at he
      dsimp only at he
      rw [haddr.target] at he
      obtain rfl := Option.some.inj he
      rfl

end TlbSys

/-- With at most 64 KB of RAM, as long as accesses go to resident pages, the READ and WRITE
instructions of all processes act on one page, whatever is in the TLB and in the registers at the
start: the register of a READ holds the byte that some process stored last at an address with the
same offset in its page.  No other byte of RAM changes. -/
theorem instructions_one_page {s s' : TlbSys Pid} (hs : (instSystem Pid).start s)
    (hsmall : ∀ f ∈ s.mem.mram.freeFpList, f < 256)
    {xs : List ((Pid × Inst × Byte) × Option (MemAct (Fin pagingPagesz) Byte))}
    (hp : (servedSystem Pid).Path s xs s') :
    (cellMemory (Fin pagingPagesz) Byte).Path (fun o => s.mem.mram.storage (o : ℕ))
        (xs.filterMap Prod.snd) (fun o => s'.mem.mram.storage (o : ℕ)) ∧
      ∀ b : ℤ, (∀ o : Fin pagingPagesz, b ≠ (o : ℕ)) →
        s'.mem.mram.storage b = s.mem.mram.storage b := by
  refine hp.cells (fun s => s.mem.mram.storage) offsetAddr_injective (I := fun s => s.mem.Low)
    ?_ ?_ ?_ (hs.1.low hsmall)
  · rintro t x t' hlow ⟨rfl, -, hserved⟩
    exact (TlbSys.low_step hlow hserved).1
  · rintro t ⟨a, shown⟩ t' hlow ⟨rfl, hshown, hserved⟩ hnone
    exact (TlbSys.low_step hlow hserved).2.1 (hshown.symm.trans hnone)
  · rintro t ⟨a, shown⟩ t' e hlow ⟨rfl, hshown, hserved⟩ he
    exact (TlbSys.low_step hlow hserved).2.2 e (hshown.symm.trans he)

/-- So a READ of the second process at its second page delivers what the first one wrote to its
first page. -/
theorem instructions_one_page_two_processes : ∃ s', (cellMemory (Fin pagingPagesz) Byte).Path
    (fun o => (TlbSys.fresh (fun b : Bool => if b then 2 else 1) 1024 0).mem.mram.storage (o : ℕ))
    [.store ⟨1, by decide⟩ 7#8, .load ⟨1, by decide⟩ (some 7#8)] s' := by
  have hp : ∃ s', (servedSystem Bool).Path (TlbSys.fresh (fun b => if b then 2 else 1) 1024 0)
      [((false, .alloc 300 0, 0), none), ((true, .alloc 300 0, 0), none),
        ((false, .write 7 0 1, 0), some (.store ⟨1, by decide⟩ 7#8)),
        ((true, .read 0 257 3, 0), some (.load ⟨1, by decide⟩ (some 7#8)))] s' := by
    refine ⟨_, .cons ⟨rfl, rfl, trivial⟩ (.cons ⟨rfl, rfl, trivial⟩
      (.cons ⟨rfl, by decide +kernel, 1#32, ⟨?_, ?_, ?_⟩, ?_⟩
        (.cons ⟨rfl, by decide +kernel, 257#32, ⟨?_, ?_, ?_⟩⟩ (.nil _))))⟩ <;> decide +kernel
  obtain ⟨s', hp⟩ := hp
  exact ⟨_, (instructions_one_page (start_fresh _ 1024 0) (by decide) hp).1⟩

end Ossim
