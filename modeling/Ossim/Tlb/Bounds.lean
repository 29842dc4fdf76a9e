import Ossim.Tlb.Accesses

/-!
# Are the array indices of instructions in range?

No back end function checks its operands before it uses them as indices, except `tlbfree_data` and,
with a bound that is off by one, `get_symrg_byid`.  What is checked is what the macros mask: page
numbers, offsets and the frame numbers that `PAGING_FPN` decodes, which are at most 3.

`indices_safe_iff` says when all indices of an instruction are in range, in a system with at least
four frames of RAM.
-/

namespace Ossim

/-! ## Paging -/

lemma forall_pgdRange (maxsz : ℤ) {first : ℕ} (hfirst : first < pagingMaxPgn) (n : ℕ) :
    (∀ a ∈ pgdRange first n, a.InRange maxsz) ↔ first + n ≤ pagingMaxPgn := by
  unfold pgdRange
  rw [List.forall_mem_map]
  constructor
  · intro h
    cases n with
    | zero => exact hfirst.le
    | succ n =>
      have hlast : first + n < pagingMaxPgn := h (first + n) (List.mem_range'_1.mpr (by omega))
      omega
  · intro h i hi
    have hlast := (List.mem_range'_1.mp hi).2
    exact hlast.trans_le h

namespace Caller

section
variable {maxsz : ℤ} (hsize : 1024 ≤ maxsz)
include hsize

lemma frameAccesses_inRange {fpn : ℕ} (hfpn : fpn < 4) :
    ∀ a ∈ frameAccesses fpn, a.InRange maxsz := by
  unfold frameAccesses
  rw [List.forall_mem_map]
  intro i hi
  have hlt := List.mem_range.mp hi
  rw [pagingPagesz_eq] at hlt ⊢
  exact ⟨by omega, by omega⟩

lemma gatherAccesses_inRange {n : ℕ} {c : Caller} (hfifo : ∀ m ∈ c.mm.fifoPgn, m < pagingMaxPgn) :
    ∀ a ∈ gatherAccesses n c, a.InRange maxsz := by
  induction n generalizing c with
  | zero => exact List.forall_mem_nil _
  | succ n ih =>
    unfold gatherAccesses
    split
    · exact ih hfifo
    · split
      · exact List.forall_mem_nil _
      · next victim mm hvic =>
        obtain ⟨list, hvictim, rfl⟩ := findVictimPage_eq_some.mp hvic
        obtain ⟨hmem, hlist⟩ := mem_of_takeTail hvictim
        split
        · exact List.forall_mem_nil _
        · next swpfpn mswp hswp =>
          dsimp only
          rw [List.cons_append, List.forall_mem_cons, List.forall_mem_append]
          refine ⟨hfifo _ hmem, frameAccesses_inRange hsize (pagingFpn_lt _), ih ?_⟩
          rw [mm_evictPage]
          exact fun m hm => hfifo m (hlist m hm)

/-- Growing the RAM mapping. -/
lemma mapAccesses_inRange_iff {c : Caller} (hfifo : ∀ m ∈ c.mm.fifoPgn, m < pagingMaxPgn)
    (mapstart incpgnum : ℤ) :
    (∀ a ∈ c.mapAccesses mapstart incpgnum, a.InRange maxsz) ↔
      (incpgnum.toNat ≤ c.supply →
        pagingPgn (BitVec.ofInt 32 mapstart) + incpgnum.toNat ≤ pagingMaxPgn) := by
  have hrange := forall_pgdRange maxsz (pagingPgn_lt (BitVec.ofInt 32 mapstart)) incpgnum.toNat
  unfold pgdRange at hrange
  unfold mapAccesses
  rw [List.forall_mem_append, and_iff_right (gatherAccesses_inRange hsize hfifo)]
  rw [vmMapRamWrites_eq]
  by_cases hle : incpgnum.toNat ≤ c.supply
  · rw [if_pos hle, hrange]
    exact ⟨fun h _ => h, fun h => h hle⟩
  · rw [if_neg hle]
    exact iff_of_true (List.forall_mem_nil _) fun h => absurd h hle

/-- Growing the only area. -/
lemma growAccesses_inRange_iff {c : Caller} {v : VmArea} (hv : c.mm.mmap = [v]) (h : InTable c.mm)
    (incSz : ℤ) :
    (∀ a ∈ c.growAccesses 0 incSz, a.InRange maxsz) ↔
      (grownPages incSz ≤ c.supply →
        firstGrownPage v + grownPages incSz ≤ pagingMaxPgn) := by
  have hvalid := not_validateOverlap_neg hv (cint v.sbrk) (cint (ulong (v.sbrk + incSz)))
  have hgrown : c.growArea 0 incSz = c.grown v incSz := by
    simp only [growArea, grown, curVma_single hv, setCurVma_single hv]
  unfold growAccesses getVmAreaNodeAtBrk
  simp only [curVma_single hv, hvalid, if_false]
  rw [hgrown]
  exact mapAccesses_inRange_iff hsize (c := c.grown v incSz) h.fifo _ _

/-- `__alloc`. -/
lemma allocAccesses_inRange_iff {c : Caller} {v : VmArea} (hv : c.mm.mmap = [v]) (h : InTable c.mm)
    (rgid size : ℤ) :
    (∀ a ∈ c.allocAccesses rgid size, a.InRange maxsz) ↔
      (0 ≤ rgid ∧ rgid < pagingMaxSymtblSz) ∧ c.GrowsInside size := by
  have hsym : (∀ a ∈ [Access.symrgtbl rgid], a.InRange maxsz) ↔
      0 ≤ rgid ∧ rgid < pagingMaxSymtblSz := List.forall_mem_singleton
  obtain ⟨list, hfree⟩ := getFreeVmrgArea_single hv size
  unfold allocAccesses GrowsInside
  generalize c.getFreeVmrgArea 0 size = found at hfree ⊢
  obtain ⟨rg, c₁⟩ := found
  dsimp only at hfree
  cases rg with
  | some rgnode =>
    rw [hsym]
    exact (and_iff_left fun c' hc' => by cases hc').symm
  | none =>
    have hv₁ : c₁.mm.mmap = [{ v with vmFreergList := list }] := by rw [hfree]
    have h₁ : InTable c₁.mm := by
      rw [hfree]
      exact ⟨h.present, h.fifo, h.swapped⟩
    dsimp only
    rw [List.forall_mem_append, hsym, growAccesses_inRange_iff hsize hv₁ h₁, and_comm]
    refine and_congr_right fun _ => ⟨fun hgrows c' hc' => ?_, fun hgrows => ?_⟩
    · obtain rfl : c₁ = c' := congrArg Prod.snd hc'
      rwa [curVma_single hv₁]
    · have hinside := hgrows c₁ rfl
      rwa [curVma_single hv₁] at hinside

/-- `pg_getpage` of a page of the table. -/
lemma getpageAccesses_inRange {c : Caller} (h : InTable c.mm) {pgn : ℕ}
    (hpgn : pgn < pagingMaxPgn) :
    ∀ a ∈ c.getpageAccesses pgn, a.InRange maxsz := by
  unfold getpageAccesses
  rw [List.forall_mem_cons]
  refine ⟨hpgn, ?_⟩
  split
  · exact List.forall_mem_nil _
  · split
    · exact List.forall_mem_nil _
    · next vicpgn mm hvic =>
      obtain ⟨list, hvictim, rfl⟩ := findVictimPage_eq_some.mp hvic
      split
      · exact List.forall_mem_nil _
      · rw [List.forall_mem_cons]
        exact ⟨h.fifo _ (mem_of_takeTail hvictim).1,
          frameAccesses_inRange hsize (pagingFpn_lt _)⟩

/-- `__read` and `__write` of a region of the symbol table. -/
lemma regionAccesses_inRange {c : Caller} (h : InTable c.mm) {rgid : ℤ} (hlo : 0 ≤ rgid)
    (hhi : rgid < pagingMaxSymtblSz) (offset : ℤ) :
    ∀ a ∈ c.regionAccesses rgid offset, a.InRange maxsz := by
  unfold regionAccesses valAccesses
  split
  · next currg _ _ _ =>
    rw [List.forall_mem_cons, List.forall_mem_append]
    refine ⟨⟨hlo, hhi⟩, getpageAccesses_inRange hsize h (pagingPgn_lt _), ?_⟩
    split
    · exact List.forall_mem_nil _
    · next fpn c' hpage =>
      have hfpn := pgGetpage_lt hpage
      have hoff := pagingOffst_eq (regionAddr currg offset)
      rw [List.forall_mem_singleton]
      unfold phyaddr
      rw [pagingPageszBits_eq]
      exact ⟨by omega, by omega⟩
  · exact List.forall_mem_nil _

end

end Caller

/-! ## Instructions -/

/-- An operand of the instruction names a register or a region that does not exist. -/
def Inst.Oversteps : Inst → Prop
  | .calc => False
  | .alloc _ regIndex | .free regIndex => pagingMaxSymtblSz ≤ regIndex.toNat
  | .read source _ destination => numRegs ≤ source.toNat ∨ numRegs ≤ destination.toNat
  | .write _ destination _ => numRegs ≤ destination.toNat

/-- `(frmnum << 8) + offset` as an `int` is an address of RAM: the offset does not lead behind its
end, or leads so far that the sum wraps around at `2 ^ 32`. -/
def OffsetFits (maxsz : ℤ) (frmnum : ℕ) (offset : Word) : Prop :=
  frmnum * pagingPagesz + offset.toNat < min maxsz (2 ^ 31) ∨
    2 ^ 32 ≤ frmnum * pagingPagesz + offset.toNat

lemma offsetFits_iff {maxsz : ℤ} (hsize : 1024 ≤ maxsz) {frmnum : ℕ} (hframe : frmnum < 4)
    (offset : Word) :
    OffsetFits maxsz frmnum offset ↔
      0 ≤ cint (frmnum * 2 ^ pagingPageszBits + offset.toNat) ∧
        cint (frmnum * 2 ^ pagingPageszBits + offset.toNat) < maxsz := by
  have hoffset := offset.isLt
  unfold OffsetFits cint
  rw [Int.bmod_def, pagingPageszBits_eq, pagingPagesz_eq]
  split <;> omega

namespace Pcb

/-- All array elements that an instruction uses exist, and if an operand names none, its status is
not 0. -/
structure IndicesSafe (p : Pcb) (junk : Byte) (ins : Inst) : Prop where
  /-- The elements exist. -/
  inRange : ∀ a ∈ p.accesses ins, a.InRange p.caller.mram.maxsz
  /-- The status. -/
  status : ins.Oversteps → (BackEnd.tlb.run junk ins p).1 ≠ 0

/-- The page of an access can be found: if the TLB has an entry of it that is not present, then
`pg_getpage` does not fail. -/
def Finds (p : Pcb) (i offset : Word) : Prop :=
  p.Fetches i offset → ¬ p.caller.Unfetchable (p.lookupPgn i offset)

/-- Registers and regions exist, new pages and the pages over which `tlballoc` loops are pages of
the table, and where `tlbread` adds its offset to a frame, the offset is not too large. -/
def IndicesFit (p : Pcb) : Inst → Prop
  | .calc => True
  | .alloc size regIndex => regIndex.toNat < pagingMaxSymtblSz ∧ p.caller.GrowsInside size.toInt ∧
    pagingPgn (BitVec.ofInt 32 (p.caller.regionStart size.toInt)) +
      (size + BitVec.ofNat 32 (pagingPagesz - 1)).toNat / pagingPagesz ≤ pagingMaxPgn
  | .free _ => True
  | .read source offset destination => source.toNat < numRegs ∧
    (p.Finds source offset → destination.toNat < numRegs) ∧
    (p.Fetches source offset → 0 < p.caller.decodedFrame (p.lookupPgn source offset) →
      OffsetFits p.caller.mram.maxsz (p.caller.decodedFrame (p.lookupPgn source offset)) offset)
  | .write _ destination _ => destination.toNat < numRegs

/-- If finding the page of an access fails, there is no frame to which an offset is added. -/
lemma located_eq_none {p : Pcb} {i offset : Word} (h : p.located i offset = none) :
    ¬ p.Finds i offset ∧ p.caller.decodedFrame (p.lookupPgn i offset) = 0 := by
  unfold located at h
  split at h
  · next hfetch =>
    rcases p.caller.pgGetpage_delivers (p.lookupPgn i offset) with ⟨hun, -⟩ | ⟨-, hsome⟩
    · refine ⟨fun hfinds => hfinds hfetch hun, ?_⟩
      unfold Caller.decodedFrame
      rw [hun.1]
      rfl
    · split at h
      · next hpage =>
        rw [hpage] at hsome
        cases hsome
      · cases h
  · cases h

/-- What finding the page of an access gives: the frame that `pg_getpage` decodes, or, if the page
is not fetched, no frame number to which an offset is added. -/
lemma located_eq_some {p : Pcb} {i offset : Word} {frmnum : ℤ} {c : Caller}
    (h : p.located i offset = some (frmnum, c)) :
    p.Finds i offset ∧
      (p.Fetches i offset ∧ frmnum = p.caller.decodedFrame (p.lookupPgn i offset) ∧
        c = (p.caller.pgGetpage (p.lookupPgn i offset)).2 ∨
      ¬ p.Fetches i offset ∧ frmnum ≤ 0 ∧ c = p.caller) := by
  unfold located at h
  split at h
  · next hfetch =>
    split at h
    · cases h
    · next fpn caller hpage =>
      obtain ⟨rfl, rfl⟩ := Prod.mk.inj (Option.some.inj h)
      rcases p.caller.pgGetpage_delivers (p.lookupPgn i offset) with ⟨-, hnone⟩ | ⟨hun, hsome⟩
      · rw [hpage] at hnone
        cases hnone
      · rw [hpage] at hsome
        obtain rfl : fpn = _ := Option.some.inj hsome
        exact ⟨fun _ => hun, .inl ⟨hfetch, rfl, by rw [hpage]⟩⟩
  · next hfetch =>
    obtain ⟨rfl, rfl⟩ := Prod.mk.inj (Option.some.inj h)
    refine ⟨fun h' => absurd h' hfetch, .inr ⟨hfetch, ?_, rfl⟩⟩
    unfold tlbLookup
    rcases tlbCacheRead_cases p.tlb p.pid (pagingPgn (p.regAddr i offset)) with
      hmiss | hmiss | ⟨frame, -, hmiss⟩ <;> rw [hmiss] <;> dsimp only <;> decide

lemma located_lt {p : Pcb} {i offset : Word} {frmnum : ℤ} {c : Caller}
    (h : p.located i offset = some (frmnum, c)) : frmnum < 4 := by
  rcases (located_eq_some h).2 with ⟨-, hframe, -⟩ | ⟨-, hle, -⟩
  · have hlt := p.caller.decodedFrame_lt (p.lookupPgn i offset)
    omega
  · omega

lemma dumpAccesses_inRange (maxsz : ℤ) (c : Caller) : ∀ a ∈ c.dumpAccesses, a.InRange maxsz := by
  have hend := pagingPgn_lt (BitVec.ofNat 32 (c.mm.curVma 0).vmEnd)
  exact (forall_pgdRange maxsz (by decide) _).mpr (by omega)

/-- A region id as an `int` names an entry of the symbol table if the operand does. -/
lemma symrgtbl_toInt_iff (r : Word) :
    0 ≤ r.toInt ∧ r.toInt < pagingMaxSymtblSz ↔ r.toNat < pagingMaxSymtblSz := by
  constructor
  · rintro ⟨hlo, hhi⟩
    rw [BitVec.toInt_eq_toNat_cond] at hlo hhi
    split at hhi
    · exact hhi
    · omega
  · intro hlt
    rw [toInt_of_lt hlt]
    exact ⟨by omega, hlt⟩

section
variable {p : Pcb} (h : InTable p.caller.mm)
include h

lemma inTable_located {i offset : Word} {frmnum : ℤ} {c : Caller}
    (hfound : p.located i offset = some (frmnum, c)) : InTable c.mm := by
  rcases (located_eq_some hfound).2 with ⟨-, -, rfl⟩ | ⟨-, -, rfl⟩
  · exact Caller.inTable_pgGetpage h (pagingPgn_lt _)
  · exact h

variable (hsize : 1024 ≤ p.caller.mram.maxsz)
include hsize

/-- Finding the page of an access uses a register. -/
lemma findAccesses_inRange_iff (i offset : Word) :
    (∀ a ∈ p.findAccesses i offset, a.InRange p.caller.mram.maxsz) ↔ i.toNat < numRegs := by
  unfold findAccesses
  rw [List.forall_mem_cons]
  refine and_iff_left ?_
  split
  · exact Caller.getpageAccesses_inRange hsize h (pagingPgn_lt _)
  · exact List.forall_mem_nil _

lemma tlballoc_safe_iff {v : VmArea} (hv : p.caller.mm.mmap = [v]) (junk : Byte)
    (size regIndex : Word) :
    p.IndicesSafe junk (.alloc size regIndex) ↔ p.IndicesFit (.alloc size regIndex) := by
  have hrange : (∀ a ∈ p.accesses (.alloc size regIndex), a.InRange p.caller.mram.maxsz) ↔
      p.IndicesFit (.alloc size regIndex) := by
    have hloop := forall_pgdRange p.caller.mram.maxsz
      (pagingPgn_lt (BitVec.ofInt 32 (p.caller.regionStart size.toInt)))
      ((size + BitVec.ofNat 32 (pagingPagesz - 1)).toNat / pagingPagesz)
    have hstatus := p.caller.alloc_status 0 regIndex.toInt size.toInt
    show (∀ a ∈ p.tlballocAccesses size regIndex, _) ↔ _
    unfold tlballocAccesses IndicesFit
    dsimp only
    rw [if_neg (not_not_intro hstatus), List.forall_mem_append,
      Caller.alloc_address hv, hloop,
      Caller.allocAccesses_inRange_iff hsize hv h, symrgtbl_toInt_iff, and_assoc]
  refine ⟨fun hsafe => hrange.mp hsafe.inRange, fun hfit => ⟨hrange.mpr hfit, fun hover => ?_⟩⟩
  exact absurd hfit.1 (not_lt.mpr hover)

omit h hsize in
lemma tlbfree_safe (junk : Byte) (regIndex : Word) : p.IndicesSafe junk (.free regIndex) := by
  refine ⟨?_, fun hover => ?_⟩
  · show ∀ a ∈ p.tlbfreeAccesses regIndex, _
    unfold tlbfreeAccesses Caller.freeAccesses
    dsimp only
    split
    · exact List.forall_mem_nil _
    · next hid =>
      have hlt := not_le.mp hid
      rw [List.forall_mem_cons]
      refine ⟨⟨by omega, hlt⟩, ?_⟩
      split
      · exact List.forall_mem_nil _
      · split
        · exact List.forall_mem_nil _
        · exact List.forall_mem_singleton.mpr ((symrgtbl_toInt_iff regIndex).mpr hlt)
  · show (p.tlbfreeData regIndex).1 ≠ 0
    have hid : pagingMaxSymtblSz ≤ regIndex.toNat := hover
    unfold tlbfreeData
    dsimp only
    rw [if_pos hid]
    dsimp only
    decide

lemma tlbread_safe_iff (junk : Byte) (source offset destination : Word) :
    p.IndicesSafe junk (.read source offset destination) ↔
      p.IndicesFit (.read source offset destination) := by
  have hrange : (∀ a ∈ p.accesses (.read source offset destination),
      a.InRange p.caller.mram.maxsz) ↔ p.IndicesFit (.read source offset destination) := by
    show (∀ a ∈ p.tlbreadAccesses source offset destination, _) ↔ _
    unfold tlbreadAccesses IndicesFit
    rw [List.forall_mem_append, findAccesses_inRange_iff h hsize]
    refine and_congr_right fun hsource => ?_
    cases hfound : p.located source offset with
    | none =>
      obtain ⟨hfinds, hframe⟩ := located_eq_none hfound
      exact iff_of_true (List.forall_mem_nil _)
        ⟨fun h' => absurd h' hfinds, fun _ hpos => absurd hframe hpos.ne'⟩
    | some found =>
      obtain ⟨frmnum, c⟩ := found
      obtain ⟨hfinds, hframe⟩ := located_eq_some hfound
      have hc := inTable_located h hfound
      dsimp only
      rw [List.forall_mem_append, List.forall_mem_append,
        and_iff_right (dumpAccesses_inRange _ c), List.forall_mem_singleton, and_comm]
      refine and_congr ⟨fun hregister _ => hregister, fun hregister => hregister hfinds⟩ ?_
      by_cases hpos : frmnum > 0
      · -- the whole offset is added to a frame that was decoded from the entry of the page
        rw [if_pos hpos, List.forall_mem_singleton]
        rcases hframe with ⟨hfetch, rfl, -⟩ | ⟨-, hle, -⟩
        · have hdecoded : 0 < p.caller.decodedFrame (p.lookupPgn source offset) := by omega
          rw [forall_prop_of_true hfetch, forall_prop_of_true hdecoded]
          exact (offsetFits_iff hsize (p.caller.decodedFrame_lt _) offset).symm
        · omega
      · rw [if_neg hpos, List.forall_mem_append, List.forall_mem_singleton]
        obtain ⟨hlo, hhi⟩ := (symrgtbl_toInt_iff source).mpr (id_of_numRegs hsource)
        refine iff_of_true ⟨Caller.regionAccesses_inRange hsize hc hlo hhi _, pagingPgn_lt _⟩
          fun hfetch hdecoded => ?_
        rcases hframe with ⟨-, hframe, -⟩ | ⟨hmiss, -⟩
        · omega
        · exact absurd hfetch hmiss
  refine ⟨fun hsafe => hrange.mp hsafe.inRange, fun hfit => ⟨hrange.mpr hfit, fun hover => ?_⟩⟩
  -- the only operand left is the destination of a read that does not find its page
  show (p.tlbread junk source offset destination).1 ≠ 0
  rw [tlbread_located]
  cases hfound : p.located source offset with
  | none =>
    dsimp only
    decide
  | some found =>
    have hdestination := hfit.2.1 (located_eq_some hfound).1
    rcases hover with hover | hover
    · exact absurd hfit.1 (not_lt.mpr hover)
    · exact absurd hdestination (not_lt.mpr hover)

lemma tlbwrite_safe_iff (junk : Byte) (data destination offset : Word) :
    p.IndicesSafe junk (.write data destination offset) ↔
      p.IndicesFit (.write data destination offset) := by
  have hrange : (∀ a ∈ p.accesses (.write data destination offset),
      a.InRange p.caller.mram.maxsz) ↔ p.IndicesFit (.write data destination offset) := by
    show (∀ a ∈ p.tlbwriteAccesses destination offset, _) ↔ _
    unfold tlbwriteAccesses IndicesFit
    rw [List.forall_mem_append, findAccesses_inRange_iff h hsize]
    refine and_iff_left_of_imp fun hdestination => ?_
    cases hfound : p.located destination offset with
    | none => exact List.forall_mem_nil _
    | some found =>
      obtain ⟨frmnum, c⟩ := found
      have hc := inTable_located h hfound
      have hframe := located_lt hfound
      dsimp only
      rw [List.forall_mem_append]
      refine ⟨dumpAccesses_inRange _ c, ?_⟩
      split
      · have hoff := pagingOffst_eq (p.regAddr destination offset)
        rw [List.forall_mem_singleton, pagingPageszBits_eq]
        exact ⟨by omega, by omega⟩
      · rw [List.forall_mem_append, List.forall_mem_singleton]
        obtain ⟨hlo, hhi⟩ := (symrgtbl_toInt_iff destination).mpr (id_of_numRegs hdestination)
        exact ⟨Caller.regionAccesses_inRange hsize hc hlo hhi _, pagingPgn_lt _⟩
  refine ⟨fun hsafe => hrange.mp hsafe.inRange, fun hfit => ⟨hrange.mpr hfit, fun hover => ?_⟩⟩
  exact absurd hfit (not_lt.mpr hover)

/-- The indices of an instruction are in range exactly if its operands fit. -/
lemma indicesSafe_iff {v : VmArea} (hv : p.caller.mm.mmap = [v]) (junk : Byte) (ins : Inst) :
    p.IndicesSafe junk ins ↔ p.IndicesFit ins := by
  cases ins with
  | «calc» => exact iff_of_true ⟨List.forall_mem_nil _, fun hover => hover.elim⟩ trivial
  | alloc size regIndex => exact tlballoc_safe_iff h hsize hv junk size regIndex
  | free regIndex => exact iff_of_true (tlbfree_safe junk regIndex) trivial
  | read source offset destination => exact tlbread_safe_iff h hsize junk source offset destination
  | write data destination offset => exact tlbwrite_safe_iff h hsize junk data destination offset

end

/-- An instruction whose operands fit maps entries of the page table only. -/
lemma along_mapsInside {p : Pcb} {ins : Inst} (hfit : p.IndicesFit ins) :
    LTS.Along MemOp.run (fun c o => o.MapsInside c) (p.memOps ins) p.caller := by
  cases ins with
  | «calc» => trivial
  | alloc size regIndex => exact ⟨hfit.2.1, trivial⟩
  | free regIndex =>
    refine .of_forall (fun o ho c => ?_) _
    simp only [memOps] at ho
    split at ho
    · cases ho
    · split at ho
      · cases ho
      · obtain rfl := List.mem_singleton.mp ho
        trivial
  | read source offset destination =>
    refine .of_forall (fun o ho c => ?_) _
    rw [memOps] at ho
    rcases mem_accessOps ho with rfl | ⟨found, -, ho⟩
    · exact pagingPgn_lt _
    · split at ho
      · cases ho
      · obtain rfl := List.mem_singleton.mp ho
        trivial
  | write data destination offset =>
    refine .of_forall (fun o ho c => ?_) _
    rw [memOps] at ho
    rcases mem_accessOps ho with rfl | ⟨found, -, ho⟩
    · exact pagingPgn_lt _
    · split at ho <;> obtain rfl := List.mem_singleton.mp ho <;> trivial

end Pcb

/-! ## Runs -/

namespace TlbSys

variable {Pid : Type*}

/-- RAM has the four frames that `PAGING_FPN` tells apart, and what `init_mm` leaves unassigned in
the lists of resident pages are pages of the table. -/
def StartsInside (s : TlbSys Pid) : Prop :=
  1024 ≤ s.mem.mram.maxsz ∧ ∀ p, ∀ n ∈ (s.mem.mm p).fifoPgn, n < pagingMaxPgn

/-- Every process has a single area and maps entries of its page table only, and RAM has at least
four frames. -/
structure Inside (s : TlbSys Pid) : Prop where
  /-- The areas. -/
  area : ∀ p, ∃ v, (s.mem.mm p).mmap = [v]
  /-- The page tables. -/
  inTable : ∀ p, InTable (s.mem.mm p)
  /-- The size of RAM. -/
  size : 1024 ≤ s.mem.mram.maxsz

lemma inside_of_start {s : TlbSys Pid} (h : s.mem.Initial) (hstarts : s.StartsInside) :
    s.Inside where
  area p := by
    obtain ⟨mm, freerg, hp⟩ := h.mm p
    exact ⟨_, by rw [hp, initMm]⟩
  inTable p := by
    obtain ⟨mm, freerg, hp⟩ := h.mm p
    have hfifo := hstarts.2 p
    rw [hp] at hfifo ⊢
    exact inTable_initMm hfifo freerg
  size := hstarts.1

variable [DecidableEq Pid]

/-- An instruction whose operands fit keeps everything inside. -/
lemma Inside.run {s : TlbSys Pid} (h : s.Inside) (p : Pid) {ins : Inst}
    (hfit : (s.pcb p).IndicesFit ins) (junk : Byte) : (s.run p ins junk).Inside := by
  have hcaller := Pcb.caller_run junk ins (s.pcb p)
  obtain ⟨harea, htable, hsize⟩ :
      (∃ v, (BackEnd.tlb.run junk ins (s.pcb p)).2.caller.mm.mmap = [v]) ∧
      InTable (BackEnd.tlb.run junk ins (s.pcb p)).2.caller.mm ∧
      (BackEnd.tlb.run junk ins (s.pcb p)).2.caller.geometry = (s.mem.caller p).geometry := by
    rw [hcaller]
    refine (Pcb.along_mapsInside hfit).foldl
      (I := fun c => (∃ v, c.mm.mmap = [v]) ∧ InTable c.mm ∧ c.geometry = (s.mem.caller p).geometry)
      (fun c o ⟨harea, htable, hsize⟩ hin => ?_) ⟨h.area p, h.inTable p, rfl⟩
    exact ⟨o.run_area harea, MemOp.inTable_run harea htable hin, (o.geometry_run c).trans hsize⟩
  have hmm : ∀ q, (s.run p ins junk).mem.mm q =
      if q = p then (BackEnd.tlb.run junk ins (s.pcb p)).2.caller.mm else s.mem.mm q := by
    intro q
    by_cases hq : q = p
    · rw [if_pos hq, hq]
      exact MemSys.mm_put_self _ _ _
    · rw [if_neg hq]
      exact MemSys.mm_put_of_ne _ hq _
  refine ⟨fun q => ?_, fun q => ?_, ?_⟩
  · rw [hmm]
    split
    · exact harea
    · exact h.area q
  · rw [hmm]
    split
    · exact htable
    · exact h.inTable q
  · have hram := congrArg Prod.fst (congrFun hsize .mram)
    exact h.size.trans_eq hram.symm

end TlbSys

/-- The indices of an instruction are in range exactly if its operands fit, in every state reached
by instructions whose operands did. -/
theorem indices_safe_iff {Pid : Type*} [DecidableEq Pid] {s : TlbSys Pid}
    (hs : (((instSystem Pid).startIn TlbSys.StartsInside).restrict
      fun s a => (s.pcb a.1).IndicesFit a.2.1).Reachable s) (p : Pid) (ins : Inst) (junk : Byte) :
    (s.pcb p).IndicesSafe junk ins ↔ (s.pcb p).IndicesFit ins := by
  have h : s.Inside := by
    refine hs.invariant_restrict (I := TlbSys.Inside)
      (fun s (h : (_ ∧ _) ∧ s.StartsInside) => TlbSys.inside_of_start h.1.1 h.2)
      fun s a s' h ht hfit => ?_
    obtain rfl : s' = s.run a.1 a.2.1 a.2.2 := ht
    exact h.run a.1 hfit a.2.2
  obtain ⟨v, hv⟩ := h.area p
  exact Pcb.indicesSafe_iff (p := s.pcb p) (h.inTable p) h.size hv junk ins

/-- Writing a byte to a region that was allocated. -/
theorem indices_safe_write :
    (((TlbSys.fresh (fun _ : Unit => 1) 1024 0).run () (.alloc 300 0) 0).pcb ()).IndicesSafe 0
      (.write 100 0 20) := by
  have hstart : ((instSystem Unit).startIn TlbSys.StartsInside).start
      (.fresh (fun _ => 1) 1024 0) :=
    ⟨start_fresh _ 1024 0, by decide, fun p n hn => absurd hn List.not_mem_nil⟩
  have hfit : ((TlbSys.fresh (fun _ : Unit => 1) 1024 0).pcb ()).IndicesFit (.alloc 300 0) := by
    refine ⟨by decide, fun c' hc' _ => ?_, by decide⟩
    obtain rfl : _ = c' := congrArg Prod.snd hc'
    decide
  have hregister : (0 : Word).toNat < numRegs := by decide
  exact (indices_safe_iff (.step (.start hstart) (a := ((), .alloc 300 0, 0)) ⟨rfl, hfit⟩) () _
    0).mpr hregister

/-- The instructions of `p0s` up to its first read, whose destination is register 20. -/
theorem indices_not_safe : ¬ ∀ s : TlbSys Unit, (instSystem Unit).Reachable s →
    ∀ p ins junk, (s.pcb p).IndicesSafe junk ins := by
  intro h
  obtain ⟨s, hs, hP⟩ := LTS.exists_reachable_of_exec (T := instSystem Unit)
    (fun s a => some (s.run a.1 a.2.1 a.2.2)) (fun s a s' hnext => (Option.some.inj hnext).symm)
    (fun s => Access.regs 20 ∈ (s.pcb ()).accesses (.read 1 20 20))
    [((), .calc, 0), ((), .alloc 300 0, 0), ((), .alloc 300 4, 0), ((), .free 0, 0),
      ((), .alloc 100 1, 0), ((), .write 100 1 20, 0)]
    (start_fresh (fun _ => 1) 2048 4096) (by decide +kernel)
  have hreg : 20 < numRegs := (h s hs () _ 0).inRange _ (of_decide_eq_true hP)
  exact absurd hreg (by decide)

end Ossim
