import Ossim.Tlb.System

/-!
# What a TLB hit says

A line of the TLB keeps 24 bits of an entry, without the present bit, and a lookup tests the present
bit of what it puts together from the three bytes.  Bytes are signed, so the test asks whether one
of them has its top bit set (`tlbCacheRead_hit_iff`): a lookup never reports a hit because the page
is present, and where it reports one, the page may be in RAM, in swap or nowhere.

`tlb_coherent` shows that the hits are right as long as no such byte is stored, because then there
are none.
-/

namespace Ossim

/-! ## Hits -/

/-- The line of a page carries the process and page numbers of the lookup. -/
def TagMatches (mp : Memphy) (pid : Word) (pgnum : ℤ) : Prop :=
  pid = byteInt (mp.storage (tlbnb mp pgnum)) ∧
    BitVec.ofInt 32 pgnum = byteInt (mp.storage (tlbnb mp pgnum + 1)) <<< 8 |||
      byteInt (mp.storage (tlbnb mp pgnum + 2))

/-- The three bytes of a line have the present bit together if one of them is negative. -/
lemma present_of_bytes (b₃ b₄ b₅ : Byte) :
    pagingPagePresent (byteInt b₃ <<< 16 ||| byteInt b₄ <<< 8 ||| byteInt b₅) =
      (b₃.msb || b₄.msb || b₅.msb) := by
  rw [pagingPagePresent_eq]
  simp [byteInt, BitVec.getElem_signExtend, BitVec.msb_eq_getLsbD_last]

/-- A lookup hits exactly if the numbers match and a byte of the entry has its top bit set. -/
theorem tlbCacheRead_hit_iff (mp : Memphy) (pid : Word) (pgnum : ℤ) :
    (tlbCacheRead mp pid pgnum).1 = 0 ↔ TagMatches mp pid pgnum ∧
      ∃ i ∈ [3, 4, 5], (mp.storage (tlbnb mp pgnum + i)).msb = true := by
  unfold tlbCacheRead TagMatches
  dsimp only
  rw [present_of_bytes]
  split
  · next htag =>
    split
    · next hclear => simp_all
    · next hneg =>
      have hbyte : ((mp.storage (tlbnb mp pgnum + 3)).msb ||
          (mp.storage (tlbnb mp pgnum + 4)).msb ||
          (mp.storage (tlbnb mp pgnum + 5)).msb) = true := by
        rwa [Bool.not_eq_true', Bool.not_eq_false] at hneg
      rw [Bool.or_eq_true, Bool.or_eq_true] at hbyte
      simpa [htag, or_assoc] using hbyte
  · next htag => simp [htag]

/-- No byte of the TLB has its top bit set. -/
def Memphy.Plain (mp : Memphy) : Prop := ∀ x, (mp.storage x).msb = false

/-- Then no lookup hits. -/
lemma Memphy.Plain.not_hit {mp : Memphy} (h : mp.Plain) (pid : Word) (pgnum : ℤ) :
    (tlbCacheRead mp pid pgnum).1 ≠ 0 := by
  intro hhit
  obtain ⟨-, i, -, hi⟩ := (tlbCacheRead_hit_iff mp pid pgnum).mp hhit
  rw [h] at hi
  cases hi

/-- The six bytes that `tlb_cache_write` stores have their top bits clear. -/
structure PlainLine (pid : Word) (pgnum : ℕ) (pte : Word) : Prop where
  /-- The process number. -/
  pid : pid.getLsbD 7 = false
  /-- The high byte of the page number. -/
  pgnumHigh : pgnum.testBit 15 = false
  /-- The low byte of the page number. -/
  pgnumLow : pgnum.testBit 7 = false
  /-- The bytes of the entry. -/
  pte : ∀ i ∈ [7, 15, 23], pte.getLsbD i = false

instance (pid : Word) (pgnum : ℕ) (pte : Word) : Decidable (PlainLine pid pgnum pte) :=
  decidable_of_iff (pid.getLsbD 7 = false ∧ pgnum.testBit 15 = false ∧ pgnum.testBit 7 = false ∧
    ∀ i ∈ [7, 15, 23], pte.getLsbD i = false)
    ⟨fun ⟨h₁, h₂, h₃, h₄⟩ => ⟨h₁, h₂, h₃, h₄⟩, fun h => ⟨h.pid, h.pgnumHigh, h.pgnumLow, h.pte⟩⟩

/-- Storing bytes with the top bit clear. -/
lemma plain_updates {storage : ℤ → Byte} (h : ∀ x, (storage x).msb = false) (first : ℤ)
    {line : List (Byte × ℕ)} (hline : ∀ a ∈ line, a.1.msb = false) (x : ℤ) :
    (line.foldl (fun storage (b, i) => Function.update storage (first + i) b) storage x).msb =
      false := by
  induction line generalizing storage with
  | nil => exact h x
  | cons a line ih =>
    refine ih (fun y => ?_) fun b hb => hline b (List.mem_cons_of_mem _ hb)
    dsimp only
    by_cases hy : y = first + a.2
    · rw [hy, Function.update_self]
      exact hline a List.mem_cons_self
    · rw [Function.update_of_ne hy]
      exact h y

lemma msb_byte (x : Word) : (x.setWidth 8).msb = x.getLsbD 7 := by
  rw [BitVec.msb_setWidth]
  rfl

/-- Storing a line with the top bits clear. -/
lemma Memphy.Plain.write {mp : Memphy} (h : mp.Plain) {pid : Word} {pgnum : ℕ} {pte : Word}
    (hline : PlainLine pid pgnum pte) : (tlbCacheWrite mp pid pgnum pte).2.Plain := by
  unfold tlbCacheWrite
  rw [if_neg (Int.not_lt.mpr (Int.natCast_nonneg _))]
  intro x
  refine plain_updates h _ (fun a ha => ?_) x
  simp only [BitVec.ofInt_natCast, List.zipIdx_cons, List.zipIdx_nil, List.mem_cons,
    List.not_mem_nil, or_false] at ha
  rcases ha with rfl | rfl | rfl | rfl | rfl | rfl <;> dsimp only <;> rw [msb_byte]
  · exact hline.pid
  · rw [BitVec.getLsbD_ushiftRight, BitVec.getLsbD_ofNat, hline.pgnumHigh, Bool.and_false]
  · rw [BitVec.getLsbD_ofNat, hline.pgnumLow, Bool.and_false]
  · rw [BitVec.getLsbD_ushiftRight]
    exact hline.pte 23 (by decide)
  · rw [BitVec.getLsbD_ushiftRight]
    exact hline.pte 15 (by decide)
  · exact hline.pte 7 (by decide)

/-! ## Instructions -/

namespace Pcb

/-- The lines that an instruction writes have their top bits clear. -/
def WritesPlain (p : Pcb) : Inst → Prop
  | .calc => True
  | .alloc size regIndex =>
    let (_, addr, caller) := p.caller.alloc 0 regIndex.toInt size.toInt
    ∀ pgnum ∈ List.range' (pagingPgn (BitVec.ofInt 32 addr))
      ((size + BitVec.ofNat 32 (pagingPagesz - 1)).toNat / pagingPagesz),
      pagingPagePresent (caller.mm.pgd pgnum) = true →
        PlainLine p.pid pgnum (byteInt (BitVec.ofNat 8 (pagingFpn (caller.mm.pgd pgnum))))
  | .free _ => True
  | .read source offset _ => ∀ found ∈ p.located source offset, ¬ found.1 > 0 →
    PlainLine p.pid (p.lookupPgn source offset)
      ((found.2.read 0 source.toInt offset.toInt).2.2.mm.pgd (p.lookupPgn source offset))
  | .write data destination offset => ∀ found ∈ p.located destination offset, ¬ found.1 ≥ 0 →
    PlainLine p.pid (p.lookupPgn destination offset)
      ((found.2.write 0 destination.toInt offset.toInt (data.setWidth 8)).2.mm.pgd
        (p.lookupPgn destination offset))

instance (p : Pcb) : (ins : Inst) → Decidable (p.WritesPlain ins)
  | .calc => .isTrue trivial
  | .alloc _ _ =>
    inferInstanceAs (Decidable (∀ pgnum ∈ List.range' _ _, _ = true → PlainLine _ _ _))
  | .free _ => .isTrue trivial
  | .read _ _ _ =>
    inferInstanceAs (Decidable (∀ found : ℤ × Caller, found ∈ _ → ¬ found.1 > 0 → PlainLine _ _ _))
  | .write _ _ _ =>
    inferInstanceAs (Decidable (∀ found : ℤ × Caller, found ∈ _ → ¬ found.1 ≥ 0 → PlainLine _ _ _))

/-- The loop of `tlballoc`. -/
lemma plain_tlballocPages {p : Pcb} (h : p.tlb.Plain) {pages : List ℕ}
    (hline : ∀ pgnum ∈ pages, pagingPagePresent (p.caller.mm.pgd pgnum) = true →
      PlainLine p.pid pgnum (byteInt (BitVec.ofNat 8 (pagingFpn (p.caller.mm.pgd pgnum))))) :
    (pages.foldl tlballocPage p).tlb.Plain := by
  induction pages generalizing p with
  | nil => exact h
  | cons pgnum pages ih =>
    have hfirst : (p.tlballocPage pgnum).tlb.Plain := by
      unfold tlballocPage
      dsimp only
      split
      · next hpresent =>
        split
        · exact h.write (hline pgnum List.mem_cons_self hpresent)
        · exact h
      · exact h
    obtain ⟨tlb, htlb⟩ := p.tlballocPage_setTlb pgnum
    rw [List.foldl_cons]
    rw [htlb] at hfirst ⊢
    exact ih hfirst fun n hn => hline n (List.mem_cons_of_mem _ hn)

/-- The loop of `tlbfree_data` writes where a lookup hits: nowhere. -/
lemma tlbfreePages_of_plain {p : Pcb} (h : p.tlb.Plain) (pages : List ℕ) :
    pages.foldl tlbfreePage p = p := by
  induction pages with
  | nil => rfl
  | cons pgnum pages ih =>
    have hfirst : p.tlbfreePage pgnum = p := by
      unfold tlbfreePage
      rw [if_neg (h.not_hit _ _)]
    rw [List.foldl_cons, hfirst, ih]

/-- An instruction whose lines have their top bits clear keeps the TLB so. -/
lemma plain_run {p : Pcb} (h : p.tlb.Plain) {ins : Inst} (hok : p.WritesPlain ins) (junk : Byte) :
    (BackEnd.tlb.run junk ins p).2.tlb.Plain := by
  cases ins with
  | «calc» => exact h
  | alloc size regIndex =>
    show (p.tlballoc size regIndex).2.tlb.Plain
    dsimp only [WritesPlain] at hok
    unfold tlballoc
    dsimp only
    split
    · exact h
    · exact plain_tlballocPages
        (p := { p with caller := (p.caller.alloc 0 regIndex.toInt size.toInt).2.2 }) h hok
  | free regIndex =>
    show (p.tlbfreeData regIndex).2.tlb.Plain
    unfold tlbfreeData
    dsimp only
    split
    · exact h
    · split
      · exact h
      · rw [tlbfreePages_of_plain (p := { p with caller := (p.caller.free 0 regIndex.toInt).2 }) h]
        exact h
  | read source offset destination =>
    show (p.tlbread junk source offset destination).2.tlb.Plain
    rw [tlbread_located]
    cases hfound : p.located source offset with
    | none => exact h
    | some found =>
      have hline := hok found hfound
      obtain ⟨frmnum, caller⟩ := found
      dsimp only at hline ⊢
      unfold tlbreadFrom
      split
      · exact h
      · next hmiss => exact h.write (hline hmiss)
  | write data destination offset =>
    show (p.tlbwrite (data.setWidth 8) destination offset).2.tlb.Plain
    rw [tlbwrite_located]
    cases hfound : p.located destination offset with
    | none => exact h
    | some found =>
      have hline := hok found hfound
      obtain ⟨frmnum, caller⟩ := found
      dsimp only at hline ⊢
      unfold tlbwriteTo
      split
      · exact h
      · next hmiss => exact h.write (hline hmiss)

end Pcb

/-! ## Runs -/

/-- A hit says where the page is: it is in RAM, in the frame that the lookup delivers. -/
def TlbSys.HitsCorrect {Pid : Type*} (s : TlbSys Pid) : Prop :=
  ∀ pid pgnum d, tlbCacheRead s.tlb pid pgnum = (0, some d) →
    ∃ p, s.pid p = pid ∧ ∃ n : ℕ, pgnum = n ∧ pteResident ((s.mem.mm p).pgd n) = true ∧
      d.toNat = recordedFpn ((s.mem.mm p).pgd n)

/-- Hits are correct in every state reached by instructions whose lines had their top bits clear,
from a TLB whose bytes had. -/
theorem tlb_coherent {Pid : Type*} [DecidableEq Pid] {s : TlbSys Pid}
    (hs : (((instSystem Pid).startIn fun s => s.tlb.Plain).restrict
      fun s a => (s.pcb a.1).WritesPlain a.2.1).Reachable s) : s.HitsCorrect := by
  have h : s.tlb.Plain := by
    refine hs.invariant_restrict (I := fun s => s.tlb.Plain)
      (fun s (h : _ ∧ s.tlb.Plain) => h.2) fun s a s' h ht hok => ?_
    obtain rfl : s' = s.run a.1 a.2.1 a.2.2 := ht
    exact Pcb.plain_run (p := s.pcb a.1) h hok a.2.2
  intro pid pgnum d hhit
  exact absurd (congrArg Prod.fst hhit) (h.not_hit pid pgnum)

/-- After an allocation of one page and two reads of it, the second of which finds the line that the
first one wrote. -/
theorem tlb_coherent_two_reads :
    ((((TlbSys.fresh (fun _ : Unit => 1) 1024 0).run () (.alloc 256 0) 0).run () (.read 0 0 1)
      0).run () (.read 0 1 2) 0).HitsCorrect := by
  have hzero : (0 : Byte).msb = false := by decide
  have hstart : ((instSystem Unit).startIn fun s => s.tlb.Plain).start
      (TlbSys.fresh (fun _ => 1) 1024 0) := ⟨start_fresh _ 1024 0, fun _ => hzero⟩
  refine tlb_coherent (.step (.step (.step (.start hstart)
    (a := ((), .alloc 256 0, 0)) ⟨rfl, ?_⟩) (a := ((), .read 0 0 1, 0)) ⟨rfl, ?_⟩)
    (a := ((), .read 0 1 2, 0)) ⟨rfl, ?_⟩)
  · decide +kernel
  · decide +kernel
  · decide +kernel

/-- With one frame of RAM, page 4 is evicted to swap frame 4.  A read then stores its entry in the
TLB, and the next lookup hits. -/
theorem tlb_not_coherent :
    ¬ ∀ s : TlbSys Unit, (instSystem Unit).Reachable s → s.HitsCorrect := by
  intro h
  obtain ⟨s, hs, hP⟩ := LTS.exists_reachable_of_exec (T := instSystem Unit)
    (fun s a => some (s.run a.1 a.2.1 a.2.2)) (fun s a s' hnext => (Option.some.inj hnext).symm)
    (fun s => (tlbCacheRead s.tlb (s.pid ()) 4 = (0, some 3)) && pteSwapped ((s.mem.mm ()).pgd 4))
    [((), .alloc 256 0, 0), ((), .alloc 256 1, 0), ((), .alloc 256 2, 0), ((), .alloc 256 3, 0),
      ((), .alloc 256 4, 0), ((), .alloc 256 5, 0), ((), .read 0 1024 1, 0)]
    (start_fresh (fun _ => 1) 256 4096) (by decide +kernel)
  obtain ⟨hhit, hout⟩ := Bool.and_eq_true_iff.mp hP
  obtain ⟨p, -, n, hn, hres, -⟩ := h s hs _ _ _ (of_decide_eq_true hhit)
  obtain rfl : n = 4 := by omega
  rw [pteSwapped_of_resident hres] at hout
  cases hout

end Ossim
