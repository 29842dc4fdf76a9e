import Ossim.Lib.Scan
import Ossim.Tlb.Cpu
import Mathlib.Data.List.Forall2

/-!
# Process files

`load` of `src/loader.c`, which reads the code of a process.  It drops the results of `fscanf`: a
conversion that fails leaves its target as it is.  So the buffer of the opcode keeps the last word
at the end of the file, and the operands that cannot be read are what the memory of the code
segment held before.  Both memories are parameters here (`LoadMem`), and `load` is `none` where the
code exits.

`instructions` says what a file contains.  `load_exact_iff` says for which files a code segment
that `load` returns always holds the first instructions of the file with their own operands.

The memory behind the buffer is not modelled: a word of ten or more characters is kept as it is.
-/

namespace Ossim

open Scan

/-! ## The code -/

/-- `enum ins_opcode_t`. -/
inductive Opcode
  | calc
  | alloc
  | free
  | read
  | write
  deriving DecidableEq

/-- `OPT_CALC`. -/
def optCalc : Token := ['c', 'a', 'l', 'c']

/-- `OPT_ALLOC`. -/
def optAlloc : Token := ['a', 'l', 'l', 'o', 'c']

/-- `OPT_FREE`. -/
def optFree : Token := ['f', 'r', 'e', 'e']

/-- `OPT_READ`. -/
def optRead : Token := ['r', 'e', 'a', 'd']

/-- `OPT_WRITE`. -/
def optWrite : Token := ['w', 'r', 'i', 't', 'e']

/-- `get_opcode`: `none` where it exits. -/
def getOpcode (opt : Token) : Option Opcode :=
  if opt = optCalc then some .calc
  else if opt = optAlloc then some .alloc
  else if opt = optFree then some .free
  else if opt = optRead then some .read
  else if opt = optWrite then some .write
  else none

/-- `struct inst_t`. -/
structure InstT where
  /-- `opcode`. -/
  opcode : Opcode
  /-- `arg_0`. -/
  arg0 : Word
  /-- `arg_1`. -/
  arg1 : Word
  /-- `arg_2`. -/
  arg2 : Word
  deriving DecidableEq

/-- Store the numbers that a call of `fscanf` read in the arguments. -/
def InstT.store (ins : InstT) : List ℤ → InstT
  | [] => ins
  | [a] => { ins with arg0 := toUnsigned a }
  | [a, b] => { ins with arg0 := toUnsigned a, arg1 := toUnsigned b }
  | a :: b :: d :: _ =>
    { ins with arg0 := toUnsigned a, arg1 := toUnsigned b, arg2 := toUnsigned d }

/-- One turn of the loop of `load`, on memory that holds `ins` and a buffer that holds `opcode`:
the instruction, the buffer and what is left of the file. -/
def loadTurn (ins : InstT) (opcode : Token) (file : List Token) :
    Option (InstT × Token × List Token) :=
  let opcode' := (scanWord file).1.getD opcode
  let file := (scanWord file).2
  match getOpcode opcode' with
  | none => none
  | some .calc => some ({ ins with opcode := .calc }, opcode', file)
  | some .alloc =>
    let (args, file) := scanNumbers 2 file
    some ({ ins with opcode := .alloc }.store args, opcode', file)
  | some .free =>
    let (args, file) := scanNumbers 1 file
    some ({ ins with opcode := .free }.store args, opcode', file)
  | some .read =>
    let (args, file) := scanNumbers 3 file
    some ({ ins with opcode := .read }.store args, opcode', file)
  | some .write =>
    let (args, file) := scanNumbers 3 file
    some ({ ins with opcode := .write }.store args, opcode', file)

/-- The loop of `load` from the instruction `i` on, with the number of turns left. -/
def loadLoop (text : ℕ → InstT) : ℕ → ℕ → Token → List Token → Option (List InstT)
  | 0, _, _, _ => some []
  | n + 1, i, opcode, file =>
    match loadTurn (text i) opcode file with
    | none => none
    | some (ins, opcode, file) => (loadLoop text n (i + 1) opcode file).map (ins :: ·)

/-- What the memory that `load` does not initialise holds. -/
structure LoadMem where
  /-- `proc->priority`. -/
  priority : Word
  /-- `proc->code->size`. -/
  size : Word
  /-- `proc->code->text`. -/
  text : ℕ → InstT
  /-- `opcode`. -/
  opcode : Token

/-- What `load` reads from the file. -/
structure LoadedPcb where
  /-- `priority`. -/
  priority : Word
  /-- `code->size`. -/
  size : Word
  /-- `code->text`. -/
  text : List InstT

/-- `load`, from the opened file on. -/
def load (mem : LoadMem) (file : List Token) : Option LoadedPcb :=
  let (header, file) := scanNumbers 2 file
  let priority := (header[0]?.map toUnsigned).getD mem.priority
  let size := (header[1]?.map toUnsigned).getD mem.size
  (loadLoop mem.text size.toNat 0 mem.opcode file).map fun text => ⟨priority, size, text⟩

/-! ## What a file contains -/

/-- The number of operands. -/
def Opcode.arity : Opcode → ℕ
  | .calc => 0
  | .alloc => 2
  | .free => 1
  | .read => 3
  | .write => 3

/-- An instruction of a file. -/
structure Statement where
  /-- Its opcode. -/
  opcode : Opcode
  /-- Its operands. -/
  operands : List ℤ
  deriving DecidableEq

/-- The first `n` instructions of a file, if it contains so many complete ones. -/
def instructions : ℕ → List Token → Option (List Statement)
  | 0, _ => some []
  | _ + 1, [] => none
  | n + 1, word :: file =>
    match getOpcode word with
    | none => none
    | some op =>
      match numerals op.arity file with
      | none => none
      | some (vs, file) => (instructions n file).map (⟨op, vs⟩ :: ·)

/-- The operands that `run` passes on. -/
def InstT.operands (ins : InstT) : List Word := [ins.arg0, ins.arg1, ins.arg2].take ins.opcode.arity

/-- The instruction of a code segment is that of the file. -/
structure InstT.Is (ins : InstT) (st : Statement) : Prop where
  /-- The opcode. -/
  opcode : ins.opcode = st.opcode
  /-- The operands. -/
  operands : ins.operands.map (fun w => (w.toNat : ℤ)) = st.operands

/-- Every operand is one that `uint32_t` has. -/
def Statement.InRange (st : Statement) : Prop := ∀ v ∈ st.operands, 0 ≤ v ∧ v < 2 ^ 32

/-- Read statement by statement, a word and as many of its operands as can be read, one of the
first `n` statements of the file starts with a word that is no opcode. -/
def StartsWrong : ℕ → List Token → Prop
  | 0, _ => False
  | _ + 1, [] => False
  | n + 1, word :: file =>
    match getOpcode word with
    | none => True
    | some op => StartsWrong n (scanNumbers op.arity file).2

/-! ## One instruction -/

variable {text : ℕ → InstT} {n i : ℕ} {opcode word : Token} {file : List Token} {op : Opcode}
  {ins : InstT}

/-- A turn reads a word and as many operands as its opcode has. -/
lemma loadTurn_cons (hop : getOpcode word = some op) :
    loadTurn ins opcode (word :: file) =
      some ({ ins with opcode := op }.store (scanNumbers op.arity file).1, word,
        (scanNumbers op.arity file).2) := by
  have hword : getOpcode ((scanWord (word :: file)).1.getD opcode) = some op := hop
  unfold loadTurn
  dsimp only
  rw [hword]
  cases op <;> rfl

/-- A word that is no opcode ends the program. -/
lemma loadTurn_cons_none (hop : getOpcode word = none) :
    loadTurn ins opcode (word :: file) = none := by
  have hword : getOpcode ((scanWord (word :: file)).1.getD opcode) = none := hop
  unfold loadTurn
  dsimp only
  rw [hword]

/-- At the end of the file the word in the buffer stands for another opcode, and nothing is stored
in the arguments. -/
lemma loadTurn_nil (hop : getOpcode opcode = some op) :
    loadTurn ins opcode [] = some ({ ins with opcode := op }, opcode, []) := by
  have hword : getOpcode ((scanWord []).1.getD opcode) = some op := hop
  unfold loadTurn
  dsimp only
  rw [hword]
  cases op <;> rfl

/-- The operands of an instruction that were all read. -/
lemma operands_store (ins : InstT) {vs : List ℤ} (hlen : vs.length = op.arity) :
    ({ ins with opcode := op }.store vs).opcode = op ∧
    ({ ins with opcode := op }.store vs).operands = vs.map toUnsigned := by
  cases op
  · obtain rfl := List.length_eq_zero_iff.mp hlen
    exact ⟨rfl, rfl⟩
  · obtain ⟨a, b, rfl⟩ := List.length_eq_two.mp hlen
    exact ⟨rfl, rfl⟩
  · obtain ⟨a, rfl⟩ := List.length_eq_one_iff.mp hlen
    exact ⟨rfl, rfl⟩
  · obtain ⟨a, b, d, rfl⟩ := List.length_eq_three.mp hlen
    exact ⟨rfl, rfl⟩
  · obtain ⟨a, b, d, rfl⟩ := List.length_eq_three.mp hlen
    exact ⟨rfl, rfl⟩

/-! ## The loop -/

/-- At the end of the file, the last opcode is repeated with the operands that the memory held. -/
lemma loadLoop_nil (hop : getOpcode opcode = some op) :
    loadLoop text n i opcode [] =
      some ((List.range' i n).map fun j => { text j with opcode := op }) := by
  induction n generalizing i with
  | zero => rfl
  | succ n ih =>
    unfold loadLoop
    rw [loadTurn_nil hop]
    dsimp only
    rw [ih]
    rfl

/-- A statement that starts with no opcode ends the program. -/
lemma loadLoop_of_startsWrong (h : StartsWrong n file) : loadLoop text n i opcode file = none := by
  induction n generalizing i opcode file with
  | zero => exact absurd h id
  | succ n ih =>
    cases file with
    | nil => exact absurd h id
    | cons word file =>
      unfold StartsWrong at h
      unfold loadLoop
      cases hop : getOpcode word with
      | none => rw [loadTurn_cons_none hop]
      | some op =>
        rw [hop] at h
        rw [loadTurn_cons hop]
        dsimp only
        rw [ih h]
        rfl

/-- Otherwise the loop comes to its end, if the buffer held an opcode. -/
lemma exists_loadLoop_of_not_startsWrong (text : ℕ → InstT) (i : ℕ) (h : ¬ StartsWrong n file)
    (hop : getOpcode opcode = some op) : ∃ code, loadLoop text n i opcode file = some code := by
  induction n generalizing i opcode file op with
  | zero => exact ⟨[], rfl⟩
  | succ n ih =>
    cases file with
    | nil => exact ⟨_, loadLoop_nil hop⟩
    | cons word file =>
      unfold StartsWrong at h
      unfold loadLoop
      cases hword : getOpcode word with
      | none =>
        rw [hword] at h
        exact absurd trivial h
      | some op' =>
        rw [hword] at h
        obtain ⟨code, hcode⟩ := ih (i + 1) h hword
        rw [loadTurn_cons hword]
        dsimp only
        rw [hcode]
        exact ⟨_, rfl⟩

/-- Complete instructions are stored with what `%u` makes of their operands. -/
lemma loadLoop_of_instructions (text : ℕ → InstT) (i : ℕ) (opcode : Token)
    {sts : List Statement} (h : instructions n file = some sts) :
    ∃ code, loadLoop text n i opcode file = some code ∧
      List.Forall₂ (fun ins st => ins.opcode = st.opcode ∧
        ins.operands = st.operands.map toUnsigned) code sts := by
  induction n generalizing i opcode file sts with
  | zero =>
    obtain rfl := Option.some.inj h
    exact ⟨[], rfl, List.Forall₂.nil⟩
  | succ n ih =>
    cases file with
    | nil => exact absurd h (by simp [instructions])
    | cons word file =>
      unfold instructions at h
      split at h
      · exact absurd h (by simp)
      · next op hop =>
        split at h
        · exact absurd h (by simp)
        · next vs rest hvs =>
          obtain ⟨sts, hsts, rfl⟩ := Option.map_eq_some_iff.mp h
          obtain ⟨code, hcode, hall⟩ := ih (i + 1) word hsts
          have hstored := operands_store (text i) (length_of_numerals hvs)
          refine ⟨_, ?_, List.Forall₂.cons hstored hall⟩
          unfold loadLoop
          rw [loadTurn_cons hop, scanNumbers_of_numerals hvs]
          dsimp only
          rw [hcode]
          rfl

/-! ## The files that are loaded as they are -/

/-- A code segment that `load` returns for a file with the given words behind its header holds the
first `n` instructions of the file. -/
def LoadsOwn (header : Token × Token) (n : ℕ) (file : List Token) : Prop :=
  ∀ mem pcb, load mem (header.1 :: header.2 :: file) = some pcb →
    ∃ sts, instructions n file = some sts ∧ List.Forall₂ InstT.Is pcb.text sts

/-- An instruction whose operands were all read is that of the file if and only if they are in
range. -/
lemma is_iff_inRange {st : Statement} (hop : ins.opcode = st.opcode)
    (hargs : ins.operands = st.operands.map toUnsigned) : ins.Is st ↔ st.InRange := by
  have hmap : ins.operands.map (fun w => (w.toNat : ℤ)) =
      st.operands.map fun v => ((toUnsigned v).toNat : ℤ) := by
    rw [hargs, List.map_map]
    rfl
  have hown : ins.operands.map (fun w => (w.toNat : ℤ)) = st.operands ↔ st.InRange := by
    rw [hmap]
    nth_rewrite 2 [← List.map_id st.operands]
    rw [List.map_inj_left]
    exact forall₂_congr fun v _ => toNat_toUnsigned_iff v
  exact ⟨fun h => hown.mp h.operands, fun h => ⟨hop, hown.mpr h⟩⟩

/-- The same of all instructions. -/
lemma forall₂_is_iff {code : List InstT} {sts : List Statement}
    (h : List.Forall₂ (fun ins st => ins.opcode = st.opcode ∧
      ins.operands = st.operands.map toUnsigned) code sts) :
    List.Forall₂ InstT.Is code sts ↔ ∀ st ∈ sts, st.InRange := by
  induction h with
  | nil => simp
  | cons hstored _ ih =>
    rw [List.forall₂_cons, List.forall_mem_cons, is_iff_inRange hstored.1 hstored.2, ih]

/-- The loop runs on what follows the header. -/
lemma load_header {prio count : Token} {p : ℤ} (hprio : numeral prio = some p)
    (hcount : numeral count = some (n : ℤ)) (hn : n < 2 ^ 32) (file : List Token)
    (mem : LoadMem) :
    load mem (prio :: count :: file) =
      (loadLoop mem.text n 0 mem.opcode file).map fun text =>
        ⟨toUnsigned p, BitVec.ofNat 32 n, text⟩ := by
  have hheader : numerals 2 (prio :: count :: file) = some ([p, n], file) := by
    simp only [numerals, hprio, hcount]
  have hsize : toUnsigned (n : ℤ) = BitVec.ofNat 32 n := by
    unfold toUnsigned
    rw [if_pos (by omega)]
    exact BitVec.ofInt_natCast 32 n
  have htoNat : (BitVec.ofNat 32 n).toNat = n := by
    rw [BitVec.toNat_ofNat]
    omega
  unfold load
  rw [scanNumbers_of_numerals hheader]
  simp only [List.getElem?_cons_zero, List.getElem?_cons_succ, Option.map_some, Option.getD_some,
    hsize, htoNat]

/-- What `load` returns is the first instructions of the file with their own operands if and only
if these are complete and in range, or a statement starts with no opcode. -/
theorem load_exact_iff {prio count : Token} {p : ℤ} (hprio : numeral prio = some p)
    (hcount : numeral count = some (n : ℤ)) (hn : n < 2 ^ 32) (file : List Token) :
    LoadsOwn (prio, count) n file ↔
      (∃ sts, instructions n file = some sts ∧ ∀ st ∈ sts, st.InRange) ∨ StartsWrong n file := by
  have hload := load_header hprio hcount hn file
  constructor
  · intro h
    by_cases hwrong : StartsWrong n file
    · exact .inr hwrong
    · -- a buffer that holds an opcode, so that `load` returns
      set mem : LoadMem := ⟨0, 0, fun _ => ⟨.calc, 0, 0, 0⟩, optCalc⟩ with hmem
      obtain ⟨code, hcode⟩ := exists_loadLoop_of_not_startsWrong mem.text 0 hwrong
        (show getOpcode mem.opcode = some .calc by decide)
      have hret := hload mem
      rw [hcode] at hret
      obtain ⟨sts, hsts, hown⟩ := h mem _ hret
      obtain ⟨code', hcode', hstored⟩ := loadLoop_of_instructions mem.text 0 mem.opcode hsts
      obtain rfl := Option.some.inj (hcode'.symm.trans hcode)
      exact .inl ⟨sts, hsts, (forall₂_is_iff hstored).mp hown⟩
  · rintro (⟨sts, hsts, hrange⟩ | hwrong)
    · intro mem pcb hret
      obtain ⟨code, hcode, hstored⟩ := loadLoop_of_instructions mem.text 0 mem.opcode hsts
      rw [hload mem, hcode] at hret
      obtain rfl := Option.some.inj hret
      exact ⟨sts, hsts, (forall₂_is_iff hstored).mpr hrange⟩
    · intro mem pcb hret
      rw [hload mem, loadLoop_of_startsWrong hwrong] at hret
      exact absurd hret (by simp)

/-- A file with a header and two complete instructions. -/
theorem load_exact_two : LoadsOwn (['1'], ['2']) 2 [optCalc, optFree, ['0']] := by
  have hprio : numeral ['1'] = some 1 := by decide
  have hcount : numeral ['2'] = some ((2 : ℕ) : ℤ) := by decide
  have hiff := load_exact_iff hprio hcount (by decide) [optCalc, optFree, ['0']]
  refine hiff.mpr (.inl ⟨[⟨.calc, []⟩, ⟨.free, [0]⟩], by decide, fun st hst v hv => ?_⟩)
  simp only [List.mem_cons, List.not_mem_nil, or_false] at hst
  rcases hst with rfl | rfl
  · exact absurd hv List.not_mem_nil
  · obtain rfl := List.mem_singleton.mp hv
    decide

/-- The words of the file `m0s` behind its header. -/
def m0s : List Token :=
  [optAlloc, ['3', '0', '0'], ['0'],
   optAlloc, ['1', '0', '0'], ['1'],
   optFree, ['0'],
   optAlloc, ['1', '0', '0'], ['2'],
   optWrite, ['1', '0', '2'], ['1'], ['2', '0'],
   optWrite, ['1'], ['2'], ['1', '0', '0', '0']]

/-- The file `m0s` has six instructions and declares seven. -/
theorem not_loadsOwn_m0s : ¬ ∀ (prio count : Token) (p : ℤ) (n : ℕ) (file : List Token),
    numeral prio = some p → numeral count = some (n : ℤ) → n < 2 ^ 32 →
    LoadsOwn (prio, count) n file := by
  intro h
  have hown := h ['1'] ['7'] 1 7 m0s (by decide) (by decide) (by decide)
  have hfew : instructions 7 m0s = none := by decide
  obtain ⟨pcb, hload⟩ := Option.isSome_iff_exists.mp
    (show (load ⟨0, 0, fun _ => ⟨.calc, 0, 0, 0⟩, []⟩ (['1'] :: ['7'] :: m0s)).isSome by decide)
  obtain ⟨sts, hsts, -⟩ := hown _ pcb hload
  exact absurd (hfew.symm.trans hsts) (by simp)

end Ossim
