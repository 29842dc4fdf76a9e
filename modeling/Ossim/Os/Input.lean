import Ossim.Os.Config
import Ossim.Os.Main

/-!
# From the input files to the executed instructions

`main` reads the configuration, starts as many CPUs as it says, and the loader reads the file of
each process.  For complete files with numbers in range, whatever the memory held that the two
readers do not initialise, every run of the simulation executes of every process the instructions
that its file contains, in their order (`executed_of_input`).  As in `Ossim.Os.Model`, this is about
C for files whose instructions keep to the registers 0 to 9 and the region ids 0 to 29: there a READ
into a register behind them stores on the program counter.
-/

namespace Ossim

open Scan

/-! ## The code -/

/-- `struct pcb_t`, as far as `load` and `ld_routine` set it from the files. -/
structure NewPcb where
  /-- `pid`. -/
  pid : Word
  /-- `priority`. -/
  priority : Word
  /-- `prio`. -/
  prio : Word
  /-- `code->size`. -/
  size : Word
  /-- `code->text`. -/
  text : List InstT

/-- One turn of `ld_routine`: the process `i` is loaded from its file and gets its priority; `none`
where `load` exits.  The ids count from 1. -/
def ldProcess (files : List Char → Option (List Token)) (mem : LoadMem) (i : ℕ)
    (entry : ProcEntry) : Option NewPcb := do
  let file ← files entry.path
  let proc ← load mem file
  return {
    pid := BitVec.ofNat 32 (i + 1)
    priority := proc.priority
    prio := entry.prio.setWidth 32
    size := proc.size
    text := proc.text }

/-- The turns of `ld_routine` from the process `i` on. -/
def ldProcesses (files : List Char → Option (List Token)) (mem : ℕ → LoadMem) :
    ℕ → List ProcEntry → Option (List NewPcb)
  | _, [] => some []
  | i, entry :: entries => do
    let proc ← ldProcess files (mem i) i entry
    let procs ← ldProcesses files mem (i + 1) entries
    return proc :: procs

/-- What the threads are started with. -/
def osConfig (conf : Config) (procs : List NewPcb) : OsConfig where
  timeSlot := conf.timeSlot.toInt
  numProcesses := conf.numProcesses.toInt.toNat
  startTime p := (conf.processes[p]?.map fun entry => entry.startTime.toNat).getD 0
  prio p := ⟨(procs[p]?.map fun proc => proc.prio.toNat).getD 0 % maxPrio,
    Nat.mod_lt _ (by decide)⟩
  codeSize p := (procs[p]?.map fun proc => proc.size.toNat).getD 0

/-! ## Complete files -/

/-- The file of a process contains these instructions. -/
def HasCode (files : List Char → Option (List Token)) (line : ProcLine) (sts : List Statement) :
    Prop :=
  ∃ priority size rest p, files (inputProc ++ line.name) = some (priority :: size :: rest) ∧
    numeral priority = some p ∧ numeral size = some (sts.length : ℤ) ∧ sts.length < 2 ^ 32 ∧
    instructions sts.length rest = some sts ∧ ∀ st ∈ sts, st.InRange

/-- The input files contain this configuration and these instructions. -/
structure Describes (config : List Token) (files : List Char → Option (List Token))
    (text : ConfigText) (code : List (List Statement)) : Prop where
  /-- The configuration is complete. -/
  config : configText config = some text
  /-- Its numbers are in range. -/
  inRange : text.InRange
  /-- The priorities have a level. -/
  prio : ∀ line ∈ text.processes, line.prio < maxPrio
  /-- The process files are complete. -/
  code : List.Forall₂ (HasCode files) text.processes code

/-- A process is the one of a line of the configuration, with its code. -/
structure NewPcb.Is (proc : NewPcb) (line : ProcLine) (sts : List Statement) : Prop where
  /-- The priority. -/
  prio : (proc.prio.toNat : ℤ) = line.prio
  /-- The number of instructions. -/
  size : proc.size.toNat = sts.length
  /-- The instructions. -/
  text : List.Forall₂ InstT.Is proc.text sts

variable {config : List Token} {files : List Char → Option (List Token)} {text : ConfigText}
  {code : List (List Statement)} {line : ProcLine} {sts : List Statement}

/-- A complete file is loaded as it is. -/
lemma exists_ldProcess (hcode : HasCode files line sts) (hlo : 0 ≤ line.prio)
    (hhi : line.prio < maxPrio) (mem : LoadMem) (i : ℕ) :
    ∃ proc, ldProcess files mem i line.stored = some proc ∧ proc.pid = BitVec.ofNat 32 (i + 1) ∧
      proc.Is line sts := by
  obtain ⟨priority, size, rest, p, hfile, hpriority, hsize, hlen, hsts, hrange⟩ := hcode
  obtain ⟨text, hloop, hstored⟩ := loadLoop_of_instructions mem.text 0 mem.opcode hsts
  have hload := load_header hpriority hsize hlen rest mem
  rw [hloop] at hload
  have hpath : files line.stored.path = some (priority :: size :: rest) := hfile
  refine ⟨⟨BitVec.ofNat 32 (i + 1), toUnsigned p, line.stored.prio.setWidth 32,
    BitVec.ofNat 32 sts.length, text⟩, ?_, rfl, ?_, ?_, ?_⟩
  · unfold ldProcess
    rw [hpath]
    dsimp only [Option.bind_eq_bind, Option.bind_some]
    rw [hload]
    rfl
  · have hprio : (line.stored.prio.toNat : ℤ) = line.prio :=
      (toNat_toUnsignedLong_iff _).mpr ⟨hlo, by norm_num at hhi ⊢; omega⟩
    have hmax : (maxPrio : ℤ) = 140 := rfl
    simp only [BitVec.toNat_setWidth]
    omega
  · show (BitVec.ofNat 32 sts.length).toNat = sts.length
    rw [BitVec.toNat_ofNat]
    omega
  · exact (forall₂_is_iff hstored).mpr hrange

/-- The processes, with the lines of the configuration and the code they come from. -/
structure Loaded (i : ℕ) (lines : List ProcLine) (code : List (List Statement))
    (procs : List NewPcb) : Prop where
  /-- There is one process for each line. -/
  length_lines : procs.length = lines.length
  /-- And one for each file. -/
  length_code : procs.length = code.length
  /-- It comes from them. -/
  own : ∀ (k : ℕ) proc, procs[k]? = some proc → proc.pid = BitVec.ofNat 32 (i + k + 1) ∧
    ∃ line sts, lines[k]? = some line ∧ code[k]? = some sts ∧ proc.Is line sts

lemma exists_ldProcesses {lines : List ProcLine} (hcode : List.Forall₂ (HasCode files) lines code)
    (hprio : ∀ line ∈ lines, 0 ≤ line.prio ∧ line.prio < maxPrio) (mem : ℕ → LoadMem) (i : ℕ) :
    ∃ procs, ldProcesses files mem i (lines.map ProcLine.stored) = some procs ∧
      Loaded i lines code procs := by
  induction hcode generalizing i with
  | nil => exact ⟨[], rfl, rfl, rfl, fun k proc hk => by simp at hk⟩
  | @cons line sts lines code hline _ ih =>
    obtain ⟨hlo, hhi⟩ := hprio line List.mem_cons_self
    obtain ⟨proc, hproc, hpid, his⟩ := exists_ldProcess hline hlo hhi (mem i) i
    obtain ⟨procs, hprocs, hlines, hcode, hown⟩ :=
      ih (fun line hline => hprio line (List.mem_cons_of_mem _ hline)) (i + 1)
    refine ⟨proc :: procs, ?_, by simp [hlines], by simp [hcode], fun k proc' hk => ?_⟩
    · rw [List.map_cons, ldProcesses, hproc, Option.bind_eq_bind, Option.bind_some, hprocs]
      rfl
    · cases k with
      | zero =>
        obtain rfl := Option.some.inj hk
        exact ⟨hpid, line, sts, rfl, rfl, his⟩
      | succ k =>
        obtain ⟨hpid', line', sts', hline', hsts', his'⟩ := hown k proc' hk
        refine ⟨?_, line', sts', hline', hsts', his'⟩
        rw [hpid', show i + 1 + k + 1 = i + (k + 1) + 1 by omega]

/-! ## The executed instructions -/

/-- All elements of a list, by index. -/
lemma filterMap_range {β : Type*} (l : List β) : (List.range l.length).filterMap (l[·]?) = l := by
  induction l using List.reverseRecOn with
  | nil => rfl
  | append_singleton l x ih =>
    rw [List.length_append, List.length_singleton, List.range_succ, List.filterMap_append]
    have hsame : (List.range l.length).filterMap ((l ++ [x])[·]?) =
        (List.range l.length).filterMap (l[·]?) := by
      refine List.filterMap_congr fun k hk => ?_
      exact List.getElem?_append_left (List.mem_range.mp hk)
    rw [hsame, ih]
    simp

/-- A sum over all elements of a list, by index. -/
lemma sum_range_eq {β : Type*} (l : List β) (f : β → ℕ) (F : ℕ → ℕ)
    (hF : ∀ k x, l[k]? = some x → F k = f x) :
    ∑ k ∈ Finset.range l.length, F k = (l.map f).sum := by
  induction l using List.reverseRecOn with
  | nil => rfl
  | append_singleton l x ih =>
    have hrest := ih fun k y hk => hF k y (by
      rw [List.getElem?_append_left (List.getElem?_eq_some_iff.mp hk).1, hk])
    rw [List.length_append, List.length_singleton, Finset.sum_range_succ, hrest,
      hF l.length x (by simp)]
    simp

/-- How many indices have an element of some kind. -/
lemma card_filter_range {β : Type*} (l : List β) (P : β → Prop) [DecidablePred P] (Q : ℕ → Prop)
    [DecidablePred Q] (hQ : ∀ k x, l[k]? = some x → (Q k ↔ P x)) :
    ((Finset.range l.length).filter Q).card = l.countP P := by
  have hcount : ∀ l : List β, l.countP P = (l.map fun x => if P x then 1 else 0).sum := by
    intro l
    induction l with
    | nil => rfl
    | cons x l ih => simp [List.countP_cons, ih, add_comm]
  rw [Finset.card_filter, hcount]
  refine sum_range_eq l _ _ fun k x hk => ?_
  simp only [hQ k x hk]

/-- The instructions of a process that were executed, in order. -/
def executedCode {m : ℕ} (s : OsState m) (procs : List NewPcb) (p : ℕ) : List InstT :=
  (s.executed p).filterMap fun k => (procs[p]?.bind fun proc => proc.text[k]?)

section

variable {procs : List NewPcb} {k : ℕ} {proc : NewPcb}

/-- The configuration that the threads are started with. -/
lemma osConfig_numProcesses (h : Describes config files text code) (procs : List NewPcb) :
    (osConfig text.stored procs).numProcesses = text.numProcesses.toNat := by
  show (toSigned text.numProcesses).toInt.toNat = _
  rw [(toInt_toSigned_iff _).mpr (h.inRange.int _ (by simp))]

/-- A file has as many processes as it says. -/
lemma length_procLines {n : ℕ} {file : List Token} {lines : List ProcLine}
    (h : procLines n file = some lines) : lines.length = n := by
  induction n generalizing file lines with
  | zero =>
    obtain rfl := Option.some.inj h
    rfl
  | succ n ih =>
    match file, h with
    | startTime :: name :: prio :: file, h =>
      unfold procLines at h
      split at h
      · obtain ⟨rest, hrest, rfl⟩ := Option.map_eq_some_iff.mp h
        rw [List.length_cons, ih hrest]
      · exact absurd h (by simp)

lemma length_processes {file : List Token} (h : configText file = some text) :
    text.processes.length = text.numProcesses.toNat := by
  obtain ⟨rest, hlines, -⟩ := readConfig_of_text h ⟨fun _ => 0, fun _ => 0, fun _ => []⟩
  exact length_procLines hlines

/-- The level of a process is the priority in its line. -/
lemma osConfig_prio (hload : Loaded 0 text.processes code procs) (conf : Config)
    (hprio : ∀ line ∈ text.processes, line.prio < maxPrio) {line : ProcLine}
    (hline : text.processes[k]? = some line) :
    (((osConfig conf procs).prio k : ℕ) : ℤ) = line.prio := by
  have hk : k < procs.length := by
    rw [hload.length_lines]
    exact (List.getElem?_eq_some_iff.mp hline).1
  obtain ⟨-, line', sts, hline', -, his⟩ := hload.own k _ (List.getElem?_eq_getElem hk)
  obtain rfl := Option.some.inj (hline.symm.trans hline')
  have hhi := hprio line (List.mem_of_getElem? hline)
  have hown := his.prio
  have hlt : (procs[k]).prio.toNat < maxPrio := by omega
  simp only [osConfig, List.getElem?_eq_getElem hk, Option.map_some, Option.getD_some,
    Nat.mod_eq_of_lt hlt]
  exact hown

/-- If the file has at most `MAX_QUEUE_SIZE` processes of each priority, they fit into their
levels. -/
lemma osConfig_fits (h : Describes config files text code)
    (hload : Loaded 0 text.processes code procs)
    (hfits : ∀ q : ℤ, text.processes.countP (·.prio = q) ≤ maxQueueSize) :
    (osConfig text.stored procs).Fits := by
  intro q
  rw [osConfig_numProcesses h, ← length_processes h.config]
  refine le_trans (le_of_eq ?_) (hfits (q : ℕ))
  refine card_filter_range _ _ _ fun k line hline => ?_
  rw [← osConfig_prio hload text.stored h.prio hline]
  constructor
  · intro heq
    rw [heq]
  · intro heq
    exact Fin.ext (by exact_mod_cast heq)

/-- For complete input files with numbers in range and at most `MAX_QUEUE_SIZE` processes of each
priority, whatever the memory held that the readers do not initialise: all processes are loaded,
with ids from 1 on, and in every run of the simulation, each process has executed the instructions
that its file contains, in their order, when as many slots have passed behind the last arrival as
there are instructions, a file without any counting as one, and when `main` has returned. -/
theorem executed_of_input (h : Describes config files text code)
    (hfits : ∀ q : ℤ, text.processes.countP (·.prio = q) ≤ maxQueueSize) (cmem : ConfigMem)
    (lmem : ℕ → LoadMem) :
    ∃ procs, ldProcesses files lmem 0 (readConfig cmem config).processes = some procs ∧
      procs.length = code.length ∧
      (∀ (p : ℕ) proc, procs[p]? = some proc → proc.pid = BitVec.ofNat 32 (p + 1)) ∧
      (0 < text.numCpus → ∀ s,
      (simulation (osConfig (readConfig cmem config) procs)
        (readConfig cmem config).numCpus.toInt.toNat).Reachable s →
      (ready (osConfig (readConfig cmem config) procs).startTime procs.length +
        (code.map fun sts => max sts.length 1).sum ≤ s.clocked.timer.time ∨
          s.main = .returned) →
      ∀ (p : ℕ) sts, code[p]? = some sts →
        List.Forall₂ InstT.Is (executedCode s.clocked.os procs p) sts) := by
  have hprio : ∀ line ∈ text.processes, 0 ≤ line.prio ∧ line.prio < maxPrio := fun line hline =>
    ⟨(h.inRange.long line hline).2.1, h.prio line hline⟩
  obtain ⟨procs, hprocs, hload⟩ := exists_ldProcesses h.code hprio lmem 0
  rw [readConfig_of_inRange h.config h.inRange]
  refine ⟨procs, hprocs, hload.length_code, fun p proc hp => ?_, ?_⟩
  · rw [(hload.own p proc hp).1, Nat.zero_add]
  intro hcpus s hs hdone p sts hsts
  have hm : 0 < text.stored.numCpus.toInt.toNat := by
    rw [(stored_is_of_inRange h.inRange).numCpus]
    omega
  have hnum : (osConfig text.stored procs).numProcesses = procs.length := by
    rw [osConfig_numProcesses h, ← length_processes h.config, hload.length_lines]
  have hsize : ∀ (k : ℕ) sts, code[k]? = some sts →
      ∃ proc, procs[k]? = some proc ∧ (osConfig text.stored procs).codeSize k = sts.length ∧
        List.Forall₂ InstT.Is proc.text sts := by
    intro k sts hk
    have hlt : k < procs.length := by
      rw [hload.length_code]
      exact (List.getElem?_eq_some_iff.mp hk).1
    have hproc := List.getElem?_eq_getElem hlt
    obtain ⟨-, line, sts', -, hsts', his⟩ := hload.own k _ hproc
    obtain rfl := Option.some.inj (hk.symm.trans hsts')
    refine ⟨_, hproc, ?_, his.text⟩
    simp only [osConfig, hproc, Option.map_some, Option.getD_some]
    exact his.size
  have hwork : (osConfig text.stored procs).totalWork =
      (code.map fun sts => max sts.length 1).sum := by
    unfold OsConfig.totalWork
    rw [hnum, hload.length_code]
    refine sum_range_eq code _ _ fun k sts hk => ?_
    obtain ⟨proc, -, hcodeSize, -⟩ := hsize k sts hk
    rw [hcodeSize]
  obtain ⟨proc, hproc, hcodeSize, htext⟩ := hsize p sts hsts
  have hp : p < (osConfig text.stored procs).numProcesses := by
    rw [hnum]
    exact (List.getElem?_eq_some_iff.mp hproc).1
  unfold executedCode
  rw [Simulation.executed_of_done hm (osConfig_fits h hload hfits) hs
    (by rw [hnum, hwork]; exact hdone) hp, hcodeSize, hproc, ← htext.length_eq]
  show List.Forall₂ InstT.Is ((List.range proc.text.length).filterMap (proc.text[·]?)) sts
  rw [filterMap_range]
  exact htext

end

/-- The words of a configuration with one CPU and one process. -/
def configOne : List Token :=
  [['2'], ['1'], ['1'], ['2', '5', '6'], ['2', '5', '6'], ['0'], ['0'], ['0'], ['0'], ['p'], ['3']]

/-- The words of its only file, which has two instructions. -/
def filesOne (path : List Char) : Option (List Token) :=
  if path = inputProc ++ ['p'] then some [['1'], ['2'], optCalc, optFree, ['0']] else none

lemma describes_configOne : Describes configOne filesOne
    ⟨2, 1, 1, 256, [256, 0, 0, 0], [⟨0, ['p'], 3⟩]⟩ [[⟨.calc, []⟩, ⟨.free, [0]⟩]] where
  config := by decide
  inRange := ⟨by decide, by decide⟩
  prio := by decide
  code := by
    refine .cons ⟨['1'], ['2'], [optCalc, optFree, ['0']], 1, by decide, by decide, by decide,
      by decide, by decide, ?_⟩ .nil
    simp [Statement.InRange]

/-- The memory holds zeros before the files are read. -/
def zeroConfigMem : ConfigMem := ⟨fun _ => 0, fun _ => 0, fun _ => []⟩

/-- The same of the memory of a process. -/
def zeroLoadMem : LoadMem := ⟨0, 0, fun _ => ⟨.calc, 0, 0, 0⟩, []⟩

/-- The two instructions are executed by the end of the third slot, and when `main` returns. -/
theorem executed_of_input_configOne :
    ∃ procs, ldProcesses filesOne (fun _ => zeroLoadMem) 0
        (readConfig zeroConfigMem configOne).processes = some procs ∧
      ∀ s, (simulation (osConfig (readConfig zeroConfigMem configOne) procs)
        (readConfig zeroConfigMem configOne).numCpus.toInt.toNat).Reachable s →
      3 ≤ s.clocked.timer.time ∨ s.main = .returned →
      List.Forall₂ InstT.Is (executedCode s.clocked.os procs 0)
        [⟨.calc, []⟩, ⟨.free, [0]⟩] := by
  have hfits : ∀ q : ℤ, ([⟨0, ['p'], 3⟩] : List ProcLine).countP (·.prio = q) ≤ maxQueueSize :=
    fun q => List.countP_le_length.trans (by decide)
  obtain ⟨procs, hprocs, hlen, -, hrun⟩ :=
    executed_of_input describes_configOne hfits zeroConfigMem fun _ => zeroLoadMem
  refine ⟨procs, hprocs, fun s hs hdone => ?_⟩
  refine hrun (by decide) s hs ?_ 0 _ rfl
  rw [hlen]
  exact hdone

end Ossim
