import Ossim.Os.Loader

/-!
# Configuration files

`read_config` of `src/os.c`.  It drops the results of `fscanf` like `load`: a number that cannot be
read leaves its target as it is, which is 0 for the static variables and what the memory held
before for the start time, the priority and the name of a process (`ConfigMem`).

`configText` says what a file contains.  `readConfig_exact_iff` says which files are read as they
are, whatever the memory held.

The memory behind the two buffers is not modelled: a name of more than 88 characters, for which the
path does not fit into its 100 bytes, is kept as it is.
-/

namespace Ossim

open Scan

/-! ## The code -/

/-- `PAGING_MAX_MMSWP`. -/
abbrev pagingMaxMmswp : ℕ := 4

/-- The directory of the process files. -/
def inputProc : List Char := ['i', 'n', 'p', 'u', 't', '/', 'p', 'r', 'o', 'c', '/']

/-- An element of each of the arrays of `ld_processes`. -/
structure ProcEntry where
  /-- `start_time`. -/
  startTime : BitVec 64
  /-- `path`. -/
  path : List Char
  /-- `prio`. -/
  prio : BitVec 64
  deriving DecidableEq

/-- The variables that `read_config` sets. -/
structure Config where
  /-- `time_slot`. -/
  timeSlot : Word
  /-- `num_cpus`. -/
  numCpus : Word
  /-- `num_processes`. -/
  numProcesses : Word
  /-- `tlbsz`. -/
  tlbsz : Word
  /-- `memramsz`. -/
  memramsz : Word
  /-- `memswpsz`. -/
  memswpsz : List Word
  /-- `ld_processes`. -/
  processes : List ProcEntry
  deriving DecidableEq

/-- What the memory that `read_config` does not initialise holds. -/
structure ConfigMem where
  /-- `ld_processes.start_time`. -/
  startTime : ℕ → BitVec 64
  /-- `ld_processes.prio`. -/
  prio : ℕ → BitVec 64
  /-- `proc`, in each turn of the loop. -/
  proc : ℕ → Token

/-- Calls with one conversion each. -/
def scanEach : ℕ → List Token → List (Option ℤ) × List Token
  | 0, file => ([], file)
  | k + 1, file =>
    let (v, file) := scanUnsigned file
    ((v :: (scanEach k file).1), (scanEach k file).2)

/-- The call that reads a process: what it stores and what it leaves of the file. -/
def scanEntry (file : List Token) : Option ℤ × Option Token × Option ℤ × List Token :=
  match scanUnsigned file with
  | (none, file) => (none, none, none, file)
  | (some startTime, file) =>
    match scanWord file with
    | (none, file) => (some startTime, none, none, file)
    | (some proc, file) =>
      let (prio, file) := scanUnsigned file
      (some startTime, some proc, prio, file)

/-- The loop of `read_config` from the process `i` on, with the number of turns left. -/
def readProcesses (mem : ConfigMem) : ℕ → ℕ → List Token → List ProcEntry
  | 0, _, _ => []
  | n + 1, i, file =>
    let (startTime, proc, prio, file) := scanEntry file
    { startTime := (startTime.map toUnsignedLong).getD (mem.startTime i)
      path := inputProc ++ proc.getD (mem.proc i)
      prio := (prio.map toUnsignedLong).getD (mem.prio i) } :: readProcesses mem n (i + 1) file

/-- `read_config`, from the opened file on. -/
def readConfig (mem : ConfigMem) (file : List Token) : Config :=
  let (header, file) := scanNumbers 3 file
  let (ram, file) := scanNumbers 1 file
  let (swp, file) := scanEach pagingMaxMmswp file
  let numProcesses := (header[2]?.map toSigned).getD 0
  { timeSlot := (header[0]?.map toSigned).getD 0
    numCpus := (header[1]?.map toSigned).getD 0
    numProcesses := numProcesses
    tlbsz := 0x10000
    memramsz := (ram[0]?.map toSigned).getD 0
    memswpsz := swp.map fun size => (size.map toSigned).getD 0
    processes := readProcesses mem numProcesses.toInt.toNat 0 file }

/-! ## What a file contains -/

/-- A process of a file. -/
structure ProcLine where
  /-- When it starts. -/
  startTime : ℤ
  /-- The name of its file. -/
  name : Token
  /-- Its priority. -/
  prio : ℤ
  deriving DecidableEq

/-- What a file contains. -/
structure ConfigText where
  /-- The time slot. -/
  timeSlot : ℤ
  /-- The number of CPUs. -/
  numCpus : ℤ
  /-- The number of processes. -/
  numProcesses : ℤ
  /-- The size of RAM. -/
  memramsz : ℤ
  /-- The sizes of the swap devices. -/
  memswpsz : List ℤ
  /-- The processes. -/
  processes : List ProcLine
  deriving DecidableEq

/-- The first `n` processes of a file, if it contains so many. -/
def procLines : ℕ → List Token → Option (List ProcLine)
  | 0, _ => some []
  | n + 1, startTime :: name :: prio :: file =>
    match numeral startTime, numeral prio with
    | some s, some q => (procLines n file).map (⟨s, name, q⟩ :: ·)
    | _, _ => none
  | _ + 1, _ => none

/-- The contents of a file, if it is complete. -/
def configText (file : List Token) : Option ConfigText :=
  match numerals 3 file with
  | some ([timeSlot, numCpus, numProcesses], file) =>
    match numerals (pagingMaxMmswp + 1) file with
    | some (memramsz :: memswpsz, file) =>
      (procLines numProcesses.toNat file).map
        (⟨timeSlot, numCpus, numProcesses, memramsz, memswpsz, ·⟩)
    | _ => none
  | _ => none

/-- The process of the configuration is that of the file. -/
structure ProcEntry.Is (entry : ProcEntry) (line : ProcLine) : Prop where
  /-- Its start. -/
  startTime : (entry.startTime.toNat : ℤ) = line.startTime
  /-- Its file. -/
  path : entry.path = inputProc ++ line.name
  /-- Its priority. -/
  prio : (entry.prio.toNat : ℤ) = line.prio

/-- The configuration is that of the file. -/
structure Config.Is (conf : Config) (text : ConfigText) : Prop where
  /-- The time slot. -/
  timeSlot : conf.timeSlot.toInt = text.timeSlot
  /-- The number of CPUs. -/
  numCpus : conf.numCpus.toInt = text.numCpus
  /-- The number of processes. -/
  numProcesses : conf.numProcesses.toInt = text.numProcesses
  /-- The size of RAM. -/
  memramsz : conf.memramsz.toInt = text.memramsz
  /-- The sizes of the swap devices. -/
  memswpsz : conf.memswpsz.map BitVec.toInt = text.memswpsz
  /-- The processes. -/
  processes : List.Forall₂ ProcEntry.Is conf.processes text.processes

/-- Every number is one that its variable has. -/
structure ConfigText.InRange (text : ConfigText) : Prop where
  /-- The `int` variables. -/
  int : ∀ v ∈ text.timeSlot :: text.numCpus :: text.numProcesses :: text.memramsz :: text.memswpsz,
    -2 ^ 31 ≤ v ∧ v < 2 ^ 31
  /-- The `unsigned long` variables. -/
  long : ∀ line ∈ text.processes,
    (0 ≤ line.startTime ∧ line.startTime < 2 ^ 64) ∧ 0 ≤ line.prio ∧ line.prio < 2 ^ 64

/-! ## Reading numerals -/

variable {file rest : List Token} {k n i : ℕ} {mem : ConfigMem}

lemma exists_of_numerals_succ {v : ℤ} {vs : List ℤ}
    (h : numerals (k + 1) file = some (v :: vs, rest)) :
    ∃ tok toks, file = tok :: toks ∧ numeral tok = some v ∧ numerals k toks = some (vs, rest) := by
  cases file with
  | nil => exact absurd h (by simp [numerals])
  | cons tok toks =>
    unfold numerals at h
    split at h
    · next v' vs' rest' hv hvs =>
      simp only [Option.some.injEq, Prod.mk.injEq, List.cons.injEq] at h
      obtain ⟨⟨rfl, rfl⟩, rfl⟩ := h
      exact ⟨tok, toks, rfl, hv, hvs⟩
    · exact absurd h (by simp)

lemma scanEach_of_numerals {vs : List ℤ} (h : numerals k file = some (vs, rest)) :
    scanEach k file = (vs.map some, rest) := by
  induction k generalizing file vs with
  | zero =>
    obtain ⟨rfl, rfl⟩ := Prod.mk.inj (Option.some.inj h)
    rfl
  | succ k ih =>
    have hlen := length_of_numerals h
    obtain ⟨v, vs, rfl⟩ := List.exists_cons_of_length_eq_add_one hlen
    obtain ⟨tok, toks, rfl, hv, hvs⟩ := exists_of_numerals_succ h
    unfold scanEach
    rw [scanUnsigned_of_numeral hv]
    dsimp only
    rw [ih hvs]
    rfl

/-- What is stored for a process. -/
def ProcLine.stored (line : ProcLine) : ProcEntry where
  startTime := toUnsignedLong line.startTime
  path := inputProc ++ line.name
  prio := toUnsignedLong line.prio

lemma readProcesses_of_lines {lines : List ProcLine} (h : procLines n file = some lines) :
    readProcesses mem n i file = lines.map ProcLine.stored := by
  induction n generalizing i file lines with
  | zero =>
    obtain rfl := Option.some.inj h
    rfl
  | succ n ih =>
    match file, h with
    | startTime :: name :: prio :: file, h =>
      unfold procLines at h
      split at h
      · next s q hs hq =>
        obtain ⟨lines, hlines, rfl⟩ := Option.map_eq_some_iff.mp h
        have hentry : scanEntry (startTime :: name :: prio :: file) =
            (some s, some name, some q, file) := by
          simp only [scanEntry, scanUnsigned_of_numeral hs, scanWord,
            scanUnsigned_of_numeral hq]
        unfold readProcesses
        simp only [hentry, ih hlines]
        rfl
      · exact absurd h (by simp)

/-- What is stored for the contents of a file. -/
def ConfigText.stored (text : ConfigText) : Config where
  timeSlot := toSigned text.timeSlot
  numCpus := toSigned text.numCpus
  numProcesses := toSigned text.numProcesses
  tlbsz := 0x10000
  memramsz := toSigned text.memramsz
  memswpsz := text.memswpsz.map toSigned
  processes := text.processes.map ProcLine.stored

/-- The numbers in front of the processes are read, and as many processes as `num_processes` then
says. -/
lemma readConfig_of_text {text : ConfigText} (h : configText file = some text) (mem : ConfigMem) :
    ∃ rest, procLines text.numProcesses.toNat rest = some text.processes ∧
      readConfig mem file = { text.stored with
        processes := readProcesses mem (toSigned text.numProcesses).toInt.toNat 0 rest } := by
  unfold configText at h
  split at h
  · next timeSlot numCpus numProcesses file₁ hheader =>
    split at h
    · next memramsz memswpsz file₂ hsizes =>
      obtain ⟨lines, hlines, rfl⟩ := Option.map_eq_some_iff.mp h
      obtain ⟨tok, toks, rfl, hram, hswp⟩ := exists_of_numerals_succ hsizes
      have hscan : scanNumbers 1 (tok :: toks) = ([memramsz], toks) := by
        simp [scanNumbers, scanUnsigned_of_numeral hram]
      refine ⟨file₂, hlines, ?_⟩
      unfold readConfig
      rw [scanNumbers_of_numerals hheader]
      simp only [hscan, scanEach_of_numerals hswp]
      simp [ConfigText.stored]
    · exact absurd h (by simp)
  · exact absurd h (by simp)

/-! ## The files that are read as they are -/

/-- An `int` variable holds the number of the file if and only if it has such a value. -/
lemma map_toSigned_iff (vs : List ℤ) :
    (vs.map toSigned).map BitVec.toInt = vs ↔ ∀ v ∈ vs, -2 ^ 31 ≤ v ∧ v < 2 ^ 31 := by
  rw [List.map_map]
  nth_rewrite 2 [← List.map_id vs]
  rw [List.map_inj_left]
  exact forall₂_congr fun v _ => toInt_toSigned_iff v

lemma stored_is_iff (line : ProcLine) : line.stored.Is line ↔
    (0 ≤ line.startTime ∧ line.startTime < 2 ^ 64) ∧ 0 ≤ line.prio ∧ line.prio < 2 ^ 64 := by
  constructor
  · intro h
    exact ⟨(toNat_toUnsignedLong_iff _).mp h.startTime, (toNat_toUnsignedLong_iff _).mp h.prio⟩
  · rintro ⟨hstart, hprio⟩
    exact ⟨(toNat_toUnsignedLong_iff _).mpr hstart, rfl, (toNat_toUnsignedLong_iff _).mpr hprio⟩

lemma stored_is_of_inRange {text : ConfigText} (h : text.InRange) : text.stored.Is text where
  timeSlot := (toInt_toSigned_iff _).mpr (h.int _ (by simp))
  numCpus := (toInt_toSigned_iff _).mpr (h.int _ (by simp))
  numProcesses := (toInt_toSigned_iff _).mpr (h.int _ (by simp))
  memramsz := (toInt_toSigned_iff _).mpr (h.int _ (by simp))
  memswpsz := (map_toSigned_iff _).mpr fun v hv => h.int v (by simp [hv])
  processes := by
    show List.Forall₂ ProcEntry.Is (text.processes.map ProcLine.stored) text.processes
    rw [List.forall₂_map_left_iff, List.forall₂_same]
    exact fun line hline => (stored_is_iff line).mpr (h.long line hline)

/-- A file whose numbers are in range is read as it is. -/
lemma readConfig_of_inRange {text : ConfigText} (h : configText file = some text)
    (hrange : text.InRange) (mem : ConfigMem) : readConfig mem file = text.stored := by
  obtain ⟨rest, hlines, hread⟩ := readConfig_of_text h mem
  have hnum : (toSigned text.numProcesses).toInt = text.numProcesses :=
    (stored_is_of_inRange hrange).numProcesses
  rw [hread, hnum, readProcesses_of_lines hlines]
  rfl

/-- The configuration is that of the file, whatever the memory held. -/
def ReadsOwn (file : List Token) : Prop :=
  ∀ mem, ∃ text, configText file = some text ∧ (readConfig mem file).Is text

/-- What `read_config` returns is what the file contains if and only if the file is complete and its
numbers are in range. -/
theorem readConfig_exact_iff (file : List Token) :
    ReadsOwn file ↔ ∃ text, configText file = some text ∧ text.InRange := by
  constructor
  · intro h
    obtain ⟨text, htext, his⟩ := h ⟨fun _ => 0, fun _ => 0, fun _ => []⟩
    refine ⟨text, htext, ?_⟩
    obtain ⟨rest, hlines, hread⟩ := readConfig_of_text htext ⟨fun _ => 0, fun _ => 0, fun _ => []⟩
    rw [hread] at his
    -- the loop makes as many turns as the file says
    have hnum : (toSigned text.numProcesses).toInt = text.numProcesses := his.numProcesses
    have hprocs := his.processes
    rw [hnum, readProcesses_of_lines hlines, List.forall₂_map_left_iff, List.forall₂_same] at hprocs
    refine ⟨fun v hv => ?_, fun line hline => (stored_is_iff line).mp (hprocs line hline)⟩
    simp only [List.mem_cons] at hv
    rcases hv with rfl | rfl | rfl | rfl | hv
    · exact (toInt_toSigned_iff _).mp his.timeSlot
    · exact (toInt_toSigned_iff _).mp his.numCpus
    · exact (toInt_toSigned_iff _).mp hnum
    · exact (toInt_toSigned_iff _).mp his.memramsz
    · exact (map_toSigned_iff _).mp his.memswpsz v hv
  · rintro ⟨text, htext, hrange⟩ mem
    refine ⟨text, htext, ?_⟩
    rw [readConfig_of_inRange htext hrange]
    exact stored_is_of_inRange hrange

/-- The file `os_0_mlq_paging` declares four processes and has two. -/
example : configText [['6'], ['2'], ['4'], ['1', '0', '4', '8', '5', '7', '6'],
    ['1', '6', '7', '7', '7', '2', '1', '6'], ['0'], ['0'], ['0'], ['0'], ['p', '0', 's'], ['0'],
    ['2'], ['p', '1', 's'], ['1', '5']] = none := by decide

end Ossim
