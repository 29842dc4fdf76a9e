import Ossim.Os.Ownership
import Ossim.Tlb.System

/-!
# The threads and the memory they share

The threads say when a CPU executes which instruction of which process, and the processes with their
shared memory say what an instruction does.  A machine consists of both: a step of a thread that
executes an instruction also changes the memory, every other step leaves it alone.

The processes are numbered as in the configuration.  The loader calls `init_mm` for a process
before the process can execute anything, so here all address spaces are initialised from the start.
-/

namespace Ossim

namespace OsState

variable {m : ℕ} {cfg : OsConfig} {s s' : OsState m} {a : OsAct m}

/-- The process and the index of the instruction that a step executes. -/
def executes (s : OsState m) : OsAct m → Option (ℕ × ℕ)
  | .cpu c =>
    match (s.cpu c).loc with
    | .exec ins => (s.cpu c).proc.map fun p => (p, ins)
    | _ => none
  | _ => none

/-- The process that a step frees as finished. -/
def frees (cfg : OsConfig) (s : OsState m) : OsAct m → Option ℕ
  | .cpu c =>
    match (s.cpu c).loc with
    | .head => (s.cpu c).proc.filter fun p => s.pc p = cfg.codeSize p
    | _ => none
  | _ => none

/-- A step executes an instruction of a process that a CPU holds, or frees a process, or neither. -/
lemma Step.executes_or_frees (ht : Step cfg s a s') :
    (∃ p ins, s.executes a = some (p, ins) ∧ (∃ c, (s.cpu c).holds = some p) ∧
      s'.finished = s.finished) ∨
    s.executes a = none ∧ (s'.finished = s.finished ∨
      ∃ p, s.frees cfg a = some p ∧ s'.finished = p ::ₘ s.finished) := by
  cases ht with
  | exec c p ins hloc hproc =>
    exact .inl ⟨p, ins, by simp [executes, hloc, hproc], ⟨c, by simp [Cpu.holds, hloc, hproc]⟩, rfl⟩
  | free c p hloc hproc hpc =>
    exact .inr ⟨by simp [executes, hloc], .inr ⟨p, by simp [frees, hloc, hproc, hpc], rfl⟩⟩
  | noProc c hloc => exact .inr ⟨by simp [executes, hloc], .inl rfl⟩
  | put c p hloc => exact .inr ⟨by simp [executes, hloc], .inl rfl⟩
  | keep c p hloc => exact .inr ⟨by simp [executes, hloc], .inl rfl⟩
  | getFirst c hloc => exact .inr ⟨by simp [executes, hloc], .inl rfl⟩
  | getFinished c hloc => exact .inr ⟨by simp [executes, hloc], .inl rfl⟩
  | getPut c hloc => exact .inr ⟨by simp [executes, hloc], .inl rfl⟩
  | stop c hloc => exact .inr ⟨by simp [executes, hloc], .inl rfl⟩
  | skip c hloc => exact .inr ⟨by simp [executes, hloc], .inl rfl⟩
  | dispatch c p hloc => exact .inr ⟨by simp [executes, hloc], .inl rfl⟩
  | runEnd c p hloc => exact .inr ⟨by simp [executes, hloc], .inl rfl⟩
  | fetch c p hloc => exact .inr ⟨by simp [executes, hloc], .inl rfl⟩
  | call c hloc => exact .inr ⟨by simp [executes, hloc], .inl rfl⟩
  | detach c hloc => exact .inr ⟨by simp [executes, hloc], .inl rfl⟩
  | _ => exact .inr ⟨rfl, .inl rfl⟩

end OsState

/-- The threads, and the processes with the memory they share. -/
structure Machine (m : ℕ) where
  /-- The threads. -/
  os : OsState m
  /-- The processes and their memory. -/
  sys : TlbSys ℕ

/-- The memory after a step of a thread, where `code` gives the instructions of each process. -/
def Machine.memoryAfter {m : ℕ} (code : ℕ → ℕ → Inst) (M : Machine m) (a : OsAct m × Byte) :
    TlbSys ℕ :=
  match M.os.executes a.1 with
  | some (p, ins) => M.sys.run p (code p ins) a.2
  | none => M.sys

/-- All interleavings of the CPUs, the loader and the clock, on the processes' memory. -/
def machineSystem (cfg : OsConfig) (code : ℕ → ℕ → Inst) (m : ℕ) :
    LTS (Machine m) (OsAct m × Byte) where
  start M := M.os.Initial ∧ (instSystem ℕ).start M.sys
  step M a M' := OsState.Step cfg M.os a.1 M'.os ∧ M'.sys = M.memoryAfter code a

end Ossim
