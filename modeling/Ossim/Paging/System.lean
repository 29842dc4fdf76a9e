import Ossim.Lib.Transition
import Ossim.Paging.Effects
import Mathlib.Data.Fintype.Basic

/-!
# Processes that share the memory devices

Any number of processes, each with its own `mm_struct`, use one RAM device and one active swap
device.  Each of the calls `__alloc`, `__free`, `__read` and `__write` holds `mmvm_lock` from
start to end, so an interleaving of the processes is a sequence of calls, each made by one
process.
-/

namespace Ossim

/-- The state of all processes' memory: what they share and what each one owns. -/
structure MemSys (Pid : Type*) where
  /-- Memory management of each process. -/
  mm : Pid → Mm
  /-- The RAM device. -/
  mram : Memphy
  /-- The active swap device. -/
  activeMswp : Memphy

/-- A call of a process, on its area 0. -/
inductive MemCall
  | alloc (rgid size : ℤ)
  | free (rgid : ℤ)
  | read (rgid offset : ℤ)
  | write (rgid offset : ℤ) (value : Byte)
  deriving DecidableEq

/-- Run a call: its status, the byte it delivers, the caller it leaves behind. -/
def MemCall.run : MemCall → Caller → ℤ × Option Byte × Caller
  | .alloc rgid size, c => ((c.alloc 0 rgid size).1, none, (c.alloc 0 rgid size).2.2)
  | .free rgid, c => ((c.free 0 rgid).1, none, (c.free 0 rgid).2)
  | .read rgid offset, c => c.read 0 rgid offset
  | .write rgid offset value, c =>
    ((c.write 0 rgid offset value).1, none, (c.write 0 rgid offset value).2)

namespace MemSys

variable {Pid : Type*} [DecidableEq Pid]

/-- What a process sees of the state. -/
def caller (s : MemSys Pid) (p : Pid) : Caller := ⟨s.mm p, s.mram, s.activeMswp⟩

/-- The state after a process left its memory and the devices as `c`. -/
def put (s : MemSys Pid) (p : Pid) (c : Caller) : MemSys Pid :=
  ⟨Function.update s.mm p c.mm, c.mram, c.activeMswp⟩

/-- The state after a call of a process. -/
def call (s : MemSys Pid) (p : Pid) (k : MemCall) : MemSys Pid :=
  s.put p (k.run (s.caller p)).2.2

@[simp] lemma mm_put_self (s : MemSys Pid) (p : Pid) (c : Caller) : (s.put p c).mm p = c.mm := by
  simp [put]

lemma mm_put_of_ne (s : MemSys Pid) {p q : Pid} (h : q ≠ p) (c : Caller) :
    (s.put p c).mm q = s.mm q := by
  simp [put, h]

/-- What holds of every process, and of a caller, holds of every process after the caller is stored.
-/
lemma forall_put {P : Mm → Prop} {s : MemSys Pid} (h : ∀ q, P (s.mm q)) {p : Pid} {c : Caller}
    (hp : P c.mm) (q : Pid) : P ((s.put p c).mm q) := by
  by_cases hq : q = p
  · subst hq
    rwa [mm_put_self]
  · rw [mm_put_of_ne _ hq]
    exact h q

/-- What holds of every process, and of the caller after its call, holds of every process after the
call. -/
lemma forall_call {P : Mm → Prop} {s : MemSys Pid} (h : ∀ q, P (s.mm q)) {p : Pid} {k : MemCall}
    (hp : P (k.run (s.caller p)).2.2.mm) (q : Pid) : P ((s.call p k).mm q) :=
  forall_put h hp q

@[simp] lemma put_caller (s : MemSys Pid) (p : Pid) : s.put p (s.caller p) = s := by
  simp [put, caller]

/-- The state that `init_memphy` and `init_mm` build: RAM in random access mode, swap in either
mode, and fresh page tables.  What the code leaves unassigned is arbitrary. -/
structure Initial (s : MemSys Pid) : Prop where
  /-- RAM comes from `init_memphy`. -/
  mram : ∃ mp tail maxSize, s.mram = Memphy.initMemphy mp tail maxSize true
  /-- Swap comes from `init_memphy`. -/
  activeMswp : ∃ mp tail maxSize randomflg,
    s.activeMswp = Memphy.initMemphy mp tail maxSize randomflg
  /-- Each `mm_struct` comes from `init_mm`. -/
  mm : ∀ p, ∃ mm freerg, s.mm p = initMm mm freerg

/-- All address spaces lie below 4 MB. -/
def Small (s : MemSys Pid) : Prop := ∀ p, ∀ v ∈ (s.mm p).mmap, v.vmEnd ≤ 2 ^ 22

instance [Fintype Pid] (s : MemSys Pid) : Decidable s.Small :=
  inferInstanceAs (Decidable (∀ p, ∀ v ∈ (s.mm p).mmap, v.vmEnd ≤ 2 ^ 22))

/-- A freshly initialised system with `ram` bytes of RAM and `swp` bytes of swap. -/
def fresh (Pid : Type*) (ram swp : ℤ) : MemSys Pid where
  mm _ := initMm ⟨fun _ => 0#32, [], fun _ => ⟨0, 0⟩, []⟩ []
  mram := Memphy.initMemphy ⟨fun _ => 0#8, 0, true, 0, []⟩ [] ram true
  activeMswp := Memphy.initMemphy ⟨fun _ => 0#8, 0, true, 0, []⟩ [] swp true

omit [DecidableEq Pid] in
lemma initial_fresh (ram swp : ℤ) : (fresh Pid ram swp).Initial :=
  ⟨⟨_, _, ram, rfl⟩, ⟨_, _, swp, true, rfl⟩, fun _ => ⟨_, _, rfl⟩⟩

end MemSys

/-! ## Reachable states -/

/-- The calls of all processes, interleaved in any order, from the states that `init_memphy` and
`init_mm` build. -/
def callSystem (Pid : Type*) [DecidableEq Pid] : LTS (MemSys Pid) (Pid × MemCall) where
  start := MemSys.Initial
  step s a s' := s' = s.call a.1 a.2

/-- A call keeps the only area of its caller, with other bounds and another free list. -/
lemma MemCall.run_area {c : Caller} {v : VmArea} (hv : c.mm.mmap = [v]) (k : MemCall) :
    ∃ v', (k.run c).2.2.mm.mmap = [v'] := by
  cases k with
  | alloc rgid size =>
    obtain ⟨v', hv', -⟩ := (Caller.alloc_effect hv rgid size).area
    exact ⟨v', hv'⟩
  | free rgid =>
    obtain ⟨list, hfree⟩ := Caller.free_single hv 0 rgid
    exact ⟨_, by rw [MemCall.run, hfree]⟩
  | read rgid offset =>
    obtain ⟨hmmap, -⟩ := c.read_frame 0 rgid offset
    exact ⟨v, hmmap.trans hv⟩
  | write rgid offset value =>
    obtain ⟨hmmap, -⟩ := c.write_frame 0 rgid offset value
    exact ⟨v, hmmap.trans hv⟩

/-- In every reachable state each process has a single area. -/
lemma area_of_reachable {Pid : Type*} [DecidableEq Pid] {s : MemSys Pid}
    (hs : (callSystem Pid).Reachable s) (p : Pid) : ∃ v, (s.mm p).mmap = [v] := by
  refine hs.invariant (I := fun s => ∀ p, ∃ v, (s.mm p).mmap = [v]) (fun s h p => ?_)
    (fun s a s' _ h ht q => ?_) p
  · obtain ⟨mm, freerg, hp⟩ := h.mm p
    exact ⟨_, by rw [hp, initMm]⟩
  · obtain rfl : s' = s.call a.1 a.2 := ht
    obtain ⟨v, hv⟩ := h a.1
    exact MemSys.forall_call (P := fun mm => ∃ v, mm.mmap = [v]) h
      (MemCall.run_area (c := s.caller a.1) hv a.2) q

end Ossim
