import Ossim.Os.Shutdown
import Mathlib.Order.Monotone.Basic

/-!
# Arrival times

When `ld_routine` of `src/os.c` passes the processes to `add_proc`.

The first part follows the two nested loops for a clock that starts at 0 and advances by one with
each `next_slot` that the loader completes.  `arrival` is the slot of each process in closed form,
and `ldRoutine_arrival` says that the loops keep to it, for start times in any order.

The second part is about the loader among the other threads: with a clock that advances once for
each `next_slot` of the loader, it stands before `add_proc` in the same slots, in every
interleaving (`time_of_add`).
-/

namespace Ossim

/-- What `ld_routine` does: the processes it passes to `add_proc`, in order and with their slots,
and the slot in which it sets `done`. -/
structure LdLog where
  /-- The process and the slot of each `add_proc`. -/
  added : List (ℕ × ℕ)
  /-- The slot of `done = 1`. -/
  doneSlot : ℕ

/-- The inner loop of `ld_routine`, which calls `next_slot` until the process may start: the slot
in which it ends. -/
def waitLoop (startTime time : ℕ) : ℕ :=
  if time < startTime then waitLoop startTime (time + 1) else time
termination_by startTime - time

/-- The outer loop of `ld_routine` for the `n` processes from `i` on, entered in the slot
`time`. -/
def ldLoop (startTime : ℕ → ℕ) : ℕ → ℕ → ℕ → LdLog
  | 0, _, time => ⟨[], time⟩
  | n + 1, i, time =>
    let slot := waitLoop (startTime i) time
    let rest := ldLoop startTime n (i + 1) (slot + 1)
    ⟨(i, slot) :: rest.added, rest.doneSlot⟩

/-- `ld_routine`. -/
def ldRoutine (cfg : OsConfig) : LdLog := ldLoop cfg.startTime cfg.numProcesses 0 0

/-! ## The slots in closed form -/

/-- The slot of each process: its start time, or the slot behind that of the process before it. -/
def arrival (startTime : ℕ → ℕ) : ℕ → ℕ
  | 0 => startTime 0
  | i + 1 => max (startTime (i + 1)) (arrival startTime i + 1)

/-- The first slot in which the loader looks at process `i`. -/
def ready (startTime : ℕ → ℕ) : ℕ → ℕ
  | 0 => 0
  | i + 1 => arrival startTime i + 1

variable {startTime : ℕ → ℕ}

lemma arrival_eq (i : ℕ) : arrival startTime i = max (startTime i) (ready startTime i) := by
  cases i with
  | zero => exact (Nat.max_zero _).symm
  | succ i => rfl

lemma startTime_le_arrival (i : ℕ) : startTime i ≤ arrival startTime i := by
  rw [arrival_eq]
  exact le_max_left _ _

lemma ready_le_arrival (i : ℕ) : ready startTime i ≤ arrival startTime i := by
  rw [arrival_eq]
  exact le_max_right _ _

lemma arrival_strictMono (startTime : ℕ → ℕ) : StrictMono (arrival startTime) := by
  apply strictMono_nat_of_lt_succ
  intro i
  exact (Nat.lt_succ_self _).trans_le (le_max_right _ _)

/-- A slot before the arrival is one before the start. -/
lemma lt_startTime_iff {i time : ℕ} (h : ready startTime i ≤ time) :
    time < startTime i ↔ time < arrival startTime i := by
  rw [arrival_eq, lt_max_iff]
  exact ⟨.inl, fun h' => h'.resolve_right (not_lt.mpr h)⟩

lemma waitLoop_eq (start time : ℕ) : waitLoop start time = max start time := by
  induction time using waitLoop.induct start with
  | case1 time hlt ih =>
    rw [waitLoop, if_pos hlt, ih, max_eq_left hlt, max_eq_left hlt.le]
  | case2 time hle =>
    rw [waitLoop, if_neg hle, max_eq_right (not_lt.mp hle)]

/-- The outer loop reaches each process when the one before it was added. -/
lemma ldLoop_eq (n i : ℕ) : ldLoop startTime n i (ready startTime i) =
    ⟨(List.range' i n).map fun j => (j, arrival startTime j), ready startTime (i + n)⟩ := by
  induction n generalizing i with
  | zero => rfl
  | succ n ih =>
    have hslot : waitLoop (startTime i) (ready startTime i) = arrival startTime i := by
      rw [waitLoop_eq, ← arrival_eq]
    have hrest := ih (i + 1)
    rw [ready] at hrest
    rw [ldLoop]
    simp only [hslot, hrest]
    rw [List.range'_succ, List.map_cons, Nat.add_right_comm, Nat.add_assoc]

/-- The loader passes the processes to `add_proc` in the order of the configuration, each in the
slot `arrival`.  That is not before its start time, and later than the slot of the process before
it.  The flag `done` is set in a later slot than any `add_proc`. -/
theorem ldRoutine_arrival (cfg : OsConfig) :
    (ldRoutine cfg).added =
      (List.range cfg.numProcesses).map (fun i => (i, arrival cfg.startTime i)) ∧
    (∀ i, cfg.startTime i ≤ arrival cfg.startTime i) ∧
    StrictMono (arrival cfg.startTime) ∧
    ∀ e ∈ (ldRoutine cfg).added, e.2 < (ldRoutine cfg).doneSlot := by
  have hlog := @ldLoop_eq cfg.startTime cfg.numProcesses 0
  rw [ready, Nat.zero_add, ← List.range_eq_range'] at hlog
  refine ⟨by rw [ldRoutine, hlog], startTime_le_arrival, arrival_strictMono _, fun e he => ?_⟩
  rw [ldRoutine, hlog] at he ⊢
  obtain ⟨i, hi, rfl⟩ := List.mem_map.mp he
  have hlt := List.mem_range.mp hi
  obtain ⟨n, hn⟩ := Nat.exists_eq_succ_of_ne_zero (Nat.ne_zero_of_lt hlt)
  have hle : arrival cfg.startTime i ≤ arrival cfg.startTime n :=
    (arrival_strictMono _).monotone (by omega)
  rw [hn]
  exact Nat.lt_succ_of_le hle

/-- Three processes, the second one configured to start before the first one and the third one
with the second one. -/
example : (List.range 3).map (arrival fun i => [5, 0, 0].getD i 0) = [5, 6, 7] := by decide

/-! ## The loader among the other threads -/

namespace OsState

variable {m : ℕ} {cfg : OsConfig} {s s' : OsState m}

/-- The clock advances once while the loader is in `next_slot`, and at any time after the loader
has detached. -/
def ClockOk (s : OsState m) : OsAct m → Prop
  | .tick => (Loader.InSlot s.ld ∧ s.time < s.ld.calls) ∨ s.ld.loc = .detached
  | .loaderLeave => s.time = s.ld.calls
  | _ => True

/-- The time, for each place of the loader. -/
def OnTime (cfg : OsConfig) (s : OsState m) : Prop :=
  match s.ld.loc with
  | .head => s.time = s.ld.calls ∧ s.time = ready cfg.startTime s.ld.i
  | .wait => s.time = s.ld.calls ∧ ready cfg.startTime s.ld.i ≤ s.time ∧
      s.time ≤ arrival cfg.startTime s.ld.i
  | .add => s.time = s.ld.calls ∧ s.time = arrival cfg.startTime s.ld.i
  | .enterSlot false => s.time = s.ld.calls ∧ ready cfg.startTime s.ld.i ≤ s.time ∧
      s.time < arrival cfg.startTime s.ld.i
  | .inSlot false => s.time ≤ s.ld.calls ∧ ready cfg.startTime s.ld.i ≤ s.ld.calls ∧
      s.ld.calls ≤ arrival cfg.startTime s.ld.i
  | .enterSlot true => s.time = s.ld.calls ∧ s.time + 1 = ready cfg.startTime s.ld.i
  | .inSlot true => s.time ≤ s.ld.calls ∧ s.ld.calls = ready cfg.startTime s.ld.i
  | .finish => s.time = ready cfg.startTime s.ld.i
  | .detach => True
  | .detached => True

lemma onTime_of_initial (h : s.Initial) : s.OnTime cfg := by
  unfold OnTime
  rw [h.ld, h.time]
  exact ⟨rfl, rfl⟩

/-- A step of a CPU does not change the time or the loader. -/
lemma OnTime.congr (h : s.OnTime cfg) (htime : s'.time = s.time) (hld : s'.ld = s.ld) :
    s'.OnTime cfg := by
  unfold OnTime at *
  rw [htime, hld]
  exact h

lemma OnTime.step (h : s.OnTime cfg) {a : OsAct m} (ht : Step cfg s a s') (hok : s.ClockOk a) :
    s'.OnTime cfg := by
  cases ht with
  | load hloc hi =>
    simp only [OnTime, hloc] at h ⊢
    exact ⟨h.1, h.2.ge, h.2.trans_le (ready_le_arrival _)⟩
  | loaded hloc hi =>
    simp only [OnTime, hloc] at h ⊢
    exact h.2
  | early hloc htime =>
    simp only [OnTime, hloc] at h ⊢
    exact ⟨h.1, h.2.1, (lt_startTime_iff h.2.1).mp htime⟩
  | due hloc htime =>
    simp only [OnTime, hloc] at h ⊢
    refine ⟨h.1, le_antisymm h.2.2 (not_lt.mp fun hlt => ?_)⟩
    exact absurd ((lt_startTime_iff h.2.1).mpr hlt) (not_lt.mpr htime)
  | add hloc =>
    simp only [OnTime, hloc] at h ⊢
    exact ⟨h.1, by rw [h.2, ready]⟩
  | ldCall outer hloc =>
    cases outer with
    | false =>
      simp only [OnTime, hloc] at h ⊢
      omega
    | true =>
      simp only [OnTime, hloc] at h ⊢
      omega
  | ldLeave outer hloc =>
    have hcalls : s.time = s.ld.calls := hok
    cases outer with
    | false =>
      simp only [OnTime, hloc] at h ⊢
      exact ⟨hcalls, hcalls ▸ h.2.1, hcalls ▸ h.2.2⟩
    | true =>
      simp only [OnTime, hloc] at h ⊢
      exact ⟨hcalls, hcalls.trans h.2⟩
  | tick =>
    rcases hok with ⟨⟨outer, hloc⟩, hlt⟩ | hloc
    · cases outer with
      | false =>
        simp only [OnTime, hloc] at h ⊢
        exact ⟨hlt, h.2⟩
      | true =>
        simp only [OnTime, hloc] at h ⊢
        exact ⟨hlt, h.2⟩
    · simp only [OnTime, hloc]
  | setDone hloc => trivial
  | ldDetach hloc => trivial
  | _ => exact h.congr rfl rfl

/-- Among CPUs that run at any speed, the loader stands before `add_proc` with process `i` in the
slot `arrival`, and before `done = 1` in the slot behind the last arrival. -/
theorem time_of_add (hs : ((osSystem cfg m).restrict ClockOk).Reachable s) :
    (s.ld.loc = .add → s.time = arrival cfg.startTime s.ld.i) ∧
    (s.ld.loc = .finish → s.ld.i = cfg.numProcesses ∧
      s.time = ready cfg.startTime cfg.numProcesses) := by
  have hload : s.Loading cfg := loading_of_reachable hs.of_restrict
  have htime : s.OnTime cfg :=
    hs.invariant_restrict (I := fun s => s.OnTime cfg) (fun s h => onTime_of_initial h)
      fun s a s' h ht hok => h.step ht hok
  unfold OnTime at htime
  constructor
  · intro hloc
    rw [hloc] at htime
    exact htime.2
  · intro hloc
    have hi := hload.loaded (.inl hloc)
    rw [hloc, hi] at htime
    exact ⟨hi, htime⟩

end OsState

end Ossim
