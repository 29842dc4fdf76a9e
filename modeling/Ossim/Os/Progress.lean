import Ossim.Os.Barrier
import Mathlib.Algebra.Order.BigOperators.Group.Finset

/-!
# The work of every slot

With the slot barrier, the CPUs are never all idle while something is left to do: once all
processes were added, every slot takes at least one instruction off the work that is left, or it
takes a process without instructions out of the queues.  So the processes are done after as many
slots as there is work, for any number of CPUs, any time slot and any interleaving.

A slot that has not taken anything off the work yet is `Fresh`: some CPU is still going to look at
the queues in this slot or to run a process that is not at its end, and a CPU that is through with
the slot holds no process.  `Fresh.step` is the step lemma, `Paced` the invariant that counts the
slots, and `pc_of_allCalled` the consequence.

The last section says when a CPU that calls `get_proc` gets no process (`getMlqProc_eq_none_iff`).
-/

namespace Ossim

/-- The work that a configuration asks for: the instructions of all processes, where a process
without instructions counts as one. -/
def OsConfig.totalWork (cfg : OsConfig) : ℕ :=
  ∑ p ∈ Finset.range cfg.numProcesses, max (cfg.codeSize p) 1

/-- A CPU is between the recheck and the end of `run`. -/
def Cpu.Working (v : Cpu) : Prop := v.loc = .recheck ∨ v.loc = .run ∨ ∃ ins, v.loc = .exec ins

/-- A CPU is about to call `get_proc`. -/
def Cpu.Getting (v : Cpu) : Prop := v.loc = .getFirst ∨ v.loc = .getFinished ∨ v.loc = .getPut

/-- The slot a CPU is in: while it waits in `next_slot`, the one it has reported. -/
def Cpu.slot (v : Cpu) : ℕ := if v.loc = .inSlot then v.calls - 1 else v.calls

namespace OsState

variable {m : ℕ} {cfg : OsConfig} {s s' : OsState m} {a : OsAct m}

/-- A process is not at its end, or has no instructions. -/
def Runnable (cfg : OsConfig) (s : OsState m) (p : ℕ) : Prop :=
  cfg.codeSize p = 0 ∨ s.pc p < cfg.codeSize p

/-- The work that is left of a process. -/
def pending (cfg : OsConfig) (s : OsState m) (p : ℕ) : ℕ :=
  if cfg.codeSize p = 0 then s.sched.queued.count p else cfg.codeSize p - s.pc p

/-- The work that is left. -/
def work (cfg : OsConfig) (s : OsState m) : ℕ :=
  ∑ p ∈ Finset.range cfg.numProcesses, s.pending cfg p

/-! ## Processes that can be run -/

/-- A process that is handed over is queued once more, unless its level is full. -/
lemma count_queued_putMlqProc (prio : ℕ → Prio) (sched : Sched ℕ) (p q : ℕ) :
    (sched.putMlqProc prio p).queued.count q = sched.queued.count q +
      if q = p ∧ (sched.level (prio p)).length < maxQueueSize then 1 else 0 := by
  rw [Sched.queued_putMlqProc]
  by_cases hfree : (sched.level (prio p)).length < maxQueueSize
  · rw [if_pos hfree, Multiset.count_cons]
    simp [hfree]
  · rw [if_neg hfree]
    simp [hfree]

/-- The process that `get_proc` returns is queued once less. -/
lemma count_queued_getMlqProc (sched : Sched ℕ) (q : ℕ) :
    sched.queued.count q = sched.getMlqProc.2.queued.count q +
      if sched.getMlqProc.1 = some q then 1 else 0 := by
  rcases sched.queued_getMlqProc with ⟨x, hget, hqueued⟩ | ⟨hget, hqueued, hafter⟩
  · rw [hqueued, hget, Multiset.count_cons]
    simp [eq_comm]
  · rw [hqueued, hget, hafter]
    simp

/-- A process that waits or is about to be run is not at its end. -/
structure OnTrack (cfg : OsConfig) (s : OsState m) : Prop where
  /-- Queued processes. -/
  queued : ∀ p, 0 < s.sched.queued.count p → s.Runnable cfg p
  /-- Processes about to be run. -/
  working : ∀ c p, (s.cpu c).Working → (s.cpu c).proc = some p → s.Runnable cfg p
  /-- Processes in the middle of an instruction. -/
  exec : ∀ c p ins, (s.cpu c).loc = .exec ins → (s.cpu c).proc = some p →
    s.pc p < cfg.codeSize p
  /-- A program counter stays within the code. -/
  pc_le : ∀ p, s.pc p ≤ cfg.codeSize p
  /-- A process that was not added has not started. -/
  fresh : ∀ p, s.ld.i ≤ p → s.pc p = 0

lemma onTrack_of_initial (h : s.Initial) : s.OnTrack cfg := by
  obtain ⟨s₀, -, -, hs₀⟩ := h.sched
  have hqueued : s.sched.queued = 0 := Sched.queued_eq_zero fun prio => by simp [hs₀]
  refine ⟨?_, ?_, ?_, ?_, ?_⟩
  · simp [hqueued]
  · intro c p hwork
    simp [Cpu.Working, h.cpu] at hwork
  · intro c p ins hloc
    simp [h.cpu] at hloc
  · simp [h.pc]
  · simp [h.pc]

/-- A CPU that goes on keeps all on track, if the processes that are queued then and the one it is
about to run may be run. -/
lemma OnTrack.setCpu (h : s.OnTrack cfg) {c : Fin m} {v : Cpu} {sched : Sched ℕ}
    {finished : Multiset ℕ} (hsched : ∀ p, 0 < sched.queued.count p → s.Runnable cfg p)
    (hwork : ∀ p, v.Working → v.proc = some p → s.Runnable cfg p)
    (hexec : ∀ p ins, v.loc = .exec ins → v.proc = some p → s.pc p < cfg.codeSize p) :
    OnTrack cfg { s.setCpu c v with sched := sched, finished := finished } where
  queued := hsched
  working e p := forall_setCpu (P := fun v => v.Working → v.proc = some p → s.Runnable cfg p)
    (hwork p) (fun e => h.working e p) e
  exec e p ins := forall_setCpu
    (P := fun v => v.loc = .exec ins → v.proc = some p → s.pc p < cfg.codeSize p)
    (hexec p ins) (fun e => h.exec e p ins) e
  pc_le := h.pc_le
  fresh := h.fresh

/-- A CPU that takes a process keeps all on track. -/
lemma OnTrack.takeProc (h : s.OnTrack cfg) (c : Fin m) (timeLeft : ℤ) {loc : CpuLoc}
    (hloc : loc = .recheck ∨ loc = .enterSlot) : (s.takeProc c timeLeft loc).OnTrack cfg := by
  refine h.setCpu (fun p hp => h.queued p ?_) (fun p _ hproc => h.queued p ?_)
    fun p ins hexec => ?_
  · rw [count_queued_getMlqProc]
    omega
  · rw [count_queued_getMlqProc, if_pos hproc]
    omega
  · rcases hloc with rfl | rfl <;> cases hexec

/-- A process that is not at its end has instructions to go. -/
lemma OnTrack.lt_of_ne (h : s.OnTrack cfg) {p : ℕ} (hpc : s.pc p ≠ cfg.codeSize p) :
    s.pc p < cfg.codeSize p :=
  lt_of_le_of_ne (h.pc_le p) hpc

/-- A process that is held is neither queued, nor held by another CPU, nor still to be added. -/
lemma Owned.apart_of_holds (h : s.Owned) {c : Fin m} {p : ℕ} (hc : (s.cpu c).holds = some p) :
    s.sched.queued.count p = 0 ∧ (∀ e, (s.cpu e).holds = some p → e = c) ∧ p < s.ld.i := by
  have hcount := Multiset.nodup_iff_count_le_one.mp h.nodup p
  have hpos := holders_pos hc
  rw [count_places] at hcount
  refine ⟨by omega, fun e he => holder_unique h.nodup he hc, h.added p ?_⟩
  rw [← Multiset.count_pos, count_places]
  omega

lemma Cpu.holds_of_working {v : Cpu} (h : v.Working) : v.holds = v.proc := by
  rcases h with hloc | hloc | ⟨ins, hloc⟩ <;> simp [Cpu.holds, hloc]

/-- An executed instruction keeps all on track. -/
lemma OnTrack.exec_step (h : s.OnTrack cfg) (howned : s.Owned) {c : Fin m} {p : ℕ} {v : Cpu}
    {executed : ℕ → List ℕ} (hc : (s.cpu c).holds = some p) (hpc : s.pc p < cfg.codeSize p)
    (hv : ¬ v.Working) :
    OnTrack cfg { s.setCpu c v with
      pc := Function.update s.pc p (s.pc p + 1), executed := executed } := by
  obtain ⟨hqueued, honly, hadded⟩ := howned.apart_of_holds hc
  -- the processes that others may run are as before
  have hother : ∀ q, q ≠ p → Function.update s.pc p (s.pc p + 1) q = s.pc q :=
    fun q hq => Function.update_of_ne hq _ _
  have hworking : ∀ e q, ((s.setCpu c v).cpu e).Working → ((s.setCpu c v).cpu e).proc = some q →
      (s.cpu e).Working ∧ (s.cpu e).proc = some q ∧ (s.setCpu c v).cpu e = s.cpu e ∧ q ≠ p := by
    intro e q hwork hq
    rw [cpu_setCpu] at hwork hq ⊢
    split at hwork
    · exact absurd hwork hv
    · next he =>
      rw [if_neg he] at hq ⊢
      refine ⟨hwork, hq, rfl, ?_⟩
      rintro rfl
      exact he (honly e (by rw [Cpu.holds_of_working hwork, hq]))
  refine ⟨fun q hq => ?_, fun e q hwork hq => ?_, fun e q ins he hq => ?_, fun q => ?_,
    fun q hq => ?_⟩
  · have hne : q ≠ p := by
      rintro rfl
      exact absurd hqueued (Nat.ne_of_gt hq)
    have hold := h.queued q hq
    unfold Runnable at hold ⊢
    dsimp only
    rwa [hother q hne]
  · obtain ⟨hwork', hq', -, hne⟩ := hworking e q hwork hq
    have hold := h.working e q hwork' hq'
    unfold Runnable at hold ⊢
    dsimp only
    rwa [hother q hne]
  · obtain ⟨-, hq', hsame, hne⟩ := hworking e q (.inr (.inr ⟨ins, he⟩)) hq
    have hloc : (s.cpu e).loc = .exec ins := hsame ▸ he
    dsimp only
    rw [hother q hne]
    exact h.exec e q ins hloc hq'
  · dsimp only
    by_cases hq : q = p
    · subst hq
      rw [Function.update_self]
      exact hpc
    · rw [hother q hq]
      exact h.pc_le q
  · have hne : q ≠ p := by
      rintro rfl
      exact absurd hadded (not_lt.mpr hq)
    dsimp only
    rw [hother q hne]
    exact h.fresh q hq

/-- Every step keeps all on track. -/
lemma OnTrack.step (h : s.OnTrack cfg) (howned : s.Owned) (ht : Step cfg s a s') :
    s'.OnTrack cfg := by
  cases ht with
  | getFirst c => exact h.takeProc c _ (by split <;> simp)
  | getFinished c | getPut c => exact h.takeProc c _ (.inl rfl)
  | put c p hloc hproc hpc =>
    refine h.setCpu (fun q hq => ?_) (by simp [Cpu.Working]) (by simp)
    rw [count_queued_putMlqProc] at hq
    by_cases hqp : q = p
    · exact .inr (hqp ▸ h.lt_of_ne hpc)
    · rw [if_neg (fun hand => hqp hand.1), add_zero] at hq
      exact h.queued q hq
  | keep c p hloc hproc hpc =>
    refine h.setCpu h.queued (fun q _ hq => ?_) (by simp)
    obtain rfl := Option.some.inj (hproc.symm.trans hq)
    exact .inr (h.lt_of_ne hpc)
  | dispatch c p hloc hproc =>
    exact h.setCpu h.queued (fun q _ hq => h.working c q (.inl hloc) hq) (by simp)
  | fetch c p hloc hproc hpc =>
    refine h.setCpu h.queued (fun q _ hq => h.working c q (.inr (.inl hloc)) hq) ?_
    intro q ins _ hq
    obtain rfl := Option.some.inj (hproc.symm.trans hq)
    exact hpc
  | exec c p ins hloc hproc =>
    exact h.exec_step howned (by simp [Cpu.holds, hloc, hproc]) (h.exec c p ins hloc hproc)
      (by simp [Cpu.Working])
  | add hloc =>
    refine ⟨fun q hq => ?_, h.working, h.exec, h.pc_le,
      fun q hq => h.fresh q (Nat.le_of_succ_le hq)⟩
    dsimp only at hq
    rw [count_queued_putMlqProc] at hq
    by_cases hqi : q = s.ld.i
    · have hzero := h.fresh q hqi.ge
      rcases Nat.eq_zero_or_pos (cfg.codeSize q) with hsize | hsize
      · exact .inl hsize
      · exact .inr (hzero.symm ▸ hsize)
    · rw [if_neg (fun hand => hqi hand.1), add_zero] at hq
      exact h.queued q hq
  | noProc c | free c p | stop c | skip c | runEnd c p | call c | leave c | detach c =>
    exact h.setCpu h.queued (by simp [Cpu.Working]) (by simp)
  | load | loaded | early | due | ldCall | ldLeave | setDone | ldDetach | tick =>
    exact ⟨h.queued, h.working, h.exec, h.pc_le, h.fresh⟩

/-! ## The work that is left -/

lemma pending_le (howned : s.Owned) (p : ℕ) : s.pending cfg p ≤ max (cfg.codeSize p) 1 := by
  have hcount := Multiset.nodup_iff_count_le_one.mp howned.nodup p
  rw [count_places] at hcount
  unfold pending
  split
  · exact le_max_of_le_right (by omega)
  · exact le_max_of_le_left (Nat.sub_le _ _)

/-- There is never more work left than the configuration asks for. -/
lemma work_le (howned : s.Owned) : s.work cfg ≤ cfg.totalWork :=
  Finset.sum_le_sum fun p _ => pending_le howned p

/-- Steps only increase program counters. -/
lemma pc_mono (ht : Step cfg s a s') (p : ℕ) : s.pc p ≤ s'.pc p := by
  cases ht with
  | exec c q =>
    dsimp only
    by_cases hp : p = q
    · subst hp
      rw [Function.update_self]
      exact Nat.le_succ _
    · rw [Function.update_of_ne hp]
  | _ => exact le_rfl

/-- A process without instructions is queued once, by the loader. -/
lemma count_queued_mono (h : s.OnTrack cfg) (ht : Step cfg s a s') (hi : s'.ld.i = s.ld.i) {p : ℕ}
    (hp : cfg.codeSize p = 0) : s'.sched.queued.count p ≤ s.sched.queued.count p := by
  cases ht with
  | put c q hloc hproc hpc =>
    dsimp only
    rw [count_queued_putMlqProc, if_neg, add_zero]
    rintro ⟨rfl, -⟩
    have := h.lt_of_ne hpc
    omega
  | add hloc => exact absurd hi (Nat.succ_ne_self _)
  | getFirst c | getFinished c | getPut c =>
    rw [count_queued_getMlqProc s.sched]
    exact Nat.le_add_right _ _
  | _ => exact le_rfl

/-- A step that adds no process leaves no more work of any process. -/
lemma pending_mono (h : s.OnTrack cfg) (ht : Step cfg s a s') (hi : s'.ld.i = s.ld.i) (p : ℕ) :
    s'.pending cfg p ≤ s.pending cfg p := by
  unfold pending
  split
  · next hp => exact count_queued_mono h ht hi hp
  · exact Nat.sub_le_sub_left (pc_mono ht p) _

lemma work_mono (h : s.OnTrack cfg) (ht : Step cfg s a s') (hi : s'.ld.i = s.ld.i) :
    s'.work cfg ≤ s.work cfg :=
  Finset.sum_le_sum fun p _ => pending_mono h ht hi p

/-- A step that takes something off one process takes it off the work that is left. -/
lemma work_lt (h : s.OnTrack cfg) (ht : Step cfg s a s') (hi : s'.ld.i = s.ld.i) {p : ℕ}
    (hp : p < cfg.numProcesses) (hlt : s'.pending cfg p < s.pending cfg p) :
    s'.work cfg < s.work cfg :=
  Finset.sum_lt_sum (fun q _ => pending_mono h ht hi q) ⟨p, Finset.mem_range.mpr hp, hlt⟩

/-- Without work, every process is at its end. -/
lemma pc_of_work_eq_zero (h : s.OnTrack cfg) (hwork : s.work cfg = 0) {p : ℕ}
    (hp : p < cfg.numProcesses) : s.pc p = cfg.codeSize p := by
  have hzero := Finset.sum_eq_zero_iff.mp hwork p (Finset.mem_range.mpr hp)
  have hle := h.pc_le p
  unfold pending at hzero
  split at hzero
  · omega
  · omega

/-- When the queues are empty and work is left, some CPU holds a process that is not at its
end. -/
lemma exists_holds_of_work (hkept : s.Kept cfg) (hi : s.ld.i = cfg.numProcesses)
    (hqueued : ∀ p, s.sched.queued.count p = 0) (hwork : s.work cfg ≠ 0) :
    ∃ c p, (s.cpu c).holds = some p ∧ s.pc p < cfg.codeSize p := by
  obtain ⟨p, hp, hpending⟩ := Finset.exists_ne_zero_of_sum_ne_zero hwork
  have hpc : s.pc p < cfg.codeSize p := by
    unfold pending at hpending
    split at hpending
    · exact absurd (hqueued p) hpending
    · omega
  have hplaces : s.places.count p = 1 := by
    rw [hkept.places, hi]
    exact Multiset.count_eq_one_of_mem (Multiset.nodup_range _)
      (Multiset.mem_range.mpr (Finset.mem_range.mp hp))
  have hfinished : s.finished.count p = 0 := by
    refine Multiset.count_eq_zero.mpr fun hmem => ?_
    rw [hkept.done p hmem] at hpc
    exact lt_irrefl _ hpc
  rw [count_places, hqueued, hfinished] at hplaces
  obtain ⟨c, hc⟩ := Finset.card_pos.mp (show 0 < s.holders p by omega)
  exact ⟨c, p, (Finset.mem_filter.mp hc).2, hpc⟩

/-! ## One slot -/

/-- In slot `k`, a CPU is still going to look at the queues or to run a process. -/
def Live (s : OsState m) (k : ℕ) (c : Fin m) : Prop :=
  (s.cpu c).calls = k ∧ ((s.cpu c).loc = .inSlot ∨ (s.cpu c).loc = .head ∨
    (s.cpu c).loc = .getFirst ∨ (s.cpu c).loc = .getFinished ∨ (s.cpu c).loc = .getPut ∨
    (s.cpu c).Working ∧ (s.cpu c).proc ≠ none)

/-- Slot `k` has not taken anything off the work yet. -/
structure Fresh (cfg : OsConfig) (s : OsState m) (k : ℕ) : Prop where
  /-- Some CPU is still going to. -/
  live : ∃ c, s.Live k c
  /-- A process that is about to be run has instructions. -/
  working : ∀ c p, (s.cpu c).Working → (s.cpu c).proc = some p → cfg.codeSize p ≠ 0
  /-- A CPU that is through with the slot holds no process. -/
  past : ∀ c, (s.cpu c).loc = .enterSlot ∨ ((s.cpu c).loc = .inSlot ∧ (s.cpu c).calls = k + 1) →
    (s.cpu c).proc = none

/-- Threads in `next_slot` are at most one call ahead. -/
def Near (s : OsState m) : Prop := ∀ c, s.AllCalled ((s.cpu c).calls - 1)

lemma near_of_initial (h : s.Initial) : s.Near := by
  intro c
  rw [h.cpu]
  exact ⟨fun _ _ => Nat.zero_le _, fun _ => Nat.zero_le _⟩

/-- What a step does to the calls and the slot of a CPU. -/
structure CpuCalls (a : OsAct m) (c : Fin m) (v w : Cpu) : Prop where
  /-- A CPU is not ahead when it calls `next_slot`. -/
  calls : w.calls = v.calls ∨ (v.loc ≠ .inSlot ∧ w.calls = v.calls + 1)
  /-- A CPU goes to the next slot when it leaves `next_slot`. -/
  slot : w.slot = v.slot ∨ (a = .cpuLeave c ∧ v.loc = .inSlot ∧ w = { v with loc := .head })

lemma CpuCalls.refl (a : OsAct m) (c : Fin m) (v : Cpu) : CpuCalls a c v v := ⟨.inl rfl, .inl rfl⟩

/-- A CPU that goes on outside `next_slot`. -/
lemma CpuCalls.of_running {a : OsAct m} {c : Fin m} {v w : Cpu} (hcalls : w.calls = v.calls)
    (hv : v.loc ≠ .inSlot) (hw : w.loc ≠ .inSlot) : CpuCalls a c v w :=
  ⟨.inl hcalls, .inl (by rw [Cpu.slot, Cpu.slot, if_neg hv, if_neg hw, hcalls])⟩

lemma cpuCalls_of_step (ht : Step cfg s a s') : ∀ c, CpuCalls a c (s.cpu c) (s'.cpu c) := by
  cases ht with
  | call c hloc =>
    exact forall_setCpu_rel (CpuCalls.refl _)
      ⟨.inr ⟨by simp [hloc], rfl⟩, .inl (by simp [Cpu.slot, hloc])⟩
  | leave c hloc =>
    exact forall_setCpu_rel (CpuCalls.refl _) ⟨.inl rfl, .inr ⟨rfl, hloc, rfl⟩⟩
  | getFirst c hloc =>
    exact forall_setCpu_rel (CpuCalls.refl _)
      (.of_running rfl (by simp [hloc]) (by dsimp only; split <;> simp))
  | noProc c hloc | free c p hloc | put c p hloc | keep c p hloc | getFinished c hloc
  | getPut c hloc | stop c hloc | skip c hloc | dispatch c p hloc | runEnd c p hloc
  | fetch c p hloc | exec c p ins hloc | detach c hloc =>
    exact forall_setCpu_rel (CpuCalls.refl _) (.of_running rfl (by simp [hloc]) (by simp))
  | _ => exact fun c => CpuCalls.refl _ c _

lemma Near.step (h : s.Near) (hsync : s.Synced) (ht : Step cfg s a s') : s'.Near := by
  intro c
  rcases (cpuCalls_of_step ht c).calls with hcalls | ⟨hloc, hcalls⟩
  · rw [hcalls]
    exact (h c).step ht
  · rw [hcalls]
    exact (hsync.cpu c hloc).step ht

/-- A slot stays fresh when a CPU goes on that is as live as before, does not begin to run a process
without instructions, and is not through with the slot with a process. -/
lemma Fresh.setCpu {k : ℕ} (h : s.Fresh cfg k) {c : Fin m} {v : Cpu}
    (hcpu : s'.cpu = (s.setCpu c v).cpu) (hlive : s.Live k c → s'.Live k c)
    (hwork : ∀ p, v.Working → v.proc = some p → cfg.codeSize p ≠ 0)
    (hpast : v.loc = .enterSlot ∨ v.loc = .inSlot → v.proc = none) : s'.Fresh cfg k where
  live := by
    obtain ⟨e, he⟩ := h.live
    by_cases hec : e = c
    · exact ⟨c, hlive (hec ▸ he)⟩
    · refine ⟨e, ?_⟩
      unfold Live at he ⊢
      rwa [hcpu, cpu_setCpu, if_neg hec]
  working e p := by
    rw [hcpu]
    exact forall_setCpu (P := fun v => v.Working → v.proc = some p → cfg.codeSize p ≠ 0) (hwork p)
      (fun e => h.working e p) e
  past e := by
    rw [hcpu]
    refine forall_setCpu (P := fun v => v.loc = .enterSlot ∨ (v.loc = .inSlot ∧ v.calls = k + 1) →
      v.proc = none) (fun hv => ?_) (fun e => h.past e) e
    exact hpast (hv.imp_right And.left)

/-- A CPU that is live has not detached. -/
lemma Live.not_detached {k : ℕ} {c : Fin m} (h : s.Live k c) : (s.cpu c).loc ≠ .detached := by
  intro hdet
  rcases h.2 with h | h | h | h | h | ⟨h | h | ⟨ins, h⟩, -⟩ <;> cases hdet.symm.trans h

/-- In a fresh slot, a CPU that holds a process is live. -/
lemma Fresh.live_of_holds {k : ℕ} (h : s.Fresh cfg k) (howned : s.Owned) (hsync : s.Synced)
    (hnear : s.Near) (hall : s.AllCalled k) {c : Fin m} {p : ℕ} (hc : (s.cpu c).holds = some p) :
    s.Live k c := by
  obtain ⟨e, he⟩ := h.live
  -- no CPU outside `next_slot` is ahead of the live one
  have hle : (s.cpu c).loc ≠ .inSlot → (s.cpu c).calls ≤ k := fun hin =>
    he.1 ▸ (hsync.cpu c hin).cpu e he.not_detached
  have hge : (s.cpu c).loc ≠ .detached → k ≤ (s.cpu c).calls := hall.cpu c
  have hnone : ∀ {q : Prop}, (s.cpu c).loc = .getFirst ∨ (s.cpu c).Left → q := by
    intro q hloc
    have hproc := howned.idle c hloc
    rcases hloc with hloc | hloc | hloc <;> simp [Cpu.holds, hloc, hproc] at hc
  have hproc : (s.cpu c).proc = some p := by
    cases hloc : (s.cpu c).loc <;> simp [Cpu.holds, hloc] at hc <;> exact hc
  have hheld : (s.cpu c).proc ≠ none := by simp [hproc]
  cases hloc : (s.cpu c).loc with
  | inSlot =>
    refine ⟨?_, .inl hloc⟩
    have hahead := (hnear c).cpu e he.not_detached
    have hcalls := hge (by simp [hloc])
    have hnext : (s.cpu c).calls ≠ k + 1 := fun hnext => hheld (h.past c (.inr ⟨hloc, hnext⟩))
    have := he.1
    omega
  | head => exact ⟨le_antisymm (hle (by simp [hloc])) (hge (by simp [hloc])), .inr (.inl hloc)⟩
  | getFirst => exact hnone (.inl hloc)
  | getFinished => simp [Cpu.holds, hloc] at hc
  | getPut => simp [Cpu.holds, hloc] at hc
  | recheck =>
    exact ⟨le_antisymm (hle (by simp [hloc])) (hge (by simp [hloc])),
      .inr (.inr (.inr (.inr (.inr ⟨.inl hloc, hheld⟩))))⟩
  | run =>
    exact ⟨le_antisymm (hle (by simp [hloc])) (hge (by simp [hloc])),
      .inr (.inr (.inr (.inr (.inr ⟨.inr (.inl hloc), hheld⟩))))⟩
  | exec ins =>
    exact ⟨le_antisymm (hle (by simp [hloc])) (hge (by simp [hloc])),
      .inr (.inr (.inr (.inr (.inr ⟨.inr (.inr ⟨ins, hloc⟩), hheld⟩))))⟩
  | enterSlot => exact absurd (h.past c (.inl hloc)) hheld
  | stopped => exact hnone (.inr (.inl hloc))
  | detached => exact hnone (.inr (.inr hloc))

/-- A CPU in slot `k` that takes a process, or finds the queues empty while another CPU still has
something to run. -/
lemma Fresh.takeProc {k : ℕ} (h : s.Fresh cfg k) (howned : s.Owned) (hkept : s.Kept cfg)
    (hsync : s.Synced) (hnear : s.Near) (hall : s.AllCalled k)
    (hi : s.ld.i = cfg.numProcesses) {c : Fin m} {timeLeft : ℤ} {loc : CpuLoc}
    (hc : (s.cpu c).loc = .getFirst ∨ (s.cpu c).loc = .getFinished ∨ (s.cpu c).loc = .getPut)
    (hsome : s.sched.getMlqProc.1 ≠ none → loc = .recheck)
    (hsize : ∀ p, s.sched.getMlqProc.1 = some p → cfg.codeSize p ≠ 0)
    (hwork : (s.takeProc c timeLeft loc).work cfg ≠ 0) :
    (s.takeProc c timeLeft loc).Fresh cfg k := by
  cases hget : s.sched.getMlqProc.1 with
  | some p =>
    have hrecheck := hsome (by simp [hget])
    refine h.setCpu (c := c) rfl (fun hlive => ⟨?_, ?_⟩) (fun q _ hq => hsize q hq) ?_
    · rw [cpu_takeProc, if_pos rfl]
      exact hlive.1
    · rw [cpu_takeProc, if_pos rfl]
      simp [Cpu.Working, hrecheck, hget]
    · simp [hrecheck]
  | none =>
    -- the queues are empty before and after, so another CPU holds what is left
    obtain ⟨hbefore, hafter⟩ : s.sched.queued = 0 ∧ s.sched.getMlqProc.2.queued = 0 := by
      rcases s.sched.queued_getMlqProc with ⟨x, hx, -⟩ | ⟨-, hbefore, hafter⟩
      · cases hx.symm.trans hget
      · exact ⟨hbefore, hafter⟩
    have hsame : (s.takeProc c timeLeft loc).work cfg = s.work cfg := by
      refine Finset.sum_congr rfl fun p _ => ?_
      show (if cfg.codeSize p = 0 then s.sched.getMlqProc.2.queued.count p else _) = _
      rw [hafter, pending, hbefore]
      rfl
    rw [hsame] at hwork
    obtain ⟨f, p, hf, hpc⟩ := exists_holds_of_work hkept hi (by simp [hbefore]) hwork
    have hfc : f ≠ c := by
      rintro rfl
      rcases hc with hc | hc | hc
      · have := howned.idle f (.inl hc)
        simp [Cpu.holds, hc, this] at hf
      · simp [Cpu.holds, hc] at hf
      · simp [Cpu.holds, hc] at hf
    have hlive := h.live_of_holds howned hsync hnear hall hf
    refine ⟨⟨f, ?_⟩, fun e q => ?_, fun e => ?_⟩
    · unfold Live at hlive ⊢
      rwa [cpu_takeProc, if_neg hfc]
    · rw [cpu_takeProc]
      split
      · intro _ hq
        cases hget.symm.trans hq
      · exact h.working e q
    · rw [cpu_takeProc]
      split
      · intro _
        exact hget
      · exact h.past e

/-- What a step of `get_proc` does to a fresh slot: a process without instructions counts as work,
otherwise the slot stays fresh while work is left. -/
lemma Fresh.get {k : ℕ} (h : s.Fresh cfg k) (hinv : s.BarrierInv cfg) (htrack : s.OnTrack cfg)
    (hnear : s.Near) (hall : s.AllCalled k) (hi : s.ld.i = cfg.numProcesses) {c : Fin m}
    {timeLeft : ℤ} {loc : CpuLoc}
    (hc : (s.cpu c).loc = .getFirst ∨ (s.cpu c).loc = .getFinished ∨ (s.cpu c).loc = .getPut)
    (hsome : s.sched.getMlqProc.1 ≠ none → loc = .recheck)
    (ht : Step cfg s a (s.takeProc c timeLeft loc)) :
    (s.takeProc c timeLeft loc).work cfg < s.work cfg ∨
      (s.takeProc c timeLeft loc).work cfg = 0 ∨ (s.takeProc c timeLeft loc).Fresh cfg k := by
  by_cases hempty : ∃ p, s.sched.getMlqProc.1 = some p ∧ cfg.codeSize p = 0
  · obtain ⟨p, hget, hsize⟩ := hempty
    have hcount := count_queued_getMlqProc s.sched p
    rw [if_pos hget] at hcount
    have hp : p < cfg.numProcesses := by
      rw [← hi]
      refine hinv.owned.added p ?_
      rw [← Multiset.count_pos, count_places]
      omega
    refine .inl (work_lt htrack ht rfl hp ?_)
    unfold pending
    rw [if_pos hsize, if_pos hsize]
    show s.sched.getMlqProc.2.queued.count p < _
    omega
  · refine .inr (Classical.or_iff_not_imp_left.mpr fun hwork => ?_)
    exact h.takeProc hinv.owned hinv.kept hinv.synced hnear hall hi hc hsome
      (fun p hget hsize => hempty ⟨p, hget, hsize⟩) hwork

/-- The step lemma: a fresh slot stays fresh until something was taken off the work. -/
lemma Fresh.step {k : ℕ} (h : s.Fresh cfg k) (hinv : s.BarrierInv cfg) (htrack : s.OnTrack cfg)
    (hnear : s.Near) (hall : s.AllCalled k) (hi : s.ld.i = cfg.numProcesses)
    (ht : Step cfg s a s') :
    s'.work cfg < s.work cfg ∨ s'.work cfg = 0 ∨ s'.Fresh cfg k := by
  -- a live CPU that goes on to a place before its `get_proc`
  have hgo : ∀ (c : Fin m) (loc : CpuLoc), s'.cpu = (s.setCpu c { s.cpu c with loc := loc }).cpu →
      (loc = .head ∨ loc = .getFirst ∨ loc = .getFinished ∨ loc = .getPut) → s'.Fresh cfg k := by
    intro c loc hcpu hloc
    refine h.setCpu hcpu (fun hlive => ⟨?_, ?_⟩) ?_ ?_
    · rw [hcpu, cpu_setCpu, if_pos rfl]
      exact hlive.1
    · rw [hcpu, cpu_setCpu, if_pos rfl]
      tauto
    · rintro p (hw | hw | ⟨ins, hw⟩) <;> rcases hloc with rfl | rfl | rfl | rfl <;> cases hw
    · rintro (hw | hw) <;> rcases hloc with rfl | rfl | rfl | rfl <;> cases hw
  -- a CPU that goes on with a process
  have hrun : ∀ (c : Fin m) (v : Cpu) (p : ℕ), s'.cpu = (s.setCpu c v).cpu → v.Working →
      v.proc = some p → v.calls = (s.cpu c).calls → cfg.codeSize p ≠ 0 → s'.Fresh cfg k := by
    intro c v p hcpu hw hproc hcalls hsize
    refine h.setCpu hcpu (fun hlive => ⟨?_, ?_⟩) ?_ ?_
    · rw [hcpu, cpu_setCpu, if_pos rfl, hcalls]
      exact hlive.1
    · rw [hcpu, cpu_setCpu, if_pos rfl]
      exact .inr (.inr (.inr (.inr (.inr ⟨hw, by simp [hproc]⟩))))
    · intro q _ hq
      obtain rfl := Option.some.inj (hproc.symm.trans hq)
      exact hsize
    · rcases hw with hw | hw | ⟨ins, hw⟩ <;> simp [hw]
  -- a CPU that was not live goes on without a process
  have hidle : ∀ (c : Fin m) (v : Cpu), s'.cpu = (s.setCpu c v).cpu → ¬ s.Live k c → ¬ v.Working →
      v.proc = none → s'.Fresh cfg k := fun c v hcpu hlive hw hproc =>
    h.setCpu hcpu (fun hl => absurd hl hlive) (fun _ hw' => absurd hw' hw) fun _ => hproc
  cases ht with
  | noProc c hloc => exact .inr (.inr (hgo c .getFirst rfl (by simp)))
  | free c p hloc => exact .inr (.inr (hgo c .getFinished rfl (by simp)))
  | put c p hloc => exact .inr (.inr (hgo c .getPut rfl (by simp)))
  | leave c hloc => exact .inr (.inr (hgo c .head rfl (by simp)))
  | keep c p hloc hproc hpc =>
    have := htrack.lt_of_ne hpc
    exact .inr (.inr (hrun c _ p rfl (.inl rfl) hproc rfl (by omega)))
  | dispatch c p hloc hproc =>
    exact .inr (.inr (hrun c _ p rfl (.inr (.inl rfl)) hproc rfl
      (h.working c p (.inl hloc) hproc)))
  | fetch c p hloc hproc hpc =>
    exact .inr (.inr (hrun c _ p rfl (.inr (.inr ⟨_, rfl⟩)) hproc rfl (by omega)))
  | runEnd c p hloc hproc hpc =>
    -- a process at its end that is about to be run has no instructions
    have hsize := h.working c p (.inr (.inl hloc)) hproc
    rcases htrack.working c p (.inr (.inl hloc)) hproc with hzero | hlt
    · exact absurd hzero hsize
    · exact absurd hpc (not_le.mpr hlt)
  | exec c p ins hloc hproc =>
    have hpc := htrack.exec c p ins hloc hproc
    have hp : p < cfg.numProcesses := by
      rw [← hi]
      exact (hinv.owned.apart_of_holds (c := c) (by simp [Cpu.holds, hloc, hproc])).2.2
    refine .inl (work_lt htrack (.exec c p ins hloc hproc) rfl hp ?_)
    unfold pending
    rw [if_neg (by omega), if_neg (by omega)]
    dsimp only
    rw [Function.update_self]
    omega
  | stop c hloc hproc =>
    refine .inr (.inr (hidle c _ rfl ?_ (by simp [Cpu.Working]) hproc))
    simp [Live, hloc, hproc]
  | skip c hloc hproc =>
    refine .inr (.inr (hidle c _ rfl ?_ (by simp [Cpu.Working]) hproc))
    simp [Live, hloc, hproc]
  | call c hloc =>
    refine .inr (.inr (hidle c _ rfl ?_ (by simp [Cpu.Working]) (h.past c (.inl hloc))))
    simp [Live, hloc, Cpu.Working]
  | detach c hloc =>
    refine .inr (.inr (hidle c _ rfl ?_ (by simp [Cpu.Working]) ?_))
    · simp [Live, hloc, Cpu.Working]
    · exact hinv.owned.idle c (.inr (.inl hloc))
  | getFirst c hloc =>
    exact h.get hinv htrack hnear hall hi (.inl hloc) (fun hne => if_neg hne) (.getFirst c hloc)
  | getFinished c hloc =>
    exact h.get hinv htrack hnear hall hi (.inr (.inl hloc)) (fun _ => rfl) (.getFinished c hloc)
  | getPut c hloc =>
    exact h.get hinv htrack hnear hall hi (.inr (.inr hloc)) (fun _ => rfl) (.getPut c hloc)
  | _ => exact .inr (.inr ⟨h.live, h.working, h.past⟩)

/-! ## All slots -/

/-- What is known in slot `k`: every slot since the last process was added has taken something off
the work, and so has this one unless it is fresh. -/
def Pace (cfg : OsConfig) (s : OsState m) (k : ℕ) : Prop :=
  s.work cfg = 0 ∨ s.work cfg + (k + 1 - s.loaderCalls) ≤ cfg.totalWork ∨
    s.work cfg + (k - s.loaderCalls) ≤ cfg.totalWork ∧ s.Fresh cfg k

/-- The CPUs keep pace once all processes were added. -/
def Paced (cfg : OsConfig) (s : OsState m) : Prop :=
  s.ld.i = cfg.numProcesses → ∀ c, ¬ (s.cpu c).Left → s.loaderCalls ≤ (s.cpu c).slot →
    s.Pace cfg (s.cpu c).slot

/-- A CPU that is not left is in a slot that every thread has reached. -/
lemma allCalled_slot (hsync : s.Synced) (hnear : s.Near) (c : Fin m) :
    s.AllCalled (s.cpu c).slot := by
  unfold Cpu.slot
  split
  · exact hnear c
  · next hloc => exact hsync.cpu c hloc

/-- What a step does to the number of added processes and to the slots of the loader. -/
lemma loader_of_step (hload : s.Loading cfg) (ht : Step cfg s a s')
    (hi : s'.ld.i = cfg.numProcesses) :
    (s.ld.i = cfg.numProcesses ∧ s'.loaderCalls = s.loaderCalls) ∨
      (s.ld.loc = .add ∧ s'.cpu = s.cpu ∧ s'.loaderCalls = s.ld.calls + 1) := by
  have hloading := hload.loading
  cases ht with
  | add hloc => exact .inr ⟨hloc, rfl, by simp [loaderCalls]⟩
  | ldCall outer hloc =>
    refine .inl ⟨hi, ?_⟩
    cases outer with
    | false => exact absurd hi (Nat.ne_of_lt (hloading (.inr (.inr (.inl hloc)))))
    | true => simp [loaderCalls, hloc]
  | ldLeave outer hloc =>
    refine .inl ⟨hi, ?_⟩
    cases outer with
    | false => exact absurd hi (Nat.ne_of_lt (hloading (.inr (.inr (.inr hloc)))))
    | true => simp [loaderCalls, hloc]
  | load hloc | loaded hloc | early hloc | due hloc | setDone hloc | ldDetach hloc =>
    exact .inl ⟨hi, by simp [loaderCalls, hloc]⟩
  | _ => exact .inl ⟨hi, rfl⟩

/-- A step within slot `k` keeps the pace. -/
lemma Pace.step {k : ℕ} (h : s.Pace cfg k) (hinv : s.BarrierInv cfg) (htrack : s.OnTrack cfg)
    (hnear : s.Near) (hall : s.AllCalled k) (hi : s.ld.i = cfg.numProcesses)
    (hi' : s'.ld.i = s.ld.i) (hcalls : s'.loaderCalls = s.loaderCalls) (ht : Step cfg s a s') :
    s'.Pace cfg k := by
  have hmono := work_mono htrack ht hi'
  unfold Pace
  rw [hcalls]
  rcases h with h | h | ⟨h, hfresh⟩
  · exact .inl (by omega)
  · exact .inr (.inl (by omega))
  · rcases hfresh.step hinv htrack hnear hall hi ht with hlt | hzero | hfresh'
    · exact .inr (.inl (by omega))
    · exact .inl hzero
    · exact .inr (.inr ⟨by omega, hfresh'⟩)

/-- The first CPU in a slot finds it fresh, and the slot before has kept the pace. -/
lemma pace_of_leave (hpaced : s.Paced cfg) (hinv : s.BarrierInv cfg)
    (hi : s.ld.i = cfg.numProcesses) {c : Fin m} (hloc : (s.cpu c).loc = .inSlot)
    (hall : s.AllCalled (s.cpu c).calls) (hle : s.loaderCalls ≤ (s.cpu c).calls)
    (hfirst : ∀ e, ¬ (s.cpu e).Left → (s.cpu e).slot ≠ (s.cpu c).calls) :
    (s.setCpu c { s.cpu c with loc := .head }).Pace cfg (s.cpu c).calls := by
  set k := (s.cpu c).calls with hk
  have hwork : s.work cfg = 0 ∨ s.work cfg + (k - s.loaderCalls) ≤ cfg.totalWork := by
    by_cases hbase : k = s.loaderCalls
    · right
      rw [hbase, Nat.sub_self]
      exact work_le hinv.owned
    · have hslot : (s.cpu c).slot = k - 1 := by simp [Cpu.slot, hloc, hk]
      have hbefore := hpaced hi c (by simp [Cpu.Left, hloc]) (by omega)
      rw [hslot] at hbefore
      rcases hbefore with h | h | ⟨-, hfresh⟩
      · exact .inl h
      · exact .inr (by omega)
      · -- a CPU that is live in the slot before has not called as often
        obtain ⟨e, he⟩ := hfresh.live
        have := hall.cpu e he.not_detached
        have := he.1
        omega
  rcases hwork with hwork | hwork
  · exact .inl hwork
  refine .inr (.inr ⟨hwork, ⟨c, ?_⟩, fun e p => ?_, fun e => ?_⟩)
  · simp [Live, hk]
  · -- no other CPU is in this slot yet
    rw [cpu_setCpu]
    split
    · simp [Cpu.Working]
    · intro hw
      have hin : (s.cpu e).loc ≠ .inSlot := by rcases hw with hw | hw | ⟨ins, hw⟩ <;> simp [hw]
      have hleft : ¬ (s.cpu e).Left := by
        rcases hw with hw | hw | ⟨ins, hw⟩ <;> simp [Cpu.Left, hw]
      have hdet : (s.cpu e).loc ≠ .detached := fun hdet => hleft (.inr hdet)
      have hge := hall.cpu e hdet
      have hle := (hinv.synced.cpu e hin).cpu c (by simp [hloc])
      exact absurd (by simp only [Cpu.slot, if_neg hin]; omega) (hfirst e hleft)
  · rw [cpu_setCpu]
    split
    · simp
    · rintro (he | ⟨he, hcalls⟩)
      · have hge := hall.cpu e (by simp [he])
        have hle := (hinv.synced.cpu e (by simp [he])).cpu c (by simp [hloc])
        refine absurd ?_ (hfirst e (by simp [Cpu.Left, he]))
        simp only [Cpu.slot, he, reduceCtorEq, if_false]
        omega
      · refine absurd ?_ (hfirst e (by simp [Cpu.Left, he]))
        simp [Cpu.slot, he, hcalls, hk]

lemma paced_of_initial (h : s.Initial) : s.Paced cfg := by
  intro hi c _ _
  have hqueued : s.sched.queued = 0 := by
    obtain ⟨s₀, -, -, hs₀⟩ := h.sched
    exact Sched.queued_eq_zero fun prio => by simp [hs₀]
  refine .inl (Finset.sum_eq_zero fun p hp => ?_)
  rw [← hi, h.ld] at hp
  exact absurd (Finset.mem_range.mp hp) (Nat.not_lt_zero p)

/-- A CPU that has left its loop does not come back. -/
lemma left_of_step (ht : Step cfg s a s') {c : Fin m} (hc : (s.cpu c).Left) : (s'.cpu c).Left := by
  have hrel : ∀ c, (s.cpu c).Left → (s'.cpu c).Left := by
    cases ht with
    | stop c hloc | detach c hloc =>
      exact forall_setCpu_rel (R := fun _ v w => v.Left → w.Left) (fun _ _ => id)
        (by simp [Cpu.Left])
    | noProc c hloc | free c p hloc | put c p hloc | keep c p hloc | getFirst c hloc
    | getFinished c hloc | getPut c hloc | skip c hloc | dispatch c p hloc | runEnd c p hloc
    | fetch c p hloc | exec c p ins hloc | call c hloc | leave c hloc =>
      exact forall_setCpu_rel (R := fun _ v w => v.Left → w.Left) (fun _ _ => id)
        (by simp [Cpu.Left, hloc])
    | _ => exact fun _ => id
  exact hrel c hc

/-- Every step keeps the pace. -/
lemma Paced.step (h : s.Paced cfg) (hinv : s.BarrierInv cfg) (htrack : s.OnTrack cfg)
    (hnear : s.Near) (ht : Step cfg s a s') (hok : s.BarrierOk a) : s'.Paced cfg := by
  intro hi' c hleft hslot
  rcases loader_of_step hinv.loading ht hi' with ⟨hi, hcalls⟩ | ⟨hadd, hcpu, hcalls⟩
  · have hsame : s'.ld.i = s.ld.i := hi'.trans hi.symm
    have hwithin : ∀ e, ¬ (s.cpu e).Left → (s.cpu e).slot = (s'.cpu c).slot →
        s'.Pace cfg (s'.cpu c).slot := by
      intro e he heq
      rw [hcalls, ← heq] at hslot
      rw [← heq]
      exact (h hi e he hslot).step hinv htrack hnear (allCalled_slot hinv.synced hnear e) hi hsame
        hcalls ht
    rcases (cpuCalls_of_step ht c).slot with heq | ⟨rfl, hin, hhead⟩
    · refine hwithin c (fun hl => hleft ?_) heq.symm
      exact left_of_step ht hl
    · -- the CPU enters the slot
      have hnew : (s'.cpu c).slot = (s.cpu c).calls := by simp [hhead, Cpu.slot]
      by_cases hfirst : ∃ e, ¬ (s.cpu e).Left ∧ (s.cpu e).slot = (s.cpu c).calls
      · obtain ⟨e, he, heq⟩ := hfirst
        exact hwithin e he (heq.trans hnew.symm)
      · rw [hnew]
        rw [hnew, hcalls] at hslot
        cases ht with
        | leave _ hloc =>
          exact pace_of_leave h hinv hi hloc hok hslot
            fun e he heq => hfirst ⟨e, he, heq⟩
  · -- all CPUs are in a slot before the next one of the loader
    exfalso
    rw [hcpu, hcalls] at hslot
    have hall := allCalled_slot hinv.synced hnear c
    have := hall.loader (by simp [hadd])
    omega

/-- What holds in every run with the slot barrier, together with the pace. -/
structure PaceInv (cfg : OsConfig) (s : OsState m) : Prop where
  /-- The invariant of these runs. -/
  inv : s.BarrierInv cfg
  /-- Processes that are to be run are not at their end. -/
  track : s.OnTrack cfg
  /-- Threads are at most one call ahead. -/
  near : s.Near
  /-- The CPUs keep pace. -/
  paced : s.Paced cfg

lemma paceInv_of_reachable (hm : 0 < m) (hfits : cfg.Fits)
    (hs : (barrierSystem cfg m).Reachable s) : s.PaceInv cfg := by
  have hinv : ∀ t, (barrierSystem cfg m).Reachable t → t.BarrierInv cfg :=
    fun t ht => barrierInv_of_reachable hm hfits ht
  have hrest : s.OnTrack cfg ∧ s.Near ∧ s.Paced cfg := by
    refine LTS.Reachable.invariant (I := fun t => t.OnTrack cfg ∧ t.Near ∧ t.Paced cfg)
      (fun t h => ⟨onTrack_of_initial h, near_of_initial h, paced_of_initial h⟩) ?_ hs
    rintro t a t' hreach ⟨htrack, hnear, hpaced⟩ ⟨ht, hok⟩
    have hbarrier := hinv t hreach
    exact ⟨htrack.step hbarrier.owned ht, hnear.step hbarrier.synced ht,
      hpaced.step hbarrier htrack hnear ht hok⟩
  exact ⟨hinv s hs, hrest.1, hrest.2.1, hrest.2.2⟩

/-- The processes are done after as many slots behind the last arrival as there is work. -/
theorem pc_of_allCalled (hm : 0 < m) (hfits : cfg.Fits) (hs : (barrierSystem cfg m).Reachable s)
    (hi : s.ld.i = cfg.numProcesses) (hall : s.AllCalled (s.loaderCalls + cfg.totalWork)) {p : ℕ}
    (hp : p < cfg.numProcesses) : s.pc p = cfg.codeSize p := by
  obtain ⟨hinv, htrack, -, hpaced⟩ := paceInv_of_reachable hm hfits hs
  by_cases hleft : ∀ c, (s.cpu c).Left
  · refine hinv.kept.done p ?_
    rw [hinv.finished_of_left hm hleft, hi]
    exact Multiset.mem_range.mpr hp
  obtain ⟨c, hc⟩ := not_forall.mp hleft
  refine pc_of_work_eq_zero htrack ?_ hp
  have hcalls := hall.cpu c fun hdet => hc (.inr hdet)
  have hslot : s.loaderCalls + cfg.totalWork ≤ (s.cpu c).slot + 1 := by
    unfold Cpu.slot
    split <;> omega
  by_cases hbase : s.loaderCalls ≤ (s.cpu c).slot
  · rcases hpaced hi c hc hbase with h | h | ⟨h, hfresh⟩
    · exact h
    · omega
    · -- the slot of a CPU that is live is one that all threads have reached
      obtain ⟨e, he⟩ := hfresh.live
      have := hall.cpu e he.not_detached
      have := he.1
      omega
  · have hwork : s.work cfg ≤ cfg.totalWork := work_le hinv.owned
    omega

/-! ## No CPU is idle while a process waits -/

/-- The added processes are kept in every run. -/
lemma kept_of_reachable (hfits : cfg.Fits) (hs : (osSystem cfg m).Reachable s) : s.Kept cfg := by
  have hinv : s.Owned ∧ s.Loading cfg ∧ s.Kept cfg := by
    refine hs.invariant (I := fun s => s.Owned ∧ s.Loading cfg ∧ s.Kept cfg) ?_ ?_
    · exact fun s h => ⟨owned_of_initial h, loading_of_initial h, kept_of_initial h⟩
    · rintro s a s' - ⟨howned, hload, hkept⟩ ht
      exact ⟨howned.step ht, hload.step ht, hkept.step hfits howned hload ht⟩
  exact hinv.2.2

/-- A CPU before a `get_proc` holds no process. -/
lemma Owned.holds_of_getting (h : s.Owned) {c : Fin m} (hc : (s.cpu c).Getting) :
    (s.cpu c).holds = none := by
  rcases hc with hloc | hloc | hloc
  · simp [Cpu.holds, hloc, h.idle c (.inl hloc)]
  · simp [Cpu.holds, hloc]
  · simp [Cpu.holds, hloc]

/-- If one CPU holds no process, the others hold one each at most. -/
lemma card_held_lt {c : Fin m} (hc : (s.cpu c).holds = none) : s.held.card < m := by
  have hbag : ∀ d, (s.cpu d).bag.card ≤ 1 := by
    intro d
    unfold Cpu.bag
    cases (s.cpu d).holds <;> simp
  have hnone : (s.cpu c).bag.card = 0 := by simp [Cpu.bag, hc]
  have hlt : ∑ d, (s.cpu d).bag.card < ∑ _d : Fin m, 1 :=
    Finset.sum_lt_sum (fun d _ => hbag d) ⟨c, Finset.mem_univ c, by omega⟩
  simpa [held, map_sum] using hlt

/-- A CPU that calls `get_proc` gets no process if and only if every added process is finished or
held by another CPU.  So no CPU is idle while at least as many added processes are not finished as
there are CPUs. -/
theorem getMlqProc_eq_none_iff (hfits : cfg.Fits) (hs : (osSystem cfg m).Reachable s) {c : Fin m}
    (hc : (s.cpu c).Getting) :
    (s.sched.getMlqProc.1 = none ↔
      ∀ p < s.ld.i, p ∈ s.finished ∨ ∃ d, d ≠ c ∧ (s.cpu d).holds = some p) ∧
    (s.finished.card + m ≤ s.ld.i → s.sched.getMlqProc.1 ≠ none) := by
  have howned := owned_of_reachable hs
  have hplaces := (kept_of_reachable hfits hs).places
  have hnone := howned.holds_of_getting hc
  have hempty : s.sched.getMlqProc.1 = none → s.sched.queued = 0 := by
    intro hget
    rcases s.sched.queued_getMlqProc with ⟨x, hx, -⟩ | ⟨-, hqueued, -⟩
    · rw [hget] at hx
      cases hx
    · exact hqueued
  have hcount : ∀ p, s.sched.queued.count p + s.holders p + s.finished.count p =
      if p < s.ld.i then 1 else 0 := by
    intro p
    rw [← count_places, hplaces, Multiset.count_eq_of_nodup (Multiset.nodup_range _)]
    simp only [Multiset.mem_range]
  refine ⟨⟨fun hget p hp => ?_, fun hall => ?_⟩, fun hmany hget => ?_⟩
  · have hp' := hcount p
    rw [hempty hget, Multiset.count_zero, if_pos hp] at hp'
    by_cases hfin : p ∈ s.finished
    · exact .inl hfin
    · have hzero := Multiset.count_eq_zero.mpr hfin
      obtain ⟨d, hd⟩ := Finset.card_pos.mp (show 0 < s.holders p by omega)
      refine .inr ⟨d, ?_, (Finset.mem_filter.mp hd).2⟩
      rintro rfl
      exact absurd (hnone.symm.trans (Finset.mem_filter.mp hd).2) (by simp)
  · cases hget : s.sched.getMlqProc.1 with
    | none => rfl
    | some p =>
      have hp' := hcount p
      have hq := count_queued_getMlqProc s.sched p
      rw [if_pos hget] at hq
      have hlt : p < s.ld.i := by
        by_contra hge
        rw [if_neg hge] at hp'
        omega
      rw [if_pos hlt] at hp'
      rcases hall p hlt with hfin | ⟨d, -, hd⟩
      · have := Multiset.count_pos.mpr hfin
        omega
      · have := holders_pos hd
        omega
  · have hcard := congrArg Multiset.card hplaces
    rw [places, hempty hget, Multiset.card_add, Multiset.card_add, Multiset.card_zero,
      Multiset.card_range] at hcard
    have := card_held_lt hnone
    omega

/-- The only process was added, and the only CPU asks for one. -/
theorem getMlqProc_eq_none_iff_one_cpu : ∃ s : OsState 1, (osSystem .single 1).Reachable s ∧
    s.finished.card + 1 ≤ s.ld.i ∧ s.sched.getMlqProc.1 ≠ none := by
  have hfits : OsConfig.single.Fits := fun _ =>
    (Finset.card_filter_le _ _).trans (by decide)
  have h₀ : (osSystem .single 1).Reachable (fresh 1) := .start (initial_fresh 1)
  have h₁ := ((h₀.step (.load rfl (by decide))).step (.due rfl (by decide))).step (.add rfl)
  have h₂ := h₁.step (.noProc 0 rfl rfl)
  have hmany : ∀ s : OsState 1, s.finished = 0 → s.ld.i = 1 → s.finished.card + 1 ≤ s.ld.i := by
    intro s hfinished hi
    rw [hfinished, hi]
    exact le_rfl
  exact ⟨_, h₂, hmany _ rfl rfl,
    (getMlqProc_eq_none_iff hfits h₂ (c := 0) (.inl rfl)).2 (hmany _ rfl rfl)⟩

end OsState

end Ossim
