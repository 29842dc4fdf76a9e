import Ossim.Os.Barrier

/-!
# Shutdown

`cpu_routine` tests `done` behind its three branches, but the first branch, for a CPU without a
process, calls `next_slot` and starts over when `get_proc` returns nothing again.  So a CPU that
is at the head of its loop when all work is done does not stop, it only repeats that branch.
-/

namespace Ossim

namespace OsState

variable {m : ℕ} {cfg : OsConfig} {s s' : OsState m}

/-- `done` is set, all queues are empty and no CPU holds a process. -/
structure Drained (s : OsState m) : Prop where
  /-- `done` is set. -/
  done : s.done = true
  /-- The queues are empty. -/
  queues : ∀ prio, s.sched.level prio = []
  /-- No CPU holds a process. -/
  cpus : ∀ c, (s.cpu c).holds = none

/-- Whatever the threads do, a CPU does not call `next_slot` again. -/
def LeavesNext (cfg : OsConfig) (s : OsState m) (c : Fin m) : Prop :=
  ∀ as s', (osSystem cfg m).Path s as s' → (s'.cpu c).calls = (s.cpu c).calls

/-- A CPU goes round the first branch, and no process can turn up. -/
structure Spinning (s : OsState m) (c : Fin m) : Prop where
  /-- The loader adds no more processes. -/
  ld : s.ld.loc = .detach ∨ s.ld.loc = .detached
  /-- The queues are empty. -/
  queues : s.sched.queued = 0
  /-- No CPU holds a process. -/
  cpus : ∀ e, (s.cpu e).holds = none
  /-- The CPU is in the first branch. -/
  loc : (s.cpu c).loc = .head ∨ (s.cpu c).loc = .getFirst ∨ (s.cpu c).loc = .enterSlot ∨
    (s.cpu c).loc = .inSlot

lemma loading_of_reachable (hs : (osSystem cfg m).Reachable s) : s.Loading cfg :=
  hs.invariant (fun _ => loading_of_initial) fun _ _ _ _ h ht => h.step ht

lemma Drained.spinning (h : s.Drained) (hs : (osSystem cfg m).Reachable s) {c : Fin m}
    (hloc : (s.cpu c).loc = .head) : s.Spinning c :=
  ⟨(loading_of_reachable hs).done h.done, Sched.queued_eq_zero h.queues, h.cpus, .inl hloc⟩

/-- Empty queues stay empty and return no process. -/
lemma getMlqProc_of_queued_eq_zero {sched : Sched ℕ} (h : sched.queued = 0) :
    sched.getMlqProc.1 = none ∧ sched.getMlqProc.2.queued = 0 := by
  rcases sched.queued_getMlqProc with ⟨p, -, hqueued⟩ | ⟨hget, -, hempty⟩
  · rw [h] at hqueued
    exact absurd hqueued.symm (Multiset.cons_ne_zero)
  · exact ⟨hget, hempty⟩

/-- A spinning CPU goes on when some CPU moves without a process. -/
lemma Spinning.setCpu {c : Fin m} (h : s.Spinning c) {e : Fin m} {v : Cpu} (hv : v.holds = none)
    (hloc : e = c → v.loc = .head ∨ v.loc = .getFirst ∨ v.loc = .enterSlot ∨ v.loc = .inSlot) :
    (s.setCpu e v).Spinning c where
  ld := h.ld
  queues := h.queues
  cpus := forall_setCpu (P := fun v => v.holds = none) hv h.cpus
  loc := by
    rw [cpu_setCpu]
    split
    · next hce => exact hloc hce.symm
    · exact h.loc

/-- A spinning CPU goes on when some CPU finds the queues empty. -/
lemma Spinning.takeProc {c : Fin m} (h : s.Spinning c) {e : Fin m} {timeLeft : ℤ} {loc : CpuLoc}
    (hloc : loc = .recheck ∨ loc = .enterSlot) (he : e = c → loc = .enterSlot) :
    (s.takeProc e timeLeft loc).Spinning c := by
  obtain ⟨hget, hempty⟩ := getMlqProc_of_queued_eq_zero h.queues
  have hset := h.setCpu (e := e)
    (v := { s.cpu e with proc := s.sched.getMlqProc.1, timeLeft := timeLeft, loc := loc })
    (by rcases hloc with rfl | rfl <;> simp [Cpu.holds, hget]) (fun hec => by simp [he hec])
  exact ⟨hset.ld, hempty, hset.cpus, hset.loc⟩

/-- Every step keeps a spinning CPU spinning. -/
lemma Spinning.step {c : Fin m} (h : s.Spinning c) {a : OsAct m} (ht : Step cfg s a s') :
    s'.Spinning c := by
  -- no CPU holds a process, so no step is taken with one
  have hnone : ∀ e p, (s.cpu e).loc ≠ .getFinished → (s.cpu e).loc ≠ .getPut →
      (s.cpu e).proc ≠ some p := by
    intro e p hfin hput hproc
    have hholds := h.cpus e
    unfold Cpu.holds at hholds
    split at hholds
    · exact hfin ‹_›
    · exact hput ‹_›
    · cases hproc.symm.trans hholds
  have hspin := h.loc
  cases ht with
  | noProc e hloc hproc => exact h.setCpu (by simp [Cpu.holds, hproc]) (by simp)
  | stop e hloc hproc | skip e hloc hproc =>
    refine h.setCpu (by simp [Cpu.holds, hproc]) ?_
    rintro rfl
    simp [hloc] at hspin
  | getFirst e hloc =>
    obtain ⟨hget, -⟩ := getMlqProc_of_queued_eq_zero h.queues
    rw [if_pos hget]
    exact h.takeProc (.inr rfl) fun _ => rfl
  | getFinished e hloc | getPut e hloc =>
    refine h.takeProc (.inl rfl) ?_
    rintro rfl
    simp [hloc] at hspin
  | free e p hloc hproc | put e p hloc hproc | keep e p hloc hproc | dispatch e p hloc hproc
  | runEnd e p hloc hproc | fetch e p hloc hproc | exec e p ins hloc hproc =>
    exact absurd hproc (hnone e p (by simp [hloc]) (by simp [hloc]))
  | call e hloc | leave e hloc =>
    have hholds := h.cpus e
    simp only [Cpu.holds, hloc] at hholds
    exact h.setCpu (by simp [Cpu.holds, hholds]) (by simp)
  | detach e hloc =>
    have hholds := h.cpus e
    simp only [Cpu.holds, hloc] at hholds
    refine h.setCpu (by simp [Cpu.holds, hholds]) ?_
    rintro rfl
    simp [hloc] at hspin
  | tick => exact ⟨h.ld, h.queues, h.cpus, h.loc⟩
  | ldDetach hloc => exact ⟨.inr rfl, h.queues, h.cpus, h.loc⟩
  | load hloc | loaded hloc | early hloc | due hloc | add hloc | ldCall outer hloc
  | ldLeave outer hloc | setDone hloc =>
    rcases h.ld with hld | hld <;> cases hloc.symm.trans hld

/-- A spinning CPU at the head of its loop can call `next_slot` again in three steps. -/
lemma Spinning.calls {c : Fin m} (h : s.Spinning c) (cfg : OsConfig)
    (hloc : (s.cpu c).loc = .head) :
    ∃ as s', (osSystem cfg m).Path s as s' ∧ (s'.cpu c).calls = (s.cpu c).calls + 1 := by
  have hproc : (s.cpu c).proc = none := by simpa [Cpu.holds, hloc] using h.cpus c
  obtain ⟨hget, -⟩ := getMlqProc_of_queued_eq_zero h.queues
  obtain ⟨t, ht, htloc, htcalls, hsched⟩ : ∃ t, Step cfg s (.cpu c) t ∧
      (t.cpu c).loc = .getFirst ∧ (t.cpu c).calls = (s.cpu c).calls ∧ t.sched = s.sched :=
    ⟨_, .noProc c hloc hproc, by simp, by simp, rfl⟩
  obtain ⟨u, hu, huloc, hucalls⟩ : ∃ u, Step cfg t (.cpu c) u ∧
      (u.cpu c).loc = .enterSlot ∧ (u.cpu c).calls = (t.cpu c).calls :=
    ⟨_, .getFirst c htloc, by simp [hsched, hget], by simp⟩
  obtain ⟨s', hs', hcalls⟩ : ∃ s', Step cfg u (.cpu c) s' ∧
      (s'.cpu c).calls = (u.cpu c).calls + 1 :=
    ⟨_, .call c huloc, by simp⟩
  exact ⟨_, s', .cons ht (.cons hu (.cons hs' (.nil _))), by rw [hcalls, hucalls, htcalls]⟩

/-- When all work is done, a CPU at the head of its loop does not leave it, neither in its next
iteration nor later. -/
theorem never_leaves (hs : (osSystem cfg m).Reachable s) (h : s.Drained) {c : Fin m}
    (hloc : (s.cpu c).loc = .head) :
    ¬ s.LeavesNext cfg c ∧ ∀ as s', (osSystem cfg m).Path s as s' → ¬ (s'.cpu c).Left := by
  have hspin := h.spinning hs hloc
  constructor
  · intro hleaves
    obtain ⟨as, s', hpath, hcalls⟩ := hspin.calls cfg hloc
    exact absurd (hcalls.symm.trans (hleaves as s' hpath)) (Nat.succ_ne_self _)
  · intro as s' hpath hleft
    have hafter := hpath.invariant (I := fun s => s.Spinning c) (fun _ _ _ h ht => h.step ht) hspin
    rcases hleft with hleft | hleft <;> simpa [hleft] using hafter.loc

/-- One process and two CPUs: the second CPU looks for a process before it is added, the first
one runs it to its end. -/
lemma exists_drained : ∃ s : OsState 2, (osSystem .single 2).Reachable s ∧ s.Drained ∧
    (s.cpu 1).loc = .head := by
  have h₀ : (osSystem .single 2).Reachable (fresh 2) := .start (initial_fresh 2)
  -- the second CPU
  have h₁ := h₀.step (.noProc 1 rfl rfl)
  have h₂ := h₁.step (.getFirst 1 rfl)
  have h₃ := h₂.step (.call 1 (by decide +kernel))
  -- the loader
  have h₄ := h₃.step (.load rfl (by decide))
  have h₅ := h₄.step (.due rfl (by decide))
  have h₆ := h₅.step (.add rfl)
  have h₇ := h₆.step (.ldCall true rfl)
  -- the first CPU
  have h₈ := h₇.step (.noProc 0 rfl rfl)
  have h₉ := h₈.step (.getFirst 0 rfl)
  have h₁₀ := h₉.step (.dispatch 0 0 (by decide +kernel) (by decide +kernel))
  have h₁₁ := h₁₀.step (.fetch 0 0 rfl (by decide +kernel) (by decide +kernel))
  have h₁₂ := h₁₁.step (.exec 0 0 0 rfl (by decide +kernel))
  have h₁₃ := h₁₂.step (.call 0 rfl)
  -- the next slot
  have h₁₄ := h₁₃.step (.leave 0 rfl)
  have h₁₅ := h₁₄.step (.leave 1 rfl)
  have h₁₆ := h₁₅.step (.ldLeave true rfl)
  have h₁₇ := h₁₆.step (.loaded rfl (by decide))
  have h₁₈ := h₁₇.step (.setDone rfl)
  have h₁₉ := h₁₈.step (.free 0 0 rfl (by decide +kernel) (by decide +kernel))
  exact ⟨_, h₁₉, ⟨rfl, by decide +kernel, by decide +kernel⟩, rfl⟩

/-- There the second CPU stays in its loop for ever. -/
theorem never_leaves_second_cpu : ∃ s : OsState 2, s.Drained ∧ ¬ s.LeavesNext .single 1 ∧
    ∀ as s', (osSystem .single 2).Path s as s' → ¬ (s'.cpu 1).Left := by
  obtain ⟨s, hs, hdrained, hloc⟩ := exists_drained
  obtain ⟨hnext, hlater⟩ := never_leaves hs hdrained hloc
  exact ⟨s, hdrained, hnext, hlater⟩

/-- Not every CPU that is at the head of its loop when all work is done leaves it. -/
theorem not_leaves_next : ¬ ∀ (cfg : OsConfig) (m : ℕ) (s : OsState m),
    (osSystem cfg m).Reachable s → s.Drained → ∀ c, (s.cpu c).loc = .head →
      s.LeavesNext cfg c := by
  intro h
  obtain ⟨s, hs, hdrained, hloc⟩ := exists_drained
  obtain ⟨as, s', hpath, hcalls⟩ := (hdrained.spinning hs hloc).calls .single hloc
  have hsame := h .single 2 s hs hdrained 1 hloc as s' hpath
  omega

end OsState

end Ossim
