import Ossim.Os.Model
import Mathlib.Algebra.BigOperators.Group.Finset.Piecewise
import Mathlib.Data.Multiset.UnionInter
import Mathlib.Tactic.Abel

/-!
# Each process is in one place

A process that was added is queued, or held by a CPU, or was freed as finished, or was dropped
by a full queue.  The multiset `OsState.places` lists the first three, and no step lists a process
twice.  So a process that was freed is never queued, dispatched or run again, and no two CPUs
read the same program counter, which makes the executed instructions of a process its program
in order.
-/

namespace Ossim

/-- The process a CPU holds, as a multiset. -/
def Cpu.bag (v : Cpu) : Multiset ℕ := v.holds.elim 0 fun p => {p}

/-- A CPU has no process where it cannot have one. -/
def Cpu.Idle (v : Cpu) : Prop := v.loc = .getFirst ∨ v.Left → v.proc = none

/-- A CPU in the middle of an instruction holds a process and has read its program counter. -/
def Cpu.Fetched (pc : ℕ → ℕ) (v : Cpu) : Prop :=
  ∀ ins, v.loc = .exec ins → ∃ p, v.proc = some p ∧ ins = pc p

namespace OsState

variable {m : ℕ} {cfg : OsConfig} {s s' : OsState m}

/-- The processes that CPUs hold. -/
def held (s : OsState m) : Multiset ℕ := ∑ c, (s.cpu c).bag

/-- The processes that are queued, held or finished. -/
def places (s : OsState m) : Multiset ℕ := s.sched.queued + s.held + s.finished

@[simp] lemma cpu_setCpu (s : OsState m) (c e : Fin m) (v : Cpu) :
    (s.setCpu c v).cpu e = if e = c then v else s.cpu e := by
  by_cases he : e = c
  · subst he
    simp [setCpu]
  · simp [setCpu, he]

@[simp] lemma cpu_takeProc (s : OsState m) (c e : Fin m) (timeLeft : ℤ) (loc : CpuLoc) :
    (s.takeProc c timeLeft loc).cpu e =
      if e = c then
        { s.cpu c with proc := s.sched.getMlqProc.1, timeLeft := timeLeft, loc := loc }
      else s.cpu e :=
  cpu_setCpu _ _ _ _

/-- What holds of all CPUs and of a new one holds after the new one is stored. -/
lemma forall_setCpu {P : Cpu → Prop} {c : Fin m} {v : Cpu} (hv : P v) (h : ∀ e, P (s.cpu e))
    (e : Fin m) : P ((s.setCpu c v).cpu e) := by
  rw [cpu_setCpu]
  split
  · exact hv
  · exact h e

/-! ## Places -/

/-- Storing a CPU exchanges what it holds. -/
lemma held_setCpu (s : OsState m) (c : Fin m) (v : Cpu) :
    (s.setCpu c v).held + (s.cpu c).bag = s.held + v.bag := by
  have hsum : ∀ s : OsState m,
      s.held = (s.cpu c).bag + ∑ e ∈ Finset.univ.erase c, (s.cpu e).bag :=
    fun s => (Finset.add_sum_erase _ (fun e => (s.cpu e).bag) (Finset.mem_univ c)).symm
  have hother : ∑ e ∈ Finset.univ.erase c, ((s.setCpu c v).cpu e).bag =
      ∑ e ∈ Finset.univ.erase c, (s.cpu e).bag := by
    refine Finset.sum_congr rfl fun e he => ?_
    rw [cpu_setCpu, if_neg (Finset.ne_of_mem_erase he)]
  rw [hsum (s.setCpu c v), hsum s, hother, cpu_setCpu, if_pos rfl]
  abel

/-- A CPU that goes on with the same process changes no place. -/
lemma held_setCpu_of_holds {c : Fin m} {v : Cpu} (h : v.holds = (s.cpu c).holds) :
    (s.setCpu c v).held = s.held := by
  have hbag : v.bag = (s.cpu c).bag := by rw [Cpu.bag, Cpu.bag, h]
  have hheld := held_setCpu s c v
  rw [hbag] at hheld
  exact add_right_cancel hheld

/-- A CPU without a process takes one from the queues: no place changes. -/
lemma places_takeProc {c : Fin m} {timeLeft : ℤ} {loc : CpuLoc} (h : (s.cpu c).holds = none)
    (hloc : loc = .recheck ∨ loc = .enterSlot) : (s.takeProc c timeLeft loc).places = s.places := by
  have hheld := held_setCpu s c
    { s.cpu c with proc := s.sched.getMlqProc.1, timeLeft := timeLeft, loc := loc }
  have hbag : (s.cpu c).bag = 0 := by rw [Cpu.bag, h]; rfl
  have hnew : Cpu.bag { s.cpu c with
      proc := s.sched.getMlqProc.1, timeLeft := timeLeft, loc := loc } =
      s.sched.getMlqProc.1.elim 0 fun p => {p} := by
    rcases hloc with rfl | rfl <;> rfl
  rw [hbag, add_zero, hnew] at hheld
  show s.sched.getMlqProc.2.queued + (s.setCpu c _).held + s.finished = s.places
  rw [hheld, places]
  rcases s.sched.queued_getMlqProc with ⟨x, hget, hqueued⟩ | ⟨hget, hqueued, hafter⟩
  · rw [hget, hqueued, ← Multiset.singleton_add]
    simp only [Option.elim]
    abel
  · rw [hget, hqueued, hafter]
    simp

/-- What is left of the places when a process is put in its queue. -/
def placesPut (cfg : OsConfig) (s : OsState m) (p : ℕ) (rest : Multiset ℕ) : Multiset ℕ :=
  if (s.sched.level (cfg.prio p)).length < maxQueueSize then p ::ₘ rest else rest

/-- What a step does to the places: nothing, or a CPU puts its process back, or the loader adds
the next process. -/
lemma places_of_step (hidle : ∀ c, (s.cpu c).Idle) {a : OsAct m} (ht : Step cfg s a s') :
    (s'.ld.i = s.ld.i ∧ s'.places = s.places) ∨
    (s'.ld.i = s.ld.i ∧ ∃ c p rest, (s.cpu c).holds = some p ∧ s.places = p ::ₘ rest ∧
      s'.places = s.placesPut cfg p rest) ∨
    (s'.ld.i = s.ld.i + 1 ∧ s'.places = s.placesPut cfg s.ld.i s.places) := by
  -- a CPU that goes on with the process it holds
  have hkeep : ∀ (c : Fin m) (v : Cpu), v.holds = (s.cpu c).holds →
      (s.setCpu c v).places = s.places := by
    intro c v hv
    show s.sched.queued + (s.setCpu c v).held + s.finished = s.places
    rw [held_setCpu_of_holds hv, places]
  cases ht with
  | free c p hloc hproc hpc =>
    refine .inl ⟨rfl, ?_⟩
    have hheld := held_setCpu s c { s.cpu c with loc := .getFinished }
    have hbag : (s.cpu c).bag = {p} := by simp [Cpu.bag, Cpu.holds, hloc, hproc]
    have hnew : Cpu.bag { s.cpu c with loc := .getFinished } = 0 := rfl
    rw [hbag, hnew, add_zero] at hheld
    show s.sched.queued + (s.setCpu c _).held + p ::ₘ s.finished = s.places
    rw [places, ← hheld, ← Multiset.singleton_add]
    abel
  | put c p hloc hproc hpc htime =>
    have hheld := held_setCpu s c { s.cpu c with loc := .getPut }
    have hholds : (s.cpu c).holds = some p := by simp [Cpu.holds, hloc, hproc]
    have hbag : (s.cpu c).bag = {p} := by rw [Cpu.bag, hholds]; rfl
    have hnew : Cpu.bag { s.cpu c with loc := .getPut } = 0 := rfl
    rw [hbag, hnew, add_zero] at hheld
    refine .inr (.inl ⟨rfl, c, p, s.sched.queued +
      (s.setCpu c { s.cpu c with loc := .getPut }).held + s.finished, hholds, ?_, ?_⟩)
    · rw [places, ← hheld, ← Multiset.singleton_add]
      abel
    · show (s.sched.putMlqProc cfg.prio p).queued + (s.setCpu c _).held + s.finished = _
      rw [Sched.queued_putMlqProc, placesPut]
      split
      · simp
      · rfl
  | getFirst c hloc =>
    refine .inl ⟨rfl, places_takeProc ?_ (by split <;> simp)⟩
    simp [Cpu.holds, hloc, hidle c (.inl hloc)]
  | getFinished c hloc | getPut c hloc =>
    exact .inl ⟨rfl, places_takeProc (by simp [Cpu.holds, hloc]) (.inl rfl)⟩
  | noProc c hloc | keep c p hloc | stop c hloc | skip c hloc | dispatch c p hloc
  | runEnd c p hloc | fetch c p hloc | exec c p ins hloc | call c hloc | leave c hloc
  | detach c hloc =>
    exact .inl ⟨rfl, hkeep c _ (by simp [Cpu.holds, hloc])⟩
  | add hloc =>
    refine .inr (.inr ⟨rfl, ?_⟩)
    show (s.sched.putMlqProc cfg.prio s.ld.i).queued + s.held + s.finished = _
    rw [Sched.queued_putMlqProc, placesPut]
    split
    · simp [places]
    · rfl
  | _ => exact .inl ⟨rfl, rfl⟩

-- the sum over all levels is not to be unfolded
attribute [irreducible] places

/-! ## Exclusive ownership -/

/-- How many CPUs hold a process. -/
def holders (s : OsState m) (p : ℕ) : ℕ :=
  (Finset.univ.filter fun c => (s.cpu c).holds = some p).card

lemma count_held (s : OsState m) (p : ℕ) : s.held.count p = s.holders p := by
  rw [held, Multiset.count_sum', holders, Finset.card_filter]
  refine Finset.sum_congr rfl fun c _ => ?_
  cases hholds : (s.cpu c).holds with
  | none => simp [Cpu.bag, hholds]
  | some q => simp [Cpu.bag, hholds, Multiset.count_singleton, eq_comm]

/-- A process occurs as often among the places as in the queues, in CPUs and among the finished
ones together. -/
lemma count_places (s : OsState m) (p : ℕ) :
    s.places.count p = s.sched.queued.count p + s.holders p + s.finished.count p := by
  rw [places, Multiset.count_add, Multiset.count_add, count_held]

lemma holders_pos {c : Fin m} {p : ℕ} (h : (s.cpu c).holds = some p) : 0 < s.holders p :=
  Finset.card_pos.mpr ⟨c, by simp [h]⟩

/-- If no place is taken twice, two CPUs that hold a process are the same. -/
lemma holder_unique (hnodup : s.places.Nodup) {c e : Fin m} {p : ℕ}
    (hc : (s.cpu c).holds = some p) (he : (s.cpu e).holds = some p) : c = e := by
  have hcount := Multiset.nodup_iff_count_le_one.mp hnodup p
  rw [count_places] at hcount
  have hle : s.holders p ≤ 1 := by omega
  exact Finset.card_le_one.mp hle c (by simp [hc]) e (by simp [he])

/-- If no place is taken twice, a held process is not finished. -/
lemma not_finished_of_holds (hnodup : s.places.Nodup) {c : Fin m} {p : ℕ}
    (hc : (s.cpu c).holds = some p) : p ∉ s.finished := by
  have hcount := Multiset.nodup_iff_count_le_one.mp hnodup p
  rw [count_places] at hcount
  have hpos := holders_pos hc
  exact Multiset.count_eq_zero.mp (by omega)

/-- If no place is taken twice, a held process is not queued. -/
lemma not_queued_of_holds (hnodup : s.places.Nodup) {c : Fin m} {p : ℕ}
    (hc : (s.cpu c).holds = some p) : p ∉ s.sched.queued := by
  have hcount := Multiset.nodup_iff_count_le_one.mp hnodup p
  rw [count_places] at hcount
  have hpos := holders_pos hc
  exact Multiset.count_eq_zero.mp (by omega)

/-- The ownership invariant. -/
structure Owned (s : OsState m) : Prop where
  /-- CPUs without a process. -/
  idle : ∀ c, (s.cpu c).Idle
  /-- No place is taken twice. -/
  nodup : s.places.Nodup
  /-- Only added processes have a place. -/
  added : ∀ p ∈ s.places, p < s.ld.i
  /-- CPUs in the middle of an instruction. -/
  fetched : ∀ c, (s.cpu c).Fetched s.pc
  /-- The executed instructions are those before the program counter, in order. -/
  executed : ∀ p, s.executed p = List.range (s.pc p)

lemma places_of_initial (h : s.Initial) : s.places = 0 := by
  obtain ⟨s₀, -, -, hs₀⟩ := h.sched
  simp [places, held, Cpu.bag, Cpu.holds, h.cpu, h.finished, hs₀, Sched.queued]

lemma owned_of_initial (h : s.Initial) : s.Owned := by
  have hplaces := places_of_initial h
  refine ⟨?_, ?_, ?_, ?_, ?_⟩
  · intro c
    simp [Cpu.Idle, h.cpu]
  · rw [hplaces]
    exact Multiset.nodup_zero
  · intro p hp
    simp [hplaces] at hp
  · intro c
    simp [Cpu.Fetched, h.cpu]
  · intro p
    simp [h.executed, h.pc]

/-- Steps keep CPUs without a process as they are. -/
lemma idle_of_step (h : ∀ c, (s.cpu c).Idle) {a : OsAct m} (ht : Step cfg s a s') :
    ∀ c, (s'.cpu c).Idle := by
  cases ht with
  | noProc c hloc hproc | stop c hloc hproc hdone =>
    exact forall_setCpu (fun _ => hproc) h
  | detach c hloc => exact forall_setCpu (fun _ => h c (.inr (.inl hloc))) h
  | getFirst c hloc =>
    refine forall_setCpu (fun hidle => ?_) h
    dsimp only at hidle
    split at hidle <;> simp [Cpu.Left] at hidle
  | free c p | put c p | keep c p | getFinished c | getPut c | skip c | dispatch c p
  | runEnd c p | fetch c p | exec c p ins | call c | leave c =>
    exact forall_setCpu (by simp [Cpu.Idle, Cpu.Left]) h
  | _ => exact h

/-- Only the CPU that holds a process changes its program counter. -/
lemma fetched_of_step (h : s.Owned) {a : OsAct m} (ht : Step cfg s a s') :
    ∀ c, (s'.cpu c).Fetched s'.pc := by
  cases ht with
  | fetch c p hloc hproc hpc =>
    refine forall_setCpu (fun ins hins => ⟨p, hproc, ?_⟩) h.fetched
    exact (CpuLoc.exec.inj hins).symm
  | exec c p ins hloc hproc =>
    intro e ins' he
    show ∃ q, ((s.setCpu c _).cpu e).proc = some q ∧ ins' = Function.update s.pc p (s.pc p + 1) q
    have he : ((s.setCpu c _).cpu e).loc = .exec ins' := he
    rw [cpu_setCpu] at he ⊢
    by_cases hec : e = c
    · rw [if_pos hec] at he
      cases he
    · rw [if_neg hec] at he ⊢
      obtain ⟨q, hq, rfl⟩ := h.fetched e ins' he
      refine ⟨q, hq, (Function.update_of_ne (fun hqp => hec ?_) _ _).symm⟩
      refine holder_unique h.nodup (p := p) ?_ (by simp [Cpu.holds, hloc, hproc])
      simp [Cpu.holds, he, hq, hqp]
  | getFirst c hloc =>
    refine forall_setCpu (fun ins hins => ?_) h.fetched
    dsimp only at hins
    split at hins <;> cases hins
  | noProc c | stop c | detach c | free c p | put c p | keep c p | getFinished c | getPut c
  | skip c | dispatch c p | runEnd c p | call c | leave c =>
    exact forall_setCpu (by simp [Cpu.Fetched]) h.fetched
  | _ => exact h.fetched

/-- What a step does to the program counters: nothing, or a CPU executes the instruction at the
program counter of the process it holds. -/
lemma pc_of_step (h : s.Owned) {a : OsAct m} (ht : Step cfg s a s') :
    (s'.pc = s.pc ∧ s'.executed = s.executed) ∨
    ∃ c p, (s.cpu c).holds = some p ∧ s'.pc = Function.update s.pc p (s.pc p + 1) ∧
      s'.executed = Function.update s.executed p (s.executed p ++ [s.pc p]) := by
  cases ht with
  | exec c p ins hloc hproc =>
    obtain ⟨q, hq, rfl⟩ := h.fetched c ins hloc
    obtain rfl : p = q := Option.some.inj (hproc.symm.trans hq)
    exact .inr ⟨c, p, by simp [Cpu.holds, hloc, hproc], rfl, rfl⟩
  | _ => exact .inl ⟨rfl, rfl⟩

/-- Every step keeps the invariant. -/
lemma Owned.step (h : s.Owned) {a : OsAct m} (ht : Step cfg s a s') : s'.Owned where
  idle := idle_of_step h.idle ht
  nodup := by
    rcases places_of_step h.idle ht with ⟨-, hsame⟩ | ⟨-, c, p, rest, -, hrest, hput⟩ | ⟨-, hadd⟩
    · rw [hsame]
      exact h.nodup
    · have hnodup := h.nodup
      rw [hrest] at hnodup
      rw [hput, placesPut]
      split
      · exact hnodup
      · exact (Multiset.nodup_cons.mp hnodup).2
    · rw [hadd, placesPut]
      split
      · exact Multiset.nodup_cons.mpr ⟨fun hi => lt_irrefl _ (h.added _ hi), h.nodup⟩
      · exact h.nodup
  added p hp := by
    rcases places_of_step h.idle ht with ⟨hi, hsame⟩ | ⟨hi, c, q, rest, -, hrest, hput⟩ |
      ⟨hi, hadd⟩
    · rw [hi]
      exact h.added p (hsame ▸ hp)
    · rw [hi]
      refine h.added p ?_
      rw [hput, placesPut] at hp
      rw [hrest]
      split at hp
      · exact hp
      · exact Multiset.mem_cons_of_mem hp
    · rw [hi]
      rw [hadd, placesPut] at hp
      split at hp
      · rcases Multiset.mem_cons.mp hp with rfl | hp
        · exact Nat.lt_succ_self _
        · exact (h.added p hp).trans (Nat.lt_succ_self _)
      · exact (h.added p hp).trans (Nat.lt_succ_self _)
  fetched := fetched_of_step h ht
  executed p := by
    rcases pc_of_step h ht with ⟨hpc, hexec⟩ | ⟨c, q, -, hpc, hexec⟩
    · rw [hpc, hexec]
      exact h.executed p
    · rw [hpc, hexec]
      by_cases hp : p = q
      · subst hp
        rw [Function.update_self, Function.update_self, h.executed, List.range_succ]
      · rw [Function.update_of_ne hp, Function.update_of_ne hp]
        exact h.executed p

lemma owned_of_reachable (hs : (osSystem cfg m).Reachable s) : s.Owned :=
  hs.invariant (fun _ => owned_of_initial) fun _ _ _ _ h ht => h.step ht

/-- Finished processes stay finished, and their instructions are done. -/
lemma finished_of_step (h : s.Owned) {a : OsAct m} (ht : Step cfg s a s') {p : ℕ}
    (hp : p ∈ s.finished) : p ∈ s'.finished ∧ s'.executed p = s.executed p := by
  constructor
  · cases ht with
    | free c q => exact Multiset.mem_cons_of_mem hp
    | _ => exact hp
  · rcases pc_of_step h ht with ⟨-, hexec⟩ | ⟨c, q, hholds, -, hexec⟩
    · rw [hexec]
    · rw [hexec, Function.update_of_ne]
      rintro rfl
      exact not_finished_of_holds h.nodup hholds hp

/-- Each process is in at most one place, a freed process stays where it is, and the
instructions of a process are executed once and in order. -/
structure ExclusiveOwnership (cfg : OsConfig) (s : OsState m) : Prop where
  /-- A process is in one cell of one queue, or held by one CPU, or finished once, or neither. -/
  once : ∀ p, s.sched.queued.count p + s.holders p + s.finished.count p ≤ 1
  /-- A freed process is never again enqueued, dispatched or run. -/
  freed : ∀ p ∈ s.finished, ∀ as s', (osSystem cfg m).Path s as s' →
    p ∉ s'.sched.queued ∧ (∀ c, (s'.cpu c).holds ≠ some p) ∧ s'.executed p = s.executed p
  /-- The executed instructions of a process are `0, 1, ...` up to its program counter. -/
  order : ∀ p, s.executed p = List.range (s.pc p)

/-- Exclusive ownership of processes. -/
theorem exclusive_ownership (hs : (osSystem cfg m).Reachable s) : ExclusiveOwnership cfg s := by
  have h := owned_of_reachable hs
  refine ⟨?_, ?_, h.executed⟩
  · intro p
    rw [← count_places]
    exact Multiset.nodup_iff_count_le_one.mp h.nodup p
  · intro p hp as s' hpath
    have hafter : s'.Owned ∧ p ∈ s'.finished ∧ s'.executed p = s.executed p := by
      refine hpath.invariant (I := fun t => t.Owned ∧ p ∈ t.finished ∧ t.executed p = s.executed p)
        (fun t a t' ⟨ht, hmem, hexec⟩ hstep => ?_) ⟨h, hp, rfl⟩
      obtain ⟨hmem', hexec'⟩ := finished_of_step ht hstep hmem
      exact ⟨ht.step hstep, hmem', hexec'.trans hexec⟩
    obtain ⟨h', hmem, hexec⟩ := hafter
    refine ⟨Multiset.count_eq_zero.mp ?_,
      fun c hholds => not_finished_of_holds h'.nodup hholds hmem, hexec⟩
    have hcount := Multiset.nodup_iff_count_le_one.mp h'.nodup p
    rw [count_places] at hcount
    have := Multiset.one_le_count_iff_mem.mpr hmem
    omega

/-- One process and one CPU, which runs it to its end and frees it after the loader has set
`done`. -/
lemma exists_finished : ∃ s : OsState 1, (barrierSystem .single 1).Reachable s ∧
    0 ∈ s.finished ∧ s.ld.i = 1 ∧ s.done = true ∧ (s.cpu 0).loc = .getFinished ∧
    s.sched.getMlqProc.1 = none := by
  have h₀ : (barrierSystem .single 1).Reachable (fresh 1) := .start (initial_fresh 1)
  -- the loader adds the process
  have h₁ := h₀.step ⟨.load rfl (by decide), trivial⟩
  have h₂ := h₁.step ⟨.due rfl (by decide), trivial⟩
  have h₃ := h₂.step ⟨.add rfl, trivial⟩
  have h₄ := h₃.step ⟨.ldCall true rfl, trivial⟩
  -- the CPU runs it
  have h₅ := h₄.step ⟨.noProc 0 rfl rfl, trivial⟩
  have h₆ := h₅.step ⟨.getFirst 0 rfl, trivial⟩
  have h₇ := h₆.step ⟨.dispatch 0 0 (by decide +kernel) (by decide +kernel), trivial⟩
  have h₈ := h₇.step ⟨.fetch 0 0 rfl (by decide +kernel) (by decide +kernel), trivial⟩
  have h₉ := h₈.step ⟨.exec 0 0 0 rfl (by decide +kernel), trivial⟩
  have h₁₀ := h₉.step ⟨.call 0 rfl, trivial⟩
  -- the next slot
  have h₁₁ := h₁₀.step ⟨.leave 0 rfl, ⟨by decide, fun _ => by decide⟩⟩
  have h₁₂ := h₁₁.step ⟨.ldLeave true rfl, ⟨by decide, fun _ => by decide⟩⟩
  have h₁₃ := h₁₂.step ⟨.loaded rfl (by decide), trivial⟩
  have h₁₄ := h₁₃.step ⟨.setDone rfl, trivial⟩
  have h₁₅ := h₁₄.step ⟨.free 0 0 rfl (by decide +kernel) (by decide +kernel), trivial⟩
  exact ⟨_, h₁₅, by decide +kernel, rfl, rfl, rfl, by decide +kernel⟩

/-- There the process is finished for good. -/
theorem exclusive_ownership_one_cpu : ∃ s : OsState 1, 0 ∈ s.finished ∧
    ExclusiveOwnership .single s := by
  obtain ⟨s, hs, hfinished, -⟩ := exists_finished
  exact ⟨s, hfinished, exclusive_ownership hs.of_restrict⟩

end OsState

end Ossim
