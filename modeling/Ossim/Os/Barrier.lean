import Ossim.Os.Ownership

/-!
# No process is stranded

With the slot barrier, a CPU stops only when all processes were added and all queues are empty,
or when another CPU that has not stopped will come back to the queues.

A CPU stops if `get_proc` returned nothing and `done` is set afterwards.  Between the last
`add_proc` and `done = 1` the loader goes through `next_slot`, and a CPU that had found the queues
empty before that `add_proc` has to call `next_slot` too before the loader leaves it.  So
such a CPU looks at the queues again.  `OsState.Served` makes this an invariant: while a process
is queued, some CPU is not `Doomed` to stop.
-/

namespace Ossim

/-- The processes of each priority fit into the queue of their level. -/
def OsConfig.Fits (cfg : OsConfig) : Prop :=
  ∀ prio : Prio,
    ((Finset.range cfg.numProcesses).filter fun p => cfg.prio p = prio).card ≤ maxQueueSize

namespace OsState

variable {m : ℕ} {cfg : OsConfig} {s s' : OsState m}

/-- What relates each CPU of a state to itself also relates it to a new one that is stored. -/
lemma forall_setCpu_rel {R : Fin m → Cpu → Cpu → Prop} (hrefl : ∀ e v, R e v v) {c : Fin m}
    {v : Cpu} (hv : R c (s.cpu c) v) (e : Fin m) : R e (s.cpu e) ((s.setCpu c v).cpu e) := by
  rw [cpu_setCpu]
  split
  · next he => exact he ▸ hv
  · exact hrefl e _

/-! ## The slot barrier -/

/-- What a step does to the slot of a CPU. -/
structure CpuSlot (a : OsAct m) (c : Fin m) (v w : Cpu) : Prop where
  /-- Calls are counted up. -/
  calls : v.calls ≤ w.calls
  /-- A detached CPU stays so. -/
  detached : v.loc = .detached → w.loc = .detached
  /-- A CPU that is not in `next_slot` has just left it, or was not there before. -/
  running : w.loc ≠ .inSlot → w.calls = v.calls ∧ (v.loc = .inSlot → a = .cpuLeave c)

lemma CpuSlot.refl (a : OsAct m) (c : Fin m) (v : Cpu) : CpuSlot a c v v :=
  ⟨le_rfl, id, fun hv => ⟨rfl, fun hin => absurd hin hv⟩⟩

/-- A CPU that goes on outside `next_slot` and was not detached. -/
lemma CpuSlot.of_running {a : OsAct m} {c : Fin m} {v w : Cpu} (hcalls : w.calls = v.calls)
    (hv : v.loc ≠ .inSlot) (hdet : v.loc ≠ .detached) : CpuSlot a c v w :=
  ⟨hcalls.ge, fun h => absurd h hdet, fun _ => ⟨hcalls, fun h => absurd h hv⟩⟩

lemma cpuSlot_of_step {a : OsAct m} (ht : Step cfg s a s') :
    ∀ c, CpuSlot a c (s.cpu c) (s'.cpu c) := by
  cases ht with
  | call c hloc =>
    refine forall_setCpu_rel (CpuSlot.refl _) ⟨Nat.le_succ _, ?_, fun h => absurd rfl h⟩
    simp [hloc]
  | leave c hloc =>
    exact forall_setCpu_rel (CpuSlot.refl _) ⟨le_rfl, by simp [hloc], fun _ => ⟨rfl, fun _ => rfl⟩⟩
  | noProc c hloc | free c p hloc | put c p hloc | keep c p hloc | getFirst c hloc
  | getFinished c hloc | getPut c hloc | stop c hloc | skip c hloc | dispatch c p hloc
  | runEnd c p hloc | fetch c p hloc | exec c p ins hloc | detach c hloc =>
    exact forall_setCpu_rel (CpuSlot.refl _) (.of_running rfl (by simp [hloc]) (by simp [hloc]))
  | _ => exact fun c => CpuSlot.refl _ c _

/-- The loader is in `next_slot`. -/
def Loader.InSlot (v : Loader) : Prop := ∃ outer, v.loc = .inSlot outer

/-- What a step does to the slot of the loader. -/
structure LoaderSlot (a : OsAct m) (v w : Loader) : Prop where
  /-- Calls are counted up. -/
  calls : v.calls ≤ w.calls
  /-- A detached loader stays so. -/
  detached : v.loc = .detached → w.loc = .detached
  /-- A loader that is not in `next_slot` has just left it, or was not there before. -/
  running : ¬ Loader.InSlot w → w.calls = v.calls ∧ (Loader.InSlot v → a = .loaderLeave)

lemma LoaderSlot.of_running {a : OsAct m} {v w : Loader} (hcalls : w.calls = v.calls)
    (hv : ¬ Loader.InSlot v) (hdet : v.loc ≠ .detached) : LoaderSlot a v w :=
  ⟨hcalls.ge, fun h => absurd h hdet, fun _ => ⟨hcalls, fun h => absurd h hv⟩⟩

lemma loaderSlot_of_step {a : OsAct m} (ht : Step cfg s a s') : LoaderSlot a s.ld s'.ld := by
  have hsame : LoaderSlot a s.ld s.ld :=
    ⟨le_rfl, id, fun hv => ⟨rfl, fun hin => absurd hin hv⟩⟩
  cases ht with
  | ldCall outer hloc => exact ⟨Nat.le_succ _, by simp [hloc], fun h => absurd ⟨outer, rfl⟩ h⟩
  | ldLeave outer hloc => exact ⟨le_rfl, by simp [hloc], fun _ => ⟨rfl, fun _ => rfl⟩⟩
  | load hloc | loaded hloc | early hloc | due hloc | add hloc | setDone hloc | ldDetach hloc =>
    exact .of_running rfl (by simp [Loader.InSlot, hloc]) (by simp [hloc])
  | _ => exact hsame

/-- What all threads have called stays called. -/
lemma AllCalled.step {n : ℕ} (h : s.AllCalled n) {a : OsAct m} (ht : Step cfg s a s') :
    s'.AllCalled n where
  cpu c hdet := by
    have hslot := cpuSlot_of_step ht c
    exact (h.cpu c (mt hslot.detached hdet)).trans hslot.calls
  loader hdet := by
    have hslot := loaderSlot_of_step ht
    exact (h.loader (mt hslot.detached hdet)).trans hslot.calls

/-- A thread that is not in `next_slot` is not ahead of the others. -/
structure Synced (s : OsState m) : Prop where
  /-- The CPUs. -/
  cpu : ∀ c, (s.cpu c).loc ≠ .inSlot → s.AllCalled (s.cpu c).calls
  /-- The loader. -/
  loader : ¬ Loader.InSlot s.ld → s.AllCalled s.ld.calls

lemma synced_of_initial (h : s.Initial) : s.Synced := by
  have hall : s.AllCalled 0 := ⟨fun _ _ => Nat.zero_le _, fun _ => Nat.zero_le _⟩
  constructor
  · intro c _
    rw [h.cpu]
    exact hall
  · intro _
    rw [h.ld]
    exact hall

/-- With the slot barrier, threads stay together. -/
lemma Synced.step (h : s.Synced) {a : OsAct m} (ht : Step cfg s a s') (hok : s.BarrierOk a) :
    s'.Synced where
  cpu c hc := by
    obtain ⟨hcalls, hleave⟩ := (cpuSlot_of_step ht c).running hc
    rw [hcalls]
    by_cases hin : (s.cpu c).loc = .inSlot
    · obtain rfl := hleave hin
      exact AllCalled.step hok ht
    · exact (h.cpu c hin).step ht
  loader hld := by
    obtain ⟨hcalls, hleave⟩ := (loaderSlot_of_step ht).running hld
    rw [hcalls]
    by_cases hin : Loader.InSlot s.ld
    · obtain rfl := hleave hin
      exact AllCalled.step hok ht
    · exact (h.loader hin).step ht

/-! ## The loader -/

/-- Where the loader stands, by the number of processes it has added. -/
structure Loading (cfg : OsConfig) (s : OsState m) : Prop where
  /-- `done` is set at the end. -/
  done : s.done = true → s.ld.loc = .detach ∨ s.ld.loc = .detached
  /-- A CPU stops when `done` is set. -/
  left : ∀ c, (s.cpu c).Left → s.done = true
  /-- Behind the head of the outer loop, a process is to be added. -/
  loading : s.ld.loc = .wait ∨ s.ld.loc = .add ∨ s.ld.loc = .enterSlot false ∨
    s.ld.loc = .inSlot false → s.ld.i < cfg.numProcesses
  /-- Behind the outer loop, all processes were added. -/
  loaded : s.ld.loc = .finish ∨ s.ld.loc = .detach ∨ s.ld.loc = .detached →
    s.ld.i = cfg.numProcesses
  /-- No more processes are added than there are. -/
  le : s.ld.i ≤ cfg.numProcesses

lemma loading_of_initial (h : s.Initial) : s.Loading cfg := by
  refine ⟨?_, ?_, ?_, ?_, ?_⟩ <;> simp [h.done, h.cpu, h.ld, Cpu.Left]

/-- A CPU leaves its loop when it finds `done` set. -/
lemma done_of_left (h : ∀ c, (s.cpu c).Left → s.done = true) {a : OsAct m}
    (ht : Step cfg s a s') : ∀ c, (s'.cpu c).Left → s.done = true := by
  cases ht with
  | stop c hloc hproc hdone => exact fun _ _ => hdone
  | detach c hloc => exact fun _ _ => h c (.inl hloc)
  | getFirst c hloc =>
    refine forall_setCpu (P := fun v => v.Left → s.done = true) (fun hleft => ?_) h
    unfold Cpu.Left at hleft
    dsimp only at hleft
    split at hleft <;> simp at hleft
  | noProc c | free c p | put c p | keep c p | getFinished c | getPut c | skip c | dispatch c p
  | runEnd c p | fetch c p | exec c p ins | call c | leave c =>
    exact forall_setCpu (P := fun v => v.Left → s.done = true) (by simp [Cpu.Left]) h
  | _ => exact h

/-- Every step keeps what is known of the loader. -/
lemma Loading.step (h : s.Loading cfg) {a : OsAct m} (ht : Step cfg s a s') : s'.Loading cfg := by
  have hleft := done_of_left h.left ht
  have hloaded := h.loaded
  have hloading := h.loading
  have hle := h.le
  have hdone := h.done
  cases ht with
  | load hloc hi => exact ⟨by simp_all, hleft, fun _ => hi, by simp, hle⟩
  | loaded hloc hi => exact ⟨by simp_all, hleft, by simp, fun _ => le_antisymm hle hi, hle⟩
  | early hloc | due hloc => exact ⟨by simp_all, hleft, by simp_all, by simp, hle⟩
  | add hloc => exact ⟨by simp_all, hleft, by simp, by simp, hloading (.inr (.inl hloc))⟩
  | ldCall outer hloc =>
    cases outer with
    | false => exact ⟨by simp_all, hleft, by simp_all, by simp, hle⟩
    | true => exact ⟨by simp_all, hleft, by simp, by simp, hle⟩
  | ldLeave outer hloc =>
    cases outer with
    | false => exact ⟨by simp_all, hleft, by simp_all, by simp, hle⟩
    | true => exact ⟨by simp_all, hleft, by simp, by simp, hle⟩
  | setDone hloc => exact ⟨by simp, fun _ _ => rfl, by simp, fun _ => hloaded (.inl hloc), hle⟩
  | ldDetach hloc =>
    exact ⟨by simp, hleft, by simp, fun _ => hloaded (.inr (.inl hloc)), hle⟩
  | _ => exact ⟨hdone, hleft, hloading, hloaded, hle⟩

/-! ## No process is dropped -/

/-- Every added process is queued at its level, held or finished. -/
structure Kept (cfg : OsConfig) (s : OsState m) : Prop where
  /-- A level contains processes of its priority. -/
  sorted : ∀ prio, ∀ p ∈ s.sched.level prio, cfg.prio p = prio
  /-- No added process is missing. -/
  places : s.places = Multiset.range s.ld.i
  /-- Finished processes are at their end. -/
  done : ∀ p ∈ s.finished, s.pc p = cfg.codeSize p

lemma kept_of_initial (h : s.Initial) : s.Kept cfg := by
  obtain ⟨s₀, -, -, hs₀⟩ := h.sched
  refine ⟨?_, ?_, ?_⟩
  · intro prio p hp
    simp [hs₀] at hp
  · rw [places_of_initial h, h.ld]
    rfl
  · intro p hp
    simp [h.finished] at hp

/-- A process that is not queued finds a free cell at its level. -/
lemma Kept.length_lt (h : s.Kept cfg) (hfits : cfg.Fits) (hle : s.ld.i ≤ cfg.numProcesses) {p : ℕ}
    (hp : p < cfg.numProcesses) (hqueued : p ∉ s.sched.queued) :
    (s.sched.level (cfg.prio p)).length < maxQueueSize := by
  obtain ⟨rest, hrest⟩ := s.sched.exists_queued_eq_level_add (cfg.prio p)
  have hmem : ∀ q ∈ s.sched.level (cfg.prio p), q ∈ s.places := by
    intro q hq
    rw [OsState.places, hrest]
    simp [hq]
  have hnodup : (p :: s.sched.level (cfg.prio p)).Nodup := by
    refine List.nodup_cons.mpr ⟨fun hin => hqueued (by rw [hrest]; simp [hin]), ?_⟩
    have hall : s.places.Nodup := h.places ▸ Multiset.nodup_range _
    rw [OsState.places, hrest] at hall
    simp only [Multiset.nodup_add] at hall
    exact Multiset.coe_nodup.mp hall.1.1.1
  have hsub : (p :: s.sched.level (cfg.prio p)).toFinset ⊆
      (Finset.range cfg.numProcesses).filter fun q => cfg.prio q = cfg.prio p := by
    intro q hq
    rw [List.mem_toFinset] at hq
    rw [Finset.mem_filter, Finset.mem_range]
    rcases List.mem_cons.mp hq with rfl | hq
    · exact ⟨hp, rfl⟩
    · have hlt := Multiset.mem_range.mp (h.places ▸ hmem q hq)
      exact ⟨hlt.trans_le hle, h.sorted _ q hq⟩
  have hcard := (Finset.card_le_card hsub).trans (hfits (cfg.prio p))
  rwa [List.toFinset_card_of_nodup hnodup] at hcard

/-- What a step does to the queues. -/
lemma sched_of_step {a : OsAct m} (ht : Step cfg s a s') :
    s'.sched = s.sched ∨ (∃ p, s'.sched = s.sched.putMlqProc cfg.prio p) ∨
      s'.sched = s.sched.getMlqProc.2 := by
  cases ht with
  | put c p | add => exact .inr (.inl ⟨_, rfl⟩)
  | getFirst c | getFinished c | getPut c => exact .inr (.inr rfl)
  | _ => exact .inl rfl

/-- Every step keeps levels sorted. -/
lemma sorted_of_step (h : ∀ prio, ∀ p ∈ s.sched.level prio, cfg.prio p = prio) {a : OsAct m}
    (ht : Step cfg s a s') : ∀ prio, ∀ p ∈ s'.sched.level prio, cfg.prio p = prio := by
  intro prio p hp
  rcases sched_of_step ht with hsched | ⟨q, hsched⟩ | hsched
  · exact h prio p (hsched ▸ hp)
  · rw [hsched, Sched.level_putMlqProc] at hp
    split at hp
    · next hput =>
      rcases List.mem_append.mp hp with hp | hp
      · exact h prio p hp
      · rw [List.mem_singleton.mp hp, hput.1]
    · exact h prio p hp
  · exact h prio p (Sched.mem_level_of_getMlqProc (hsched ▸ hp))

/-- Finished processes stay at their end. -/
lemma done_of_step (howned : s.Owned) (h : ∀ p ∈ s.finished, s.pc p = cfg.codeSize p)
    {a : OsAct m} (ht : Step cfg s a s') : ∀ p ∈ s'.finished, s'.pc p = cfg.codeSize p := by
  cases ht with
  | free c p hloc hproc hpc =>
    intro q hq
    rcases Multiset.mem_cons.mp hq with rfl | hq
    · exact hpc
    · exact h q hq
  | exec c p ins hloc hproc =>
    intro q hq
    show Function.update s.pc p (s.pc p + 1) q = cfg.codeSize q
    rw [Function.update_of_ne]
    · exact h q hq
    · rintro rfl
      exact not_finished_of_holds howned.nodup (c := c) (by simp [Cpu.holds, hloc, hproc]) hq
  | _ => exact h

/-- If the levels are large enough, every step keeps all added processes. -/
lemma Kept.step (h : s.Kept cfg) (hfits : cfg.Fits) (howned : s.Owned) (hload : s.Loading cfg)
    {a : OsAct m} (ht : Step cfg s a s') : s'.Kept cfg where
  sorted := sorted_of_step h.sorted ht
  places := by
    rcases places_of_step howned.idle ht with ⟨hi, hsame⟩ | ⟨hi, c, p, rest, hc, hrest, hput⟩ |
      ⟨hi, hadd⟩
    · rw [hsame, h.places, hi]
    · have hp : p < s.ld.i := howned.added p (hrest ▸ Multiset.mem_cons_self p rest)
      have hfree := h.length_lt hfits hload.le (hp.trans_le hload.le)
        (not_queued_of_holds howned.nodup hc)
      rw [hput, placesPut, if_pos hfree, ← hrest, h.places, hi]
    · have hle : s.ld.i + 1 ≤ cfg.numProcesses := hi ▸ (hload.step ht).le
      have hnew : s.places.count s.ld.i = 0 :=
        Multiset.count_eq_zero.mpr fun hin => lt_irrefl _ (howned.added _ hin)
      rw [count_places] at hnew
      have hnew : s.ld.i ∉ s.sched.queued := Multiset.count_eq_zero.mp (by omega)
      have hfree := h.length_lt hfits hload.le hle hnew
      rw [hadd, placesPut, if_pos hfree, h.places, hi, Multiset.range_succ]
  done := done_of_step howned h.done ht

/-! ## Queued processes are served -/

/-- How often the loader will have called `next_slot` when it is back at the head of its loop. -/
def loaderCalls (s : OsState m) : ℕ :=
  if s.ld.loc = .enterSlot true then s.ld.calls + 1 else s.ld.calls

/-- A CPU that has left its loop, or that is about to do so if the loader sets `done` before. -/
def Doomed (s : OsState m) (c : Fin m) : Prop :=
  (s.cpu c).Left ∨
    (s.cpu c).loc = .recheck ∧ (s.cpu c).proc = none ∧ s.loaderCalls ≤ (s.cpu c).calls

/-- When all processes were added and one is queued, some CPU will come back to the queues. -/
def Served (cfg : OsConfig) (s : OsState m) : Prop :=
  s.ld.i = cfg.numProcesses → s.sched.queued ≠ 0 → ∃ c, ¬ s.Doomed c

lemma served_of_initial (h : s.Initial) : s.Served cfg := by
  intro _ hqueued
  obtain ⟨s₀, -, -, hs₀⟩ := h.sched
  exact absurd (Sched.queued_eq_zero fun prio => by simp [hs₀]) hqueued

/-- A CPU at another place than the recheck goes on. -/
lemma not_doomed_of_loc {c : Fin m} (hloc : (s.cpu c).loc ≠ .recheck) (hleft : ¬ (s.cpu c).Left) :
    ¬ s.Doomed c := by
  rintro (h | ⟨h, -, -⟩)
  · exact hleft h
  · exact hloc h

/-- A CPU with a process goes on. -/
lemma not_doomed_of_proc {c : Fin m} {p : ℕ} (hproc : (s.cpu c).proc = some p)
    (hleft : ¬ (s.cpu c).Left) : ¬ s.Doomed c := by
  rintro (h | ⟨-, h, -⟩)
  · exact hleft h
  · cases hproc.symm.trans h

/-- A CPU that finds no process has found the queues empty. -/
lemma served_takeProc (c : Fin m) (timeLeft : ℤ) {loc : CpuLoc}
    (hloc : loc = .recheck ∨ loc = .enterSlot) : (s.takeProc c timeLeft loc).Served cfg := by
  intro _ hqueued
  rcases s.sched.queued_getMlqProc with ⟨p, hget, -⟩ | ⟨-, -, hempty⟩
  · refine ⟨c, not_doomed_of_proc (p := p) ?_ ?_⟩
    · show ((s.setCpu c _).cpu c).proc = some p
      rw [cpu_setCpu, if_pos rfl, hget]
    · show ¬ ((s.setCpu c _).cpu c).Left
      rw [cpu_setCpu, if_pos rfl]
      rcases hloc with rfl | rfl <;> simp [Cpu.Left]
  · exact (hqueued hempty).elim

/-- A doomed CPU may stop and detach. -/
lemma Served.setCpu (h : s.Served cfg) {c : Fin m} (hc : s.Doomed c) (v : Cpu) :
    (s.setCpu c v).Served cfg := by
  intro hi hqueued
  obtain ⟨e, he⟩ := h hi hqueued
  have hne : e ≠ c := by
    rintro rfl
    exact he hc
  refine ⟨e, fun hdoomed => he ?_⟩
  unfold Doomed at hdoomed
  rw [cpu_setCpu, if_neg hne] at hdoomed
  exact hdoomed

/-- The loader dooms no CPU by going on. -/
lemma Served.of_loader (h : s.Served cfg) (hsched : s'.sched = s.sched) (hcpu : s'.cpu = s.cpu)
    (hi : s'.ld.i = s.ld.i) (hcalls : s.loaderCalls ≤ s'.loaderCalls) : s'.Served cfg := by
  intro hall hqueued
  obtain ⟨c, hc⟩ := h (hi.symm.trans hall) (hsched ▸ hqueued)
  refine ⟨c, fun hdoomed => hc ?_⟩
  unfold Doomed at hdoomed
  rw [hcpu] at hdoomed
  rcases hdoomed with hleft | ⟨hloc, hproc, hle⟩
  · exact .inl hleft
  · exact .inr ⟨hloc, hproc, hcalls.trans hle⟩

/-- With the slot barrier, every step keeps queued processes served. -/
lemma Served.step (hm : 0 < m) (h : s.Served cfg) (hload : s.Loading cfg) (hsync : s.Synced)
    {a : OsAct m} (ht : Step cfg s a s') : s'.Served cfg := by
  -- a CPU that moves on to `loc` comes back
  have hback : ∀ (c : Fin m) (v : Cpu), v.loc ≠ .recheck → ¬ v.Left → s'.cpu = (s.setCpu c v).cpu →
      s'.Served cfg := by
    intro c v hloc hleft hcpu _ _
    obtain rfl : s'.cpu c = v := by rw [hcpu, cpu_setCpu, if_pos rfl]
    exact ⟨c, not_doomed_of_loc hloc hleft⟩
  cases ht with
  | noProc c | free c p | put c p | skip c | dispatch c p | runEnd c p | fetch c p | exec c p ins
  | call c | leave c => exact hback c _ (by simp) (by simp [Cpu.Left]) rfl
  | keep c p hloc hproc =>
    intro _ _
    refine ⟨c, not_doomed_of_proc (p := p) ?_ ?_⟩
    · rw [cpu_setCpu, if_pos rfl, hproc]
    · simp [Cpu.Left]
  | getFirst c => exact served_takeProc c _ (by split <;> simp)
  | getFinished c | getPut c => exact served_takeProc c _ (.inl rfl)
  | stop c hloc hproc hdone =>
    -- the loader has left its last `next_slot`, so this CPU has called it as often
    refine h.setCpu (.inr ⟨hloc, hproc, ?_⟩) _
    have hld := hload.done hdone
    have hall := hsync.loader (by rcases hld with hld | hld <;> simp [Loader.InSlot, hld])
    have hcalls : s.loaderCalls = s.ld.calls := by
      rcases hld with hld | hld <;> simp [loaderCalls, hld]
    rw [hcalls]
    exact hall.cpu c (by simp [hloc])
  | detach c hloc => exact h.setCpu (.inl (.inl hloc)) _
  | add hloc =>
    -- no CPU has called `next_slot` as often as the loader will have
    have hlt := hload.loading (.inr (.inl hloc))
    intro _ _
    refine ⟨⟨0, hm⟩, ?_⟩
    rintro (hleft | ⟨hcpu, -, hcalls⟩)
    · rcases hload.done (hload.left _ hleft) with hld | hld <;> cases hloc.symm.trans hld
    · have hall := hsync.cpu ⟨0, hm⟩ (by simp [show (s.cpu ⟨0, hm⟩).loc = .recheck from hcpu])
      have hle := hall.loader (by simp [hloc])
      simp only [loaderCalls, if_true] at hcalls
      omega
  | load hloc | loaded hloc | early hloc | due hloc | setDone hloc | ldDetach hloc =>
    exact h.of_loader rfl rfl rfl (by simp [loaderCalls, hloc])
  | ldCall outer hloc | ldLeave outer hloc =>
    exact h.of_loader rfl rfl rfl (by cases outer <;> simp [loaderCalls, hloc])
  | tick => exact h

/-! ## No process is stranded -/

/-- What holds in every run with the slot barrier. -/
structure BarrierInv (cfg : OsConfig) (s : OsState m) : Prop where
  /-- Processes are in one place. -/
  owned : s.Owned
  /-- The loader adds all processes before it sets `done`. -/
  loading : s.Loading cfg
  /-- No process is dropped. -/
  kept : s.Kept cfg
  /-- Threads stay together. -/
  synced : s.Synced
  /-- Queued processes are served. -/
  served : s.Served cfg

lemma barrierInv_of_reachable (hm : 0 < m) (hfits : cfg.Fits)
    (hs : (barrierSystem cfg m).Reachable s) : s.BarrierInv cfg := by
  refine LTS.Reachable.invariant_restrict (T := osSystem cfg m) (I := BarrierInv cfg)
    (fun s h => ?_) (fun s a s' h ht hok => ?_) hs
  · exact ⟨owned_of_initial h, loading_of_initial h, kept_of_initial h, synced_of_initial h,
      served_of_initial h⟩
  · exact ⟨h.owned.step ht, h.loading.step ht, h.kept.step hfits h.owned h.loading ht,
      h.synced.step ht hok, h.served.step hm h.loading h.synced ht⟩

/-- When all CPUs have left their loops, every added process is finished. -/
lemma BarrierInv.finished_of_left (h : s.BarrierInv cfg) (hm : 0 < m)
    (hleft : ∀ c, (s.cpu c).Left) : s.finished = Multiset.range s.ld.i := by
  have hi := h.loading.loaded (.inr (h.loading.done (h.loading.left ⟨0, hm⟩ (hleft _))))
  have hqueued : s.sched.queued = 0 := by
    by_contra hne
    obtain ⟨c, hc⟩ := h.served hi hne
    exact hc (.inl (hleft c))
  have hheld : s.held = 0 := by
    refine Finset.sum_eq_zero fun c _ => ?_
    have hproc := h.owned.idle c (.inr (hleft c))
    rcases hleft c with hloc | hloc <;> simp [Cpu.bag, Cpu.holds, hloc, hproc]
  have hplaces := h.kept.places
  rw [places, hqueued, hheld, zero_add, zero_add] at hplaces
  exact hplaces

/-- No process is stranded. -/
theorem no_process_stranded (hm : 0 < m) (hfits : cfg.Fits)
    (hs : (barrierSystem cfg m).Reachable s) :
    (∀ c, (s.cpu c).Left → s.ld.i = cfg.numProcesses) ∧
      ((∀ c, (s.cpu c).Left) → ∀ p < s.ld.i, s.pc p = cfg.codeSize p) := by
  have h := barrierInv_of_reachable hm hfits hs
  constructor
  · intro c hc
    exact h.loading.loaded (.inr (h.loading.done (h.loading.left c hc)))
  · intro hleft p hp
    refine h.kept.done p ?_
    rw [h.finished_of_left hm hleft]
    exact Multiset.mem_range.mpr hp

/-- One process and one CPU, which runs it to its end and stops. -/
lemma exists_left : ∃ s : OsState 1, (barrierSystem .single 1).Reachable s ∧ s.ld.i = 1 ∧
    ∀ c, (s.cpu c).Left := by
  obtain ⟨s, hs, -, hi, hdone, hloc, hnone⟩ := exists_finished
  have hget := hs.step ⟨.getFinished 0 hloc, trivial⟩
  have hstop := hget.step ⟨.stop 0 (by simp) (by simpa using hnone) hdone, trivial⟩
  refine ⟨_, hstop, hi, ?_⟩
  intro c
  rw [Subsingleton.elim c 0]
  simp [Cpu.Left]

/-- There the process is finished. -/
theorem no_process_stranded_one_cpu : ∃ s : OsState 1, (∀ c, (s.cpu c).Left) ∧ s.pc 0 = 1 := by
  obtain ⟨s, hs, hi, hleft⟩ := exists_left
  have hfits : OsConfig.single.Fits := fun _ =>
    (Finset.card_filter_le _ _).trans (by decide)
  exact ⟨s, hleft, (no_process_stranded Nat.one_pos hfits hs).2 hleft 0 (by omega)⟩

end OsState

end Ossim
