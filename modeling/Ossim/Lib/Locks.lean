import Mathlib.Data.List.Nodup
import Mathlib.Logic.Function.Basic
import Mathlib.Logic.Relation
import Ossim.Lib.Transition

/-!
# Programs with locks

Programs of threads that share locks.  A program of type `Prog L σ ρ` takes and releases locks of
`L`, acts on data of `σ` and returns a result of `ρ`; what an action returns decides how the
program goes on.  A lock is not recursive: a thread that takes a lock it holds waits for itself.

A program has two meanings.  `Prog.exec` runs it alone.  `threads` runs any number of threads that
execute programs one after the other, interleaved at every lock and every action; the others work
on the same data, so what an action returns is left open there.

`Prog.Runs rank p h h'` is the judgement about all paths of a program: begun with the locks `h`
held, it takes locks in ascending rank, releases what it holds, and ends with the locks `h'` held.
If the programs of all threads begin and end without locks in this way, no thread outside a program
holds a lock, no thread takes a lock it holds, and threads never wait for each other in a cycle
(`threads_disciplined`).
-/

namespace Locks

/-- A program. -/
inductive Prog (L σ ρ : Type) : Type 1
  /-- The end, with a result. -/
  | ret (r : ρ)
  /-- An action on the data. -/
  | act {β : Type} (f : σ → β × σ) (k : β → Prog L σ ρ)
  /-- Taking a lock. -/
  | lock (l : L) (k : Prog L σ ρ)
  /-- Releasing a lock. -/
  | unlock (l : L) (k : Prog L σ ρ)

namespace Prog

variable {L σ ρ τ β : Type}

/-- One program after another. -/
def bind : Prog L σ ρ → (ρ → Prog L σ τ) → Prog L σ τ
  | ret r, q => q r
  | act f k, q => act f fun b => (k b).bind q
  | lock l k, q => lock l (k.bind q)
  | unlock l k, q => unlock l (k.bind q)

instance : Monad (Prog L σ) where
  pure := ret
  bind := bind

/-- Take a lock. -/
def acquire (l : L) : Prog L σ Unit := lock l (ret ())

/-- Release a lock. -/
def release (l : L) : Prog L σ Unit := unlock l (ret ())

/-- Act on the data. -/
def perform (f : σ → β × σ) : Prog L σ β := act f ret

/-- A program without its result. -/
def discard (p : Prog L σ ρ) : Prog L σ Unit := p >>= fun _ => pure ()

/-! ## A program alone -/

/-- The result and the data after a run of the program alone. -/
def exec : Prog L σ ρ → σ → ρ × σ
  | ret r, s => (r, s)
  | act f k, s => (k (f s).1).exec (f s).2
  | lock _ k, s => k.exec s
  | unlock _ k, s => k.exec s

@[simp] lemma exec_bind (p : Prog L σ ρ) (q : ρ → Prog L σ τ) (s : σ) :
    (p >>= q).exec s = (q (p.exec s).1).exec (p.exec s).2 := by
  show (p.bind q).exec s = _
  induction p generalizing s with
  | ret r => rfl
  | act f k ih => exact ih (f s).1 (f s).2
  | lock l k ih => exact ih s
  | unlock l k ih => exact ih s

@[simp] lemma exec_pure (r : ρ) (s : σ) : (pure r : Prog L σ ρ).exec s = (r, s) := rfl

@[simp] lemma exec_acquire (l : L) (s : σ) : (acquire l).exec s = ((), s) := rfl

@[simp] lemma exec_release (l : L) (s : σ) : (release l).exec s = ((), s) := rfl

@[simp] lemma exec_perform (f : σ → β × σ) (s : σ) : (perform f : Prog L σ β).exec s = f s := rfl

/-! ## All paths of a program -/

section

variable [DecidableEq L] {rank : L → ℕ} {h h' h'' : List L}

/-- Begun with the locks `h` held, every path of the program takes locks in ascending rank, releases
locks it holds, and ends with the locks `h'` held. -/
def Runs (rank : L → ℕ) : Prog L σ ρ → List L → List L → Prop
  | ret _, h, h' => h = h'
  | act _ k, h, h' => ∀ b, (k b).Runs rank h h'
  | lock l k, h, h' => (∀ m ∈ h, rank m < rank l) ∧ k.Runs rank (l :: h) h'
  | unlock l k, h, h' => l ∈ h ∧ k.Runs rank (h.erase l) h'

/-- One program after another. -/
lemma Runs.bind {p : Prog L σ ρ} {q : ρ → Prog L σ τ} (hp : p.Runs rank h h')
    (hq : ∀ r, (q r).Runs rank h' h'') : (p >>= q).Runs rank h h'' := by
  show (p.bind q).Runs rank h h''
  induction p generalizing h with
  | ret r =>
    obtain rfl : h = h' := hp
    exact hq r
  | act f k ih => exact fun b => ih b (hp b)
  | lock l k ih => exact ⟨hp.1, ih hp.2⟩
  | unlock l k ih => exact ⟨hp.1, ih hp.2⟩

lemma Runs.pure (r : ρ) : (Pure.pure r : Prog L σ ρ).Runs rank h h := rfl

lemma Runs.perform (f : σ → β × σ) : (perform f : Prog L σ β).Runs rank h h := fun _ => rfl

lemma Runs.acquire {l : L} (hl : ∀ m ∈ h, rank m < rank l) :
    (acquire l : Prog L σ Unit).Runs rank h (l :: h) :=
  ⟨hl, rfl⟩

lemma Runs.release (l : L) : (release l : Prog L σ Unit).Runs rank (l :: h) h :=
  ⟨List.mem_cons_self, List.erase_cons_head l h⟩

lemma Runs.discard {p : Prog L σ ρ} (hp : p.Runs rank h h') : p.discard.Runs rank h h' :=
  hp.bind fun _ => .pure ()

end

end Prog

/-! ## Threads -/

/-- The threads `ι` and the locks they share. -/
structure Threads (L σ ι : Type) where
  /-- What is left of the program of each thread. -/
  prog : ι → Prog L σ Unit
  /-- The thread that holds a lock. -/
  owner : L → Option ι

namespace Threads

variable {L σ ι : Type} [DecidableEq L]

/-- The thread waits for a lock that the other one holds. -/
def Waits (s : Threads L σ ι) (i j : ι) : Prop := ∃ l k, s.prog i = .lock l k ∧ s.owner l = some j

/-- The locks are held as the judgement about the programs says. -/
structure Holds (rank : L → ℕ) (s : Threads L σ ι) (held : ι → List L) : Prop where
  /-- What is left of each program. -/
  runs : ∀ i, (s.prog i).Runs rank (held i) []
  /-- The owners. -/
  mem_held_iff : ∀ i l, l ∈ held i ↔ s.owner l = some i
  /-- No lock is held twice. -/
  nodup : ∀ i, (held i).Nodup

/-- No lock is held outside a program, none is taken twice, only held ones are released, and no
threads wait for each other in a cycle. -/
structure Disciplined (s : Threads L σ ι) : Prop where
  /-- A thread at the end of a program holds no lock. -/
  released : ∀ i, s.prog i = .ret () → ∀ l, s.owner l ≠ some i
  /-- A thread does not take a lock it holds. -/
  not_owned : ∀ i l k, s.prog i = .lock l k → s.owner l ≠ some i
  /-- A thread releases locks it holds. -/
  owned : ∀ i l k, s.prog i = .unlock l k → s.owner l = some i
  /-- There is no cycle of waiting threads. -/
  no_cycle : ∀ i, ¬ Relation.TransGen s.Waits i i

variable {rank : L → ℕ} {s s' : Threads L σ ι} {held : ι → List L} {i : ι}

/-- A thread that waits holds locks of smaller rank only, so along a chain of waiting threads the
rank of the lock waited for ascends. -/
lemma Holds.rank_lt (hs : s.Holds rank held) {j : ι} (hwait : Relation.TransGen s.Waits i j)
    {l m : L} {k k' : Prog L σ Unit} (hi : s.prog i = .lock l k) (hj : s.prog j = .lock m k') :
    rank l < rank m := by
  have hone : ∀ {a b : ι} {l m : L} {k k' : Prog L σ Unit}, s.Waits a b →
      s.prog a = .lock l k → s.prog b = .lock m k' → rank l < rank m := by
    intro a b l m k k' hab ha hb
    obtain ⟨l', k'', ha', howner⟩ := hab
    obtain ⟨rfl, -⟩ := Prog.lock.inj (ha.symm.trans ha')
    have hruns := hs.runs b
    rw [hb] at hruns
    exact hruns.1 l ((hs.mem_held_iff b l).mpr howner)
  induction hwait generalizing m k' with
  | single hij => exact hone hij hi hj
  | tail _ hbc ih =>
    obtain ⟨l', k'', hb, -⟩ := id hbc
    exact Nat.lt_trans (ih hb) (hone hbc hb hj)

/-- What the judgement about the programs gives. -/
lemma Holds.disciplined (hs : s.Holds rank held) : s.Disciplined where
  released i hi l howner := by
    have hruns := hs.runs i
    rw [hi] at hruns
    have hmem := (hs.mem_held_iff i l).mpr howner
    rw [show held i = [] from hruns] at hmem
    exact absurd hmem List.not_mem_nil
  not_owned i l k hi howner := by
    have hruns := hs.runs i
    rw [hi] at hruns
    exact Nat.lt_irrefl _ (hruns.1 l ((hs.mem_held_iff i l).mpr howner))
  owned i l k hi := by
    have hruns := hs.runs i
    rw [hi] at hruns
    exact (hs.mem_held_iff i l).mp hruns.1
  no_cycle i hcycle := by
    obtain ⟨j, ⟨l, k, hi, -⟩, -⟩ := Relation.TransGen.head'_iff.mp hcycle
    exact Nat.lt_irrefl _ (hs.rank_lt hcycle hi hi)

/-! ## Steps -/

variable [DecidableEq ι]

/-- A step of a thread. -/
inductive Step (calls : Set (Prog L σ Unit)) (s : Threads L σ ι) (i : ι) : Threads L σ ι → Prop
  /-- It begins a program. -/
  | call {p} (hi : s.prog i = .ret ()) (hp : p ∈ calls) :
      Step calls s i { s with prog := Function.update s.prog i p }
  /-- It acts on the data. -/
  | act {β} {f : σ → β × σ} {k} (hi : s.prog i = .act f k) (b : β) :
      Step calls s i { s with prog := Function.update s.prog i (k b) }
  /-- It takes a lock that is free. -/
  | lock {l k} (hi : s.prog i = .lock l k) (hfree : s.owner l = none) :
      Step calls s i ⟨Function.update s.prog i k, Function.update s.owner l (some i)⟩
  /-- It releases a lock. -/
  | unlock {l k} (hi : s.prog i = .unlock l k) :
      Step calls s i ⟨Function.update s.prog i k, Function.update s.owner l none⟩

/-- A step that changes the program of one thread and the locks it holds. -/
lemma Holds.update (hs : s.Holds rank held) {p : Prog L σ Unit} {own : List L}
    (hp : p.Runs rank own []) (hown : own.Nodup) {owner : L → Option ι}
    (hself : ∀ l, l ∈ own ↔ owner l = some i)
    (hother : ∀ j, j ≠ i → ∀ l, s.owner l = some j ↔ owner l = some j) :
    Holds rank ⟨Function.update s.prog i p, owner⟩ (Function.update held i own) := by
  refine ⟨fun j => ?_, fun j l => ?_, fun j => ?_⟩
  all_goals
    by_cases hj : j = i
    · subst hj
      simp only [Function.update_self]
      first | exact hp | exact hself l | exact hown
    · simp only [Function.update_of_ne hj]
      first | exact hs.runs j | exact (hs.mem_held_iff j l).trans (hother j hj l) | exact hs.nodup j

/-- The step lemma: locks are held as the judgement says. -/
lemma Holds.step {calls : Set (Prog L σ Unit)} (hcalls : ∀ p ∈ calls, p.Runs rank [] [])
    (hs : s.Holds rank held) (hstep : Step calls s i s') : ∃ held', s'.Holds rank held' := by
  have hruns := hs.runs i
  cases hstep with
  | call hi hp =>
    rw [hi] at hruns
    have hnone : held i = [] := hruns
    refine ⟨_, hs.update (hcalls _ hp) List.nodup_nil (fun l => ?_) fun _ _ _ => Iff.rfl⟩
    rw [← hs.mem_held_iff, hnone]
  | act hi b =>
    rw [hi] at hruns
    exact ⟨_, hs.update (hruns b) (hs.nodup i) (hs.mem_held_iff i) fun _ _ _ => Iff.rfl⟩
  | @lock l k hi hfree =>
    rw [hi] at hruns
    have hnew : l ∉ held i := by
      rw [hs.mem_held_iff, hfree]
      simp
    refine ⟨_, hs.update hruns.2 (List.nodup_cons.mpr ⟨hnew, hs.nodup i⟩) (fun m => ?_)
      fun j hj m => ?_⟩
    · rw [List.mem_cons, hs.mem_held_iff]
      by_cases hm : m = l
      · simp [hm]
      · simp [hm]
    · by_cases hm : m = l
      · subst hm
        simp [hfree, Ne.symm hj]
      · simp [hm]
  | @unlock l k hi =>
    rw [hi] at hruns
    have howner := (hs.mem_held_iff i l).mp hruns.1
    refine ⟨_, hs.update hruns.2 ((hs.nodup i).erase l) (fun m => ?_) fun j hj m => ?_⟩
    · rw [(hs.nodup i).mem_erase_iff, hs.mem_held_iff]
      by_cases hm : m = l
      · simp [hm]
      · simp [hm]
    · by_cases hm : m = l
      · subst hm
        simp [howner, Ne.symm hj]
      · simp [hm]

end Threads

/-- All interleavings of threads that execute programs of `calls` one after the other. -/
def threads {L σ ι : Type} [DecidableEq L] [DecidableEq ι] (calls : Set (Prog L σ Unit)) :
    LTS (Threads L σ ι) ι where
  start s := (∀ i, s.prog i = .ret ()) ∧ ∀ l, s.owner l = none
  step s i s' := Threads.Step calls s i s'

/-- If every path of the programs takes locks in ascending rank and releases them, threads that
execute them are disciplined in every reachable state. -/
theorem threads_disciplined {L σ ι : Type} [DecidableEq L] [DecidableEq ι]
    {calls : Set (Prog L σ Unit)} {rank : L → ℕ} (hcalls : ∀ p ∈ calls, p.Runs rank [] [])
    {s : Threads L σ ι} (h : (threads calls).Reachable s) : s.Disciplined := by
  have hholds : ∃ held, s.Holds rank held := by
    refine h.invariant (I := fun s => ∃ held, s.Holds rank held) ?_ ?_
    · rintro s ⟨hprog, howner⟩
      refine ⟨fun _ => [], fun i => ?_, fun i l => ?_, fun _ => List.nodup_nil⟩
      · rw [hprog]
        rfl
      · rw [howner]
        simp
    · rintro s i s' - ⟨held, hs⟩ hstep
      exact hs.step hcalls hstep
  obtain ⟨held, hs⟩ := hholds
  exact hs.disciplined

end Locks
