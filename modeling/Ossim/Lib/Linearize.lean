import Ossim.Lib.Locks
import Ossim.Lib.Simulation

/-!
# Calls that take effect at once

Threads share data that consist of parts, and each part has a lock that guards it.  A call works on
one part.  Its program may take and release locks as it likes, but all it does to the data lies in
one section of the lock that guards the part; `Prog.wp` is this judgement, with the rules by which
it is computed.

`interleaved` has the calls of any number of threads, interleaved at every lock and every action.
`atomic` has the same calls and returns, and in between each call takes effect in a single step.
The first system shows no other calls and returns than the second one (`linearizable`): a call takes
effect when it first acts on the data, and until it releases the lock the data of the second system
are ahead of the first.
-/

namespace Locks

variable {L O C ρ τ β ι : Type} {D : O → Type}

/-! ## Programs that work on one part -/

/-- A function of the data that reads and writes the part `o` only. -/
structure OnPart (o : O) (f : (∀ o, D o) → β × ∀ o, D o) : Prop where
  /-- The result depends on the part. -/
  result : ∀ {d d'}, d o = d' o → (f d).1 = (f d').1
  /-- So does the part afterwards. -/
  part : ∀ {d d'}, d o = d' o → (f d).2 o = (f d').2 o
  /-- The other parts stay. -/
  frame : ∀ d {o'}, o' ≠ o → (f d).2 o' = d o'

/-- How far a program is with the section in which it acts on the data. -/
inductive Phase
  /-- It has not acted. -/
  | before
  /-- It has acted and still holds the lock. -/
  | acting
  /-- It has released the lock. -/
  | after
  deriving DecidableEq

/-- The phase after the release of `l`. -/
def Phase.release [DecidableEq L] (g l : L) : Phase → Phase
  | .acting => if l = g then .after else .acting
  | ph => ph

namespace Prog

section

variable [DecidableEq L] {g : L} {o : O} {ph : Phase} {h : List L}
  {Q : Phase → List L → ρ → Prop} {R : Phase → List L → τ → Prop}

/-- Begun in the phase `ph` with the locks `h` held, every path of the program takes locks it does
not hold, releases locks it holds, and acts on the part `o` only, in one section of the lock `g`;
at its end `Q` holds. -/
def wp (g : L) (o : O) :
    Prog L (∀ o, D o) ρ → Phase → List L → (Phase → List L → ρ → Prop) → Prop
  | ret r, ph, h, Q => Q ph h r
  | act f k, ph, h, Q =>
    OnPart o f ∧ g ∈ h ∧ ph ≠ .after ∧ ∀ b, (k b).wp g o .acting h Q
  | lock l k, ph, h, Q => l ∉ h ∧ k.wp g o ph (l :: h) Q
  | unlock l k, ph, h, Q => l ∈ h ∧ k.wp g o (ph.release g l) (h.erase l) Q

@[simp] lemma wp_bind (p : Prog L (∀ o, D o) ρ) (q : ρ → Prog L (∀ o, D o) τ) :
    (p >>= q).wp g o ph h R ↔ p.wp g o ph h fun ph' h' r => (q r).wp g o ph' h' R := by
  show (p.bind q).wp g o ph h R ↔ _
  induction p generalizing ph h with
  | ret r => exact Iff.rfl
  | act f k ih => simp only [bind, wp, ih]
  | lock l k ih => simp only [bind, wp, ih]
  | unlock l k ih => simp only [bind, wp, ih]

@[simp] lemma wp_pure (r : ρ) : (pure r : Prog L (∀ o, D o) ρ).wp g o ph h Q ↔ Q ph h r := Iff.rfl

@[simp] lemma wp_acquire {Q : Phase → List L → Unit → Prop} (l : L) :
    (acquire l : Prog L (∀ o, D o) Unit).wp g o ph h Q ↔ l ∉ h ∧ Q ph (l :: h) () := Iff.rfl

@[simp] lemma wp_release {Q : Phase → List L → Unit → Prop} (l : L) :
    (release l : Prog L (∀ o, D o) Unit).wp g o ph h Q ↔
      l ∈ h ∧ Q (ph.release g l) (h.erase l) () := Iff.rfl

lemma wp_perform {Q : Phase → List L → β → Prop} {f : (∀ o, D o) → β × ∀ o, D o}
    (hf : OnPart o f) :
    (perform f : Prog L (∀ o, D o) β).wp g o ph h Q ↔
      g ∈ h ∧ ph ≠ .after ∧ ∀ b, Q .acting h b :=
  and_iff_right hf

/-- A program alone reads and writes the part only. -/
lemma onPart_exec {p : Prog L (∀ o, D o) ρ} (hp : p.wp g o ph h Q) : OnPart o p.exec := by
  induction p generalizing ph h with
  | ret r => exact ⟨fun _ => rfl, fun hd => hd, fun _ _ _ => rfl⟩
  | act f k ih =>
    obtain ⟨hf, -, -, hk⟩ := hp
    refine ⟨fun {d d'} hd => ?_, fun {d d'} hd => ?_, fun d o' ho => ?_⟩
    · show ((k (f d).1).exec (f d).2).1 = ((k (f d').1).exec (f d').2).1
      rw [hf.result hd]
      exact (ih _ (hk _)).result (hf.part hd)
    · show ((k (f d).1).exec (f d).2).2 o = ((k (f d').1).exec (f d').2).2 o
      rw [hf.result hd]
      exact (ih _ (hk _)).part (hf.part hd)
    · exact ((ih _ (hk (f d).1)).frame (f d).2 ho).trans (hf.frame d ho)
  | lock l k ih => exact ih hp.2
  | unlock l k ih => exact ih hp.2

/-- Behind its section a program does nothing to the data, and its result is settled. -/
lemma exec_of_after {p : Prog L (∀ o, D o) ρ} (hp : p.wp g o .after h Q) :
    ∃ r, ∀ d, p.exec d = (r, d) := by
  induction p generalizing h with
  | ret r => exact ⟨r, fun _ => rfl⟩
  | act f k ih => exact absurd rfl hp.2.2.1
  | lock l k ih => exact ih hp.2
  | unlock l k ih => exact ih hp.2

end

/-! ## Programs on a view of the data -/

variable {σ υ : Type}

/-- A program on the data `σ` as a program on the data `υ`, of which it sees `view`; `put` stores
what it leaves. -/
def lift (view : υ → σ) (put : σ → υ → υ) : Prog L σ ρ → Prog L υ ρ
  | ret r => ret r
  | act f k => act (fun d => ((f (view d)).1, put (f (view d)).2 d)) fun b => (k b).lift view put
  | lock l k => lock l (k.lift view put)
  | unlock l k => unlock l (k.lift view put)

variable {view : υ → σ} {put : σ → υ → υ}

@[simp] lemma lift_bind (p : Prog L σ ρ) (q : ρ → Prog L σ τ) :
    (p >>= q).lift view put = p.lift view put >>= fun r => (q r).lift view put := by
  show (p.bind q).lift view put = (p.lift view put).bind _
  induction p with
  | ret r => rfl
  | act f k ih => simp only [bind, lift, ih]
  | lock l k ih => simp only [bind, lift, ih]
  | unlock l k ih => simp only [bind, lift, ih]

@[simp] lemma lift_pure (r : ρ) : (pure r : Prog L σ ρ).lift view put = pure r := rfl

@[simp] lemma lift_acquire (l : L) : (acquire l : Prog L σ Unit).lift view put = acquire l := rfl

@[simp] lemma lift_release (l : L) : (release l : Prog L σ Unit).lift view put = release l := rfl

@[simp] lemma lift_perform (f : σ → β × σ) :
    (perform f : Prog L σ β).lift view put =
      perform fun d => ((f (view d)).1, put (f (view d)).2 d) := rfl

/-- Alone, it does to the data what the program does to the view. -/
lemma exec_lift (hview : ∀ x d, view (put x d) = x) (hput : ∀ x y d, put y (put x d) = put y d)
    (hsame : ∀ d, put (view d) d = d) (p : Prog L σ ρ) (d : υ) :
    (p.lift view put).exec d = ((p.exec (view d)).1, put (p.exec (view d)).2 d) := by
  induction p generalizing d with
  | ret r => exact Prod.ext rfl (hsame d).symm
  | act f k ih =>
    show ((k _).lift view put).exec _ = _
    rw [ih, hview, hput]
    rfl
  | lock l k ih => exact ih d
  | unlock l k ih => exact ih d

end Prog

/-! ## Threads that call -/

/-- Calls on the shared data. -/
structure Calls (L O C ρ : Type) (D : O → Type) [DecidableEq L] where
  /-- The lock that guards a part. -/
  guard : O → L
  /-- The part that a call works on. -/
  part : C → O
  /-- The program of a call. -/
  prog : C → Prog L (∀ o, D o) ρ
  /-- What a call does to the data, and its result. -/
  effect : C → (∀ o, D o) → ρ × ∀ o, D o
  /-- The program alone has this effect. -/
  exec_prog : ∀ c, (prog c).exec = effect c
  /-- It acts in one section of the lock of its part. -/
  wp_prog : ∀ c, (prog c).wp (guard (part c)) (part c) .before [] fun _ h _ => h = []

/-- What a thread shows. -/
inductive Event (C ρ : Type)
  /-- It calls. -/
  | call (c : C)
  /-- The call returns. -/
  | ret (r : ρ)

/-- The threads `ι` with the locks and the data. -/
structure Calling (L ρ ι : Type) (D : O → Type) where
  /-- What is left of the call of a thread, if it is in one. -/
  rest : ι → Option (Prog L (∀ o, D o) ρ)
  /-- The thread that holds a lock. -/
  owner : L → Option ι
  /-- The data. -/
  data : ∀ o, D o

/-- Where a thread is with a call that takes effect at once. -/
inductive Status (C ρ : Type)
  /-- It is not in a call. -/
  | idle
  /-- The call has not taken effect. -/
  | called (c : C)
  /-- It has, and the result is to be returned. -/
  | done (r : ρ)

/-- The threads `ι` with the data, where calls take effect at once. -/
structure Atomic (C ρ ι : Type) (D : O → Type) where
  /-- Where each thread is. -/
  status : ι → Status C ρ
  /-- The data. -/
  data : ∀ o, D o

variable [DecidableEq L] [DecidableEq ι] {K : Calls L O C ρ D}

/-- A step of a thread. -/
inductive Calling.Step (K : Calls L O C ρ D) (s : Calling L ρ ι D) (i : ι) :
    Option (Event C ρ) → Calling L ρ ι D → Prop
  /-- It calls. -/
  | call (c : C) (hi : s.rest i = none) :
      Step K s i (some (.call c)) { s with rest := Function.update s.rest i (some (K.prog c)) }
  /-- It acts on the data. -/
  | act {β : Type} {f : (∀ o, D o) → β × ∀ o, D o} {k} (hi : s.rest i = some (.act f k)) :
      Step K s i none { s with
        rest := Function.update s.rest i (some (k (f s.data).1)), data := (f s.data).2 }
  /-- It takes a lock that is free. -/
  | lock {l k} (hi : s.rest i = some (.lock l k)) (hfree : s.owner l = none) :
      Step K s i none { s with
        rest := Function.update s.rest i (some k)
        owner := Function.update s.owner l (some i) }
  /-- It releases a lock. -/
  | unlock {l k} (hi : s.rest i = some (.unlock l k)) :
      Step K s i none { s with
        rest := Function.update s.rest i (some k), owner := Function.update s.owner l none }
  /-- The call returns. -/
  | ret {r} (hi : s.rest i = some (.ret r)) :
      Step K s i (some (.ret r)) { s with rest := Function.update s.rest i none }

/-- A step of a thread whose calls take effect at once. -/
inductive Atomic.Step (K : Calls L O C ρ D) (a : Atomic C ρ ι D) (i : ι) :
    Option (Event C ρ) → Atomic C ρ ι D → Prop
  /-- It calls. -/
  | call (c : C) (hi : a.status i = .idle) :
      Step K a i (some (.call c)) { a with status := Function.update a.status i (.called c) }
  /-- The call takes effect. -/
  | effect {c : C} (hi : a.status i = .called c) :
      Step K a i none
        ⟨Function.update a.status i (.done (K.effect c a.data).1), (K.effect c a.data).2⟩
  /-- The call returns. -/
  | ret {r : ρ} (hi : a.status i = .done r) :
      Step K a i (some (.ret r)) { a with status := Function.update a.status i .idle }

/-- All interleavings of the calls of threads. -/
def interleaved (ι : Type) [DecidableEq ι] (K : Calls L O C ρ D) :
    LTS (Calling L ρ ι D) (ι × Option (Event C ρ)) where
  start s := (∀ i, s.rest i = none) ∧ ∀ l, s.owner l = none
  step s e s' := s.Step K e.1 e.2 s'

/-- The same threads where each call takes effect at once. -/
def atomic (ι : Type) [DecidableEq ι] (K : Calls L O C ρ D) :
    LTS (Atomic C ρ ι D) (ι × Option (Event C ρ)) where
  start a := ∀ i, a.status i = .idle
  step a e a' := a.Step K e.1 e.2 a'

/-- What a step shows: the thread that calls or returns, with the call or the result. -/
def shown (e : ι × Option (Event C ρ)) : Option (ι × Event C ρ) := e.2.map fun x => (e.1, x)

/-! ## The data with calls at once are ahead -/

/-- What is known of a thread in a call. -/
structure Mark (L O : Type) where
  /-- The part it works on. -/
  part : O
  /-- How far it is. -/
  phase : Phase
  /-- The locks it holds. -/
  held : List L

/-- What is left of a program when its call has, or has not, taken effect. -/
def Phase.Shows (K : Calls L O C ρ D) (o : O) (p : Prog L (∀ o, D o) ρ) (d d' : ∀ o, D o) :
    Phase → Status C ρ → Prop
  | .before, st => ∃ c, st = .called c ∧ K.part c = o ∧ p.exec = K.effect c
  | .acting, st => ∃ r, st = .done r ∧ (p.exec d).1 = r ∧ (p.exec d).2 o = d' o
  | .after, st => ∃ r, st = .done r ∧ ∀ x, p.exec x = (r, x)

/-- A thread in a call, with what is left of its program, the data `d`, and the data `d'` and the
status where calls take effect at once. -/
structure Mark.Shows (K : Calls L O C ρ D) (m : Mark L O) (p : Prog L (∀ o, D o) ρ)
    (d d' : ∀ o, D o) (st : Status C ρ) : Prop where
  /-- It keeps to its section. -/
  wp : p.wp (K.guard m.part) m.part m.phase m.held fun _ h _ => h = []
  /-- It holds no lock twice. -/
  nodup : m.held.Nodup
  /-- It holds the lock of its part while it acts. -/
  guard_mem : m.phase = .acting → K.guard m.part ∈ m.held
  /-- The status. -/
  status : m.phase.Shows K m.part p d d' st

/-- The two systems, with what is known of the threads. -/
structure Calling.Tracks (K : Calls L O C ρ D) (s : Calling L ρ ι D) (a : Atomic C ρ ι D)
    (mark : ι → Option (Mark L O)) : Prop where
  /-- The threads that are not in a call. -/
  idle : ∀ i, mark i = none → s.rest i = none ∧ a.status i = .idle
  /-- The others. -/
  running : ∀ i m, mark i = some m →
    ∃ p, s.rest i = some p ∧ m.Shows K p s.data a.data (a.status i)
  /-- The owners of the locks. -/
  owner : ∀ i l, s.owner l = some i ↔ ∃ m, mark i = some m ∧ l ∈ m.held
  /-- A part on which no thread acts is the same in both. -/
  data : ∀ o, (∀ i m, mark i = some m → m.phase = .acting → m.part ≠ o) → s.data o = a.data o

/-- Only the data of the part matter, and only to a thread that acts on it. -/
lemma Mark.Shows.congr {m : Mark L O} {p : Prog L (∀ o, D o) ρ} {d d' e e' : ∀ o, D o}
    {st : Status C ρ} (h : m.Shows K p d d' st)
    (hd : m.phase = .acting → e m.part = d m.part ∧ e' m.part = d' m.part) :
    m.Shows K p e e' st := by
  refine ⟨h.wp, h.nodup, h.guard_mem, ?_⟩
  have hpart := Prog.onPart_exec h.wp
  have hst := h.status
  obtain ⟨o, ph, held⟩ := m
  cases ph with
  | before => exact hst
  | after => exact hst
  | acting =>
    obtain ⟨r, hst, hr, hdata⟩ := hst
    obtain ⟨he, he'⟩ := hd rfl
    exact ⟨r, hst, (hpart.result he).trans hr, (hpart.part he).trans (hdata.trans he'.symm)⟩

namespace Calling.Tracks

variable {s s' : Calling L ρ ι D} {a a' : Atomic C ρ ι D} {mark : ι → Option (Mark L O)} {i : ι}

omit [DecidableEq ι] in
/-- No other thread acts on a part whose lock the thread holds. -/
lemma part_ne (h : s.Tracks K a mark) {o : O} (howner : s.owner (K.guard o) = some i) {j : ι}
    (hj : j ≠ i) {m : Mark L O} (hm : mark j = some m) (hphase : m.phase = .acting) :
    m.part ≠ o := by
  rintro rfl
  obtain ⟨p, -, hshows⟩ := h.running j m hm
  have hj' := (h.owner j _).mpr ⟨m, hm, hshows.guard_mem hphase⟩
  exact hj (Option.some.inj (hj'.symm.trans howner))

/-- A step of one thread. -/
lemma update (h : s.Tracks K a mark) {m' : Option (Mark L O)}
    (hrest : ∀ j, j ≠ i → s'.rest j = s.rest j) (hstatus : ∀ j, j ≠ i → a'.status j = a.status j)
    (hidle : m' = none → s'.rest i = none ∧ a'.status i = .idle)
    (hrunning : ∀ m, m' = some m →
      ∃ p, s'.rest i = some p ∧ m.Shows K p s'.data a'.data (a'.status i))
    (hself : ∀ l, s'.owner l = some i ↔ ∃ m, m' = some m ∧ l ∈ m.held)
    (hother : ∀ j, j ≠ i → ∀ l, s'.owner l = some j ↔ s.owner l = some j)
    (hframe : ∀ j m, j ≠ i → mark j = some m → m.phase = .acting →
      s'.data m.part = s.data m.part ∧ a'.data m.part = a.data m.part)
    (hdata : ∀ o, (∀ j m, j ≠ i → mark j = some m → m.phase = .acting → m.part ≠ o) →
      (∀ m, m' = some m → m.phase = .acting → m.part ≠ o) → s'.data o = a'.data o) :
    s'.Tracks K a' (Function.update mark i m') := by
  refine ⟨fun j hj => ?_, fun j m hm => ?_, fun j l => ?_, fun o ho => ?_⟩
  · by_cases hji : j = i
    · subst hji
      rw [Function.update_self] at hj
      exact hidle hj
    · rw [Function.update_of_ne hji] at hj
      rw [hrest j hji, hstatus j hji]
      exact h.idle j hj
  · by_cases hji : j = i
    · subst hji
      rw [Function.update_self] at hm
      exact hrunning m hm
    · rw [Function.update_of_ne hji] at hm
      rw [hrest j hji, hstatus j hji]
      obtain ⟨p, hp, hshows⟩ := h.running j m hm
      exact ⟨p, hp, hshows.congr fun hphase => hframe j m hji hm hphase⟩
  · by_cases hji : j = i
    · subst hji
      rw [Function.update_self]
      exact hself l
    · rw [Function.update_of_ne hji]
      exact (hother j hji l).trans (h.owner j l)
  · refine hdata o (fun j m hji hm => ?_) fun m hm => ?_
    · exact ho j m (by rw [Function.update_of_ne hji, hm])
    · exact ho i m (by rw [Function.update_self, hm])

omit [DecidableEq ι] in
lemma mark_of_idle (h : s.Tracks K a mark) (hi : s.rest i = none) :
    mark i = none ∧ a.status i = .idle := by
  cases hm : mark i with
  | none => exact ⟨rfl, (h.idle i hm).2⟩
  | some m =>
    obtain ⟨p, hp, -⟩ := h.running i m hm
    exact absurd (hi.symm.trans hp) (by simp)

omit [DecidableEq ι] in
lemma mark_of_rest (h : s.Tracks K a mark) {p : Prog L (∀ o, D o) ρ} (hi : s.rest i = some p) :
    ∃ m, mark i = some m ∧ m.Shows K p s.data a.data (a.status i) := by
  cases hm : mark i with
  | none => exact absurd (hi.symm.trans (h.idle i hm).1) (by simp)
  | some m =>
    obtain ⟨q, hq, hshows⟩ := h.running i m hm
    obtain rfl : p = q := Option.some.inj (hi.symm.trans hq)
    exact ⟨m, rfl, hshows⟩

omit [DecidableEq ι] in
lemma owner_iff (h : s.Tracks K a mark) {m : Mark L O} (hm : mark i = some m) (l : L) :
    s.owner l = some i ↔ l ∈ m.held := by
  rw [h.owner, hm]
  simp

/-- A thread calls. -/
lemma call (h : s.Tracks K a mark) (c : C) (hi : s.rest i = none) :
    Tracks K { s with rest := Function.update s.rest i (some (K.prog c)) }
      { a with status := Function.update a.status i (.called c) }
      (Function.update mark i (some ⟨K.part c, .before, []⟩)) := by
  obtain ⟨hmark, -⟩ := h.mark_of_idle hi
  refine h.update (fun j hj => Function.update_of_ne hj _ _)
    (fun j hj => Function.update_of_ne hj _ _) (by simp) (fun m hm => ?_) (fun l => ?_)
    (fun _ _ _ => Iff.rfl) (fun _ _ _ _ _ => ⟨rfl, rfl⟩) fun o ho _ => h.data o fun j m hm => ?_
  · obtain rfl := Option.some.inj hm
    refine ⟨_, Function.update_self .., K.wp_prog c, List.nodup_nil, by simp, c, ?_, rfl,
      K.exec_prog c⟩
    exact Function.update_self ..
  · show s.owner l = some i ↔ _
    rw [h.owner, hmark]
    simp
  · refine ho j m ?_ hm
    rintro rfl
    rw [hmark] at hm
    cases hm

/-- A thread whose call has taken effect acts on the data. -/
lemma act_acting (h : s.Tracks K a mark) {β : Type} {f : (∀ o, D o) → β × ∀ o, D o}
    {k : β → Prog L (∀ o, D o) ρ} {m : Mark L O} (hm : mark i = some m)
    (hshows : m.Shows K (.act f k) s.data a.data (a.status i)) (hphase : m.phase = .acting) :
    Tracks K { s with
        rest := Function.update s.rest i (some (k (f s.data).1)), data := (f s.data).2 } a
      (Function.update mark i (some m)) := by
  obtain ⟨hpart, hguard, -, hk⟩ := hshows.wp
  have howner := (h.owner_iff hm (K.guard m.part)).mpr hguard
  refine h.update (fun j hj => Function.update_of_ne hj _ _) (fun _ _ => rfl) (by simp)
    (fun m' hm' => ?_) (fun l => ?_) (fun _ _ _ => Iff.rfl) (fun j m' hj hm' hphase' => ⟨?_, rfl⟩)
    fun o ho hself => ?_
  · obtain rfl := Option.some.inj hm'
    refine ⟨_, Function.update_self .., ?_, hshows.nodup, hshows.guard_mem, ?_⟩
    · rw [hphase]
      exact hk _
    · have hst := hshows.status
      rw [hphase] at hst ⊢
      exact hst
  · rw [h.owner_iff hm]
    simp
  · exact hpart.frame _ (h.part_ne howner hj hm' hphase')
  · have hne : o ≠ m.part := fun ho => hself m rfl hphase ho.symm
    refine (hpart.frame _ hne).trans (h.data o fun j m' hm' hphase' => ?_)
    by_cases hj : j = i
    · subst hj
      obtain rfl := Option.some.inj (hm.symm.trans hm')
      exact hne.symm
    · exact ho j m' hj hm' hphase'

/-- A thread acts on the data for the first time: its call takes effect. -/
lemma act_before (h : s.Tracks K a mark) {β : Type} {f : (∀ o, D o) → β × ∀ o, D o}
    {k : β → Prog L (∀ o, D o) ρ} {m : Mark L O} (hm : mark i = some m)
    (hshows : m.Shows K (.act f k) s.data a.data (a.status i)) (hphase : m.phase = .before)
    {c : C} (hexec : (Prog.act f k).exec = K.effect c) :
    Tracks K { s with
        rest := Function.update s.rest i (some (k (f s.data).1)), data := (f s.data).2 }
      ⟨Function.update a.status i (.done (K.effect c a.data).1), (K.effect c a.data).2⟩
      (Function.update mark i (some ⟨m.part, .acting, m.held⟩)) := by
  obtain ⟨hpart, hguard, -, hk⟩ := hshows.wp
  have hall := Prog.onPart_exec hshows.wp
  rw [hexec] at hall
  have howner := (h.owner_iff hm (K.guard m.part)).mpr hguard
  have hother : ∀ j m', mark j = some m' → m'.phase = .acting → j ≠ i := by
    rintro j m' hm' hphase' rfl
    obtain rfl := Option.some.inj (hm.symm.trans hm')
    rw [hphase] at hphase'
    cases hphase'
  have hsame : s.data m.part = a.data m.part := h.data _ fun j m' hm' hphase' =>
    h.part_ne howner (hother j m' hm' hphase') hm' hphase'
  have hrest : (k (f s.data).1).exec (f s.data).2 = K.effect c s.data := by
    rw [← hexec]
    rfl
  refine h.update (fun j hj => Function.update_of_ne hj _ _)
    (fun j hj => Function.update_of_ne hj _ _) (by simp) (fun m' hm' => ?_) (fun l => ?_)
    (fun _ _ _ => Iff.rfl) (fun j m' hj hm' hphase' => ?_) fun o ho hself => ?_
  · obtain rfl := Option.some.inj hm'
    refine ⟨_, Function.update_self .., hk _, hshows.nodup, fun _ => hguard, _,
      Function.update_self .., ?_, ?_⟩
    · rw [hrest]
      exact hall.result hsame
    · rw [hrest]
      exact hall.part hsame
  · rw [h.owner_iff hm]
    simp
  · have hne := h.part_ne howner hj hm' hphase'
    exact ⟨hpart.frame _ hne, hall.frame _ hne⟩
  · have hne : o ≠ m.part := fun ho => hself _ rfl rfl ho.symm
    show (f s.data).2 o = (K.effect c a.data).2 o
    rw [hpart.frame _ hne, hall.frame _ hne]
    exact h.data o fun j m' hm' hphase' => ho j m' (hother j m' hm' hphase') hm' hphase'

/-- A thread takes a lock. -/
lemma lock (h : s.Tracks K a mark) {l : L} {k : Prog L (∀ o, D o) ρ} {m : Mark L O}
    (hm : mark i = some m) (hshows : m.Shows K (.lock l k) s.data a.data (a.status i))
    (hfree : s.owner l = none) :
    Tracks K { s with
        rest := Function.update s.rest i (some k)
        owner := Function.update s.owner l (some i) } a
      (Function.update mark i (some { m with held := l :: m.held })) := by
  obtain ⟨hnew, hk⟩ := hshows.wp
  refine h.update (fun j hj => Function.update_of_ne hj _ _) (fun _ _ => rfl) (by simp)
    (fun m' hm' => ?_) (fun l' => ?_) (fun j hj l' => ?_) (fun _ _ _ _ _ => ⟨rfl, rfl⟩)
    fun o ho hself => h.data o fun j m' hm' hphase' => ?_
  · obtain rfl := Option.some.inj hm'
    exact ⟨k, Function.update_self .., hk, List.nodup_cons.mpr ⟨hnew, hshows.nodup⟩,
      fun hphase => List.mem_cons_of_mem _ (hshows.guard_mem hphase), hshows.status⟩
  · have hheld := h.owner_iff hm l'
    by_cases hl : l' = l
    · subst hl
      simp
    · simp [hl, hheld]
  · by_cases hl : l' = l
    · subst hl
      simp [hfree, hj.symm]
    · simp [hl]
  · by_cases hj : j = i
    · subst hj
      obtain rfl := Option.some.inj (hm.symm.trans hm')
      exact hself { m with held := l :: m.held } rfl hphase'
    · exact ho j m' hj hm' hphase'

/-- A thread releases a lock. -/
lemma unlock (h : s.Tracks K a mark) {l : L} {k : Prog L (∀ o, D o) ρ} {m : Mark L O}
    (hm : mark i = some m) (hshows : m.Shows K (.unlock l k) s.data a.data (a.status i)) :
    Tracks K { s with
        rest := Function.update s.rest i (some k), owner := Function.update s.owner l none } a
      (Function.update mark i
        (some ⟨m.part, m.phase.release (K.guard m.part) l, m.held.erase l⟩)) := by
  obtain ⟨hheld, hk⟩ := hshows.wp
  have howner := (h.owner_iff hm l).mpr hheld
  have hst := hshows.status
  -- the data agree when the section ends
  have hclosed : m.phase = .acting → l = K.guard m.part →
      s.data m.part = a.data m.part ∧ Phase.after.Shows K m.part k s.data a.data (a.status i) := by
    intro hphase hl
    rw [hphase] at hk hst
    obtain ⟨r, hr⟩ := Prog.exec_of_after (by simpa [Phase.release, hl] using hk)
    obtain ⟨r', hdone, hresult, hdata⟩ := hst
    have hexec : (Prog.unlock l k).exec s.data = (r, s.data) := hr s.data
    rw [hexec] at hresult hdata
    obtain rfl : r = r' := hresult
    exact ⟨hdata, r, hdone, hr⟩
  refine h.update (fun j hj => Function.update_of_ne hj _ _) (fun _ _ => rfl) (by simp)
    (fun m' hm' => ?_) (fun l' => ?_) (fun j hj l' => ?_) (fun _ _ _ _ _ => ⟨rfl, rfl⟩)
    fun o ho hself => ?_
  · obtain rfl := Option.some.inj hm'
    refine ⟨k, Function.update_self .., hk, hshows.nodup.erase l, fun hphase => ?_, ?_⟩
    · dsimp only at hphase ⊢
      cases hph : m.phase with
      | acting =>
        have hl : l ≠ K.guard m.part := by
          rintro rfl
          simp [hph, Phase.release] at hphase
        exact (List.mem_erase_of_ne hl.symm).mpr (hshows.guard_mem hph)
      | before => simp [hph, Phase.release] at hphase
      | after => simp [hph, Phase.release] at hphase
    · dsimp only
      cases hph : m.phase with
      | before =>
        rw [hph] at hst
        exact hst
      | after =>
        rw [hph] at hst
        exact hst
      | acting =>
        by_cases hl : l = K.guard m.part
        · have hafter := (hclosed hph hl).2
          simpa only [Phase.release, if_pos hl] using hafter
        · rw [hph] at hst
          have hrelease : Phase.acting.release (K.guard m.part) l = .acting := if_neg hl
          rw [hrelease]
          exact hst
  · have hheld' := h.owner_iff hm l'
    by_cases hl : l' = l
    · subst hl
      simp [hshows.nodup.mem_erase_iff]
    · simp [hl, hheld', hshows.nodup.mem_erase_iff]
  · by_cases hl : l' = l
    · subst hl
      simp [howner, hj.symm]
    · simp [hl]
  · by_cases hacting : m.phase = .acting ∧ m.part = o
    · obtain ⟨hphase, rfl⟩ := hacting
      refine (hclosed hphase ?_).1
      by_contra hl
      exact hself _ rfl (by simp [hphase, Phase.release, hl]) rfl
    · refine h.data o fun j m' hm' hphase' => ?_
      by_cases hj : j = i
      · subst hj
        obtain rfl := Option.some.inj (hm.symm.trans hm')
        exact fun hpart => hacting ⟨hphase', hpart⟩
      · exact ho j m' hj hm' hphase'

/-- A call returns. -/
lemma ret (h : s.Tracks K a mark) {r : ρ} {m : Mark L O} (hm : mark i = some m)
    (hshows : m.Shows K (.ret r) s.data a.data (a.status i)) {a' : Atomic C ρ ι D}
    (hstatus : a'.status = Function.update a.status i .idle) (hdata : a'.data = a.data) :
    Tracks K { s with rest := Function.update s.rest i none } a'
      (Function.update mark i none) := by
  have hheld : m.held = [] := hshows.wp
  have hphase : m.phase ≠ .acting := by
    intro hphase
    have hguard := hshows.guard_mem hphase
    rw [hheld] at hguard
    cases hguard
  refine h.update (fun j hj => Function.update_of_ne hj _ _) (fun j hj => ?_) (fun _ => ?_)
    (by simp) (fun l => ?_) (fun _ _ _ => Iff.rfl) (fun _ _ _ _ _ => ⟨rfl, by rw [hdata]⟩)
    fun o ho _ => ?_
  · rw [hstatus, Function.update_of_ne hj]
  · rw [hstatus]
    exact ⟨Function.update_self .., Function.update_self ..⟩
  · show s.owner l = some i ↔ _
    rw [h.owner_iff hm, hheld]
    simp
  · rw [hdata]
    refine h.data o fun j m' hm' hphase' => ?_
    by_cases hj : j = i
    · subst hj
      obtain rfl := Option.some.inj (hm.symm.trans hm')
      exact absurd hphase' hphase
    · exact ho j m' hj hm' hphase'

/-- The step lemma: calls that take effect at once keep up with every step of a thread. -/
lemma step (h : s.Tracks K a mark) {e : Option (Event C ρ)} (ht : s.Step K i e s') :
    ∃ es a', (atomic ι K).Path a es a' ∧ es.filterMap shown = (shown (i, e)).toList ∧
      ∃ mark', s'.Tracks K a' mark' := by
  cases ht with
  | call c hi =>
    refine ⟨[(i, some (.call c))], _, .cons ?_ (.nil _), rfl, _, h.call c hi⟩
    exact Atomic.Step.call c (h.mark_of_idle hi).2
  | act hi =>
    obtain ⟨m, hm, hshows⟩ := h.mark_of_rest hi
    cases hphase : m.phase with
    | before =>
      have hst := hshows.status
      rw [hphase] at hst
      obtain ⟨c, hcalled, -, hexec⟩ := hst
      refine ⟨[(i, none)], _, .cons ?_ (.nil _), rfl, _, h.act_before hm hshows hphase hexec⟩
      exact Atomic.Step.effect hcalled
    | acting => exact ⟨[], a, .nil a, rfl, _, h.act_acting hm hshows hphase⟩
    | after =>
      obtain ⟨-, -, hnot, -⟩ := hshows.wp
      exact absurd hphase hnot
  | lock hi hfree =>
    obtain ⟨m, hm, hshows⟩ := h.mark_of_rest hi
    exact ⟨[], a, .nil a, rfl, _, h.lock hm hshows hfree⟩
  | unlock hi =>
    obtain ⟨m, hm, hshows⟩ := h.mark_of_rest hi
    exact ⟨[], a, .nil a, rfl, _, h.unlock hm hshows⟩
  | @ret r hi =>
    obtain ⟨m, hm, hshows⟩ := h.mark_of_rest hi
    have hst := hshows.status
    cases hphase : m.phase with
    | before =>
      -- a call that never acts takes effect when it returns
      rw [hphase] at hst
      obtain ⟨c, hcalled, -, hexec⟩ := hst
      have heffect : K.effect c a.data = (r, a.data) := by
        rw [← hexec]
        rfl
      refine ⟨[(i, none), (i, some (.ret r))], _,
        .cons (.effect hcalled) (.cons (.ret ?_) (.nil _)), rfl, _, h.ret hm hshows ?_ ?_⟩
      · show Function.update a.status i (.done (K.effect c a.data).1) i = _
        rw [Function.update_self, heffect]
      · exact Function.update_idem ..
      · rw [heffect]
    | acting =>
      have hguard := hshows.guard_mem hphase
      rw [show m.held = [] from hshows.wp] at hguard
      cases hguard
    | after =>
      rw [hphase] at hst
      obtain ⟨r', hdone, hr⟩ := hst
      obtain rfl : r = r' := congrArg Prod.fst (hr a.data)
      exact ⟨[(i, some (.ret r))], _, .cons (.ret hdone) (.nil _), rfl, _, h.ret hm hshows rfl rfl⟩

end Calling.Tracks

variable {s s' : Calling L ρ ι D}

/-- Threads outside of calls. -/
def Atomic.atRest (d : ∀ o, D o) : Atomic C ρ ι D := ⟨fun _ => .idle, d⟩

/-- At the start the two systems agree. -/
lemma tracks_of_start (hs : (interleaved ι K).start s) :
    s.Tracks K (.atRest s.data) fun _ => none := by
  obtain ⟨hrest, howner⟩ := hs
  refine ⟨fun i _ => ⟨hrest i, rfl⟩, fun i m hm => ?_, fun i l => ?_, fun _ _ => rfl⟩
  · cases hm
  · rw [howner]
    simp

/-- Every run with locks shows the calls and returns of a run in which each call takes effect at
once.  The threads that are in no call there are in none here, and a part whose lock is free is the
same in both. -/
theorem linearizable (hs : (interleaved ι K).start s) {es : List (ι × Option (Event C ρ))}
    (hrun : (interleaved ι K).Path s es s') :
    ∃ es' a, (atomic ι K).Path (.atRest s.data) es' a ∧
      es'.filterMap shown = es.filterMap shown ∧ (∀ i, s'.rest i = none → a.status i = .idle) ∧
      ∀ o, s'.owner (K.guard o) = none → s'.data o = a.data o := by
  have hstart : ∃ mark, s.Tracks K (.atRest s.data) mark := ⟨_, tracks_of_start hs⟩
  obtain ⟨es', a, hpath, hobs, mark, htracks⟩ := hrun.simulate
    (V := atomic ι K) (R := fun s a => ∃ mark, s.Tracks K a mark)
    (fun s e s' a ⟨mark, h⟩ ht => h.step ht) hstart
  refine ⟨es', a, hpath, hobs, fun i hi => (htracks.mark_of_idle hi).2, fun o ho => ?_⟩
  refine htracks.data o fun i m hm hphase => ?_
  rintro rfl
  obtain ⟨p, -, hshows⟩ := htracks.running i m hm
  exact absurd ho (by simp [(htracks.owner_iff hm _).mpr (hshows.guard_mem hphase)])

/-- What every call keeps of its part holds of a part whose lock is free. -/
theorem invariant_of_free {o : O} {I : D o → Prop}
    (hstep : ∀ c d, K.part c = o → I (d o) → I ((K.effect c d).2 o))
    (hs : (interleaved ι K).start s) (hI : I (s.data o)) {es : List (ι × Option (Event C ρ))}
    (hrun : (interleaved ι K).Path s es s') (hfree : s'.owner (K.guard o) = none) :
    I (s'.data o) := by
  obtain ⟨es', a, hpath, -, -, hdata⟩ := linearizable hs hrun
  rw [hdata o hfree]
  refine hpath.invariant (I := fun a => I (a.data o)) ?_ hI
  rintro a ⟨i, e⟩ a' ha ht
  change a.Step K i e a' at ht
  cases ht with
  | call c hi => exact ha
  | @effect c hi =>
    by_cases hc : K.part c = o
    · exact hstep c a.data hc ha
    · have hpart := Prog.onPart_exec (K.wp_prog c)
      rw [K.exec_prog] at hpart
      show I ((K.effect c a.data).2 o)
      rw [hpart.frame a.data (Ne.symm hc)]
      exact ha
  | ret hi => exact ha

/-- A thread acts on a part only while it holds the lock of the part. -/
theorem guarded_of_act (hs : (interleaved ι K).Reachable s) {i : ι} {f : (∀ o, D o) → β × ∀ o, D o}
    {k : β → Prog L (∀ o, D o) ρ} (hi : s.rest i = some (.act f k)) :
    ∃ o, OnPart o f ∧ s.owner (K.guard o) = some i := by
  have htracks : ∃ (a : Atomic C ρ ι D) (mark : _), s.Tracks K a mark := by
    refine hs.invariant (I := fun s => ∃ (a : Atomic C ρ ι D) (mark : _), s.Tracks K a mark) ?_ ?_
    · exact fun s hs => ⟨_, _, tracks_of_start hs⟩
    · rintro s e s' - ⟨a, mark, h⟩ ht
      obtain ⟨-, a', -, -, mark', h'⟩ := h.step ht
      exact ⟨a', mark', h'⟩
  obtain ⟨a, mark, h⟩ := htracks
  obtain ⟨m, hm, hshows⟩ := h.mark_of_rest hi
  obtain ⟨hpart, hguard, -, -⟩ := hshows.wp
  exact ⟨m.part, hpart, (h.owner_iff hm _).mpr hguard⟩

end Locks
