import Ossim.Paging.Memphy

/-!
# Sequential devices

Sequences of `MEMPHY_read` and `MEMPHY_write` on a sequential device (`rdmflg` 0), compared with the
same sequence on a random access device.  A sequential device should answer alike, with its cursor
at the accessed address.  It answers nothing: `MEMPHY_seq_read` and `MEMPHY_seq_write` refuse a
device whose `rdmflg` is 0, and they are called for such a device only (`serve_of_sequential`), so
that the two devices agree on the empty sequence and on no other (`agreesWithRandom_iff`).

The test is all that is wrong.  On devices that pass it the two functions do what the random access
functions do and leave the cursor at the address, which the loop of `MEMPHY_mv_csr` reaches without
wrapping (`seqAccess_agreesWithRandom`).
-/

namespace Ossim

/-- An access to a device. -/
inductive MemphyCall
  /-- `MEMPHY_read`. -/
  | read (addr : ℤ)
  /-- `MEMPHY_write`. -/
  | write (addr : ℤ) (data : Byte)

/-- The accessed address. -/
def MemphyCall.addr : MemphyCall → ℤ
  | .read addr => addr
  | .write addr _ => addr

namespace Memphy

/-- `MEMPHY_read` or `MEMPHY_write`: the status, the byte stored through `value`, the device. -/
def access (mp : Memphy) : MemphyCall → (ℤ × Option Byte) × Memphy
  | .read addr =>
    let (status, mp, value) := mp.read addr
    ((status, value), mp)
  | .write addr data =>
    let (status, mp) := mp.write addr data
    ((status, none), mp)

/-- `MEMPHY_seq_read` or `MEMPHY_seq_write`. -/
def seqAccess (mp : Memphy) : MemphyCall → (ℤ × Option Byte) × Memphy
  | .read addr =>
    let (status, mp, value) := mp.seqRead addr
    ((status, value), mp)
  | .write addr data =>
    let (status, mp) := mp.seqWrite addr data
    ((status, none), mp)

/-- The answers to a sequence of accesses, and the device after them. -/
def serve (f : Memphy → MemphyCall → (ℤ × Option Byte) × Memphy) :
    Memphy → List MemphyCall → List (ℤ × Option Byte) × Memphy
  | mp, [] => ([], mp)
  | mp, k :: calls =>
    let (answer, mp) := f mp k
    let (answers, mp) := serve f mp calls
    (answer :: answers, mp)

/-- Served by `f`, the device `seq` answers as the random access device `rnd` does. -/
structure AgreesWithRandom (f : Memphy → MemphyCall → (ℤ × Option Byte) × Memphy)
    (seq rnd : Memphy) (calls : List MemphyCall) : Prop where
  /-- The statuses and the bytes are the same. -/
  answers : (serve f seq calls).1 = (serve access rnd calls).1
  /-- The storage is the same in the end. -/
  storage : (serve f seq calls).2.storage = (serve access rnd calls).2.storage
  /-- After each access the cursor is at the accessed address. -/
  cursor : ∀ before k after, calls = before ++ k :: after →
    (serve f seq (before ++ [k])).2.cursor = k.addr

variable {mp seq rnd : Memphy} {calls : List MemphyCall}

lemma serve_cons (f : Memphy → MemphyCall → (ℤ × Option Byte) × Memphy) (mp : Memphy)
    (k : MemphyCall) (calls : List MemphyCall) : serve f mp (k :: calls) =
      ((f mp k).1 :: (serve f (f mp k).2 calls).1, (serve f (f mp k).2 calls).2) := rfl

/-! ## What the code does -/

/-- A sequential device refuses every access. -/
lemma access_of_sequential (h : mp.rdmflg = false) (k : MemphyCall) :
    mp.access k = ((-1, none), mp) := by
  cases k with
  | read addr => simp [access, read, seqRead, h]
  | write addr data => simp [access, write, seqWrite, h]

/-- A sequential device refuses every sequence of accesses. -/
lemma serve_of_sequential (h : mp.rdmflg = false) (calls : List MemphyCall) :
    serve access mp calls = (calls.map fun _ => (-1, none), mp) := by
  induction calls with
  | nil => rfl
  | cons k calls ih => rw [serve_cons, access_of_sequential h, ih, List.map_cons]

/-- A random access device refuses no access. -/
lemma status_access_of_rdmflg (h : mp.rdmflg = true) (k : MemphyCall) : (mp.access k).1.1 = 0 := by
  cases k with
  | read addr => simp [access, read_of_rdmflg h]
  | write addr data => simp [access, write_of_rdmflg h]

/-- A sequential device agrees with a random access one on no access, and only on none. -/
theorem agreesWithRandom_iff (hseq : seq.rdmflg = false) (hrnd : rnd.rdmflg = true)
    (hsame : seq.storage = rnd.storage) : AgreesWithRandom access seq rnd calls ↔ calls = [] := by
  constructor
  · intro h
    have hanswers := h.answers
    rw [serve_of_sequential hseq] at hanswers
    cases calls with
    | nil => rfl
    | cons k calls =>
      rw [serve_cons] at hanswers
      have hfirst : (-1, none) = (rnd.access k).1 := (List.cons.inj hanswers).1
      have hstatus := status_access_of_rdmflg hrnd k
      rw [← hfirst] at hstatus
      exact absurd hstatus (by decide)
  · rintro rfl
    refine ⟨rfl, hsame, fun before k after heq => ?_⟩
    exact absurd heq.symm (List.append_ne_nil_of_right_ne_nil _ (List.cons_ne_nil _ _))

/-- A device of 256 bytes, as `init_memphy` makes it. -/
def page (randomflg : Bool) : Memphy :=
  initMemphy ⟨fun _ => 0#8, 0, false, 0, []⟩ [] 256 randomflg

/-- The two modes on a read of the last byte. -/
theorem agreesWithRandom_iff_last :
    AgreesWithRandom access (page false) (page true) [.read 255] ↔ [MemphyCall.read 255] = [] :=
  agreesWithRandom_iff rfl rfl rfl

/-- A read of the last byte is refused. -/
theorem not_agreesWithRandom_last : ¬ ∀ (seq rnd : Memphy) (calls : List MemphyCall),
    seq.rdmflg = false → rnd.rdmflg = true → seq.maxsz = rnd.maxsz → seq.storage = rnd.storage →
    (∀ k ∈ calls, 0 ≤ k.addr ∧ k.addr < seq.maxsz) → AgreesWithRandom access seq rnd calls := by
  intro h
  have hlast := h (page false) (page true) [.read 255] rfl rfl rfl rfl (by decide)
  exact absurd hlast.answers (by decide)

/-! ## Behind the test -/

/-- The loop of `MEMPHY_mv_csr` does not wrap before the end of the device. -/
lemma mvCsrLoop_eq {maxsz cursor : ℤ} {n : ℕ} (hlo : 0 ≤ cursor) (hhi : cursor + n < maxsz) :
    mvCsrLoop maxsz n cursor = cursor + n := by
  induction n generalizing cursor with
  | zero => simp [mvCsrLoop]
  | succ n ih =>
    push_cast at hhi
    have hnext : (cursor + 1).tmod maxsz = cursor + 1 :=
      Int.tmod_eq_of_lt (by omega) (by omega)
    rw [mvCsrLoop, hnext, ih (by omega) (by omega)]
    push_cast
    omega

/-- `MEMPHY_mv_csr` moves the cursor to every address of the device. -/
lemma cursor_mvCsr {addr : ℤ} (hlo : 0 ≤ addr) (hhi : addr < mp.maxsz) :
    (mp.mvCsr addr).cursor = addr := by
  have hturns : (min addr mp.maxsz).toNat = addr.toNat := by omega
  show mvCsrLoop mp.maxsz (min addr mp.maxsz).toNat 0 = addr
  rw [hturns, mvCsrLoop_eq (Int.le_refl 0) (by omega)]
  omega

/-- A device that passes the test of the sequential functions, with the contents of a random access
device. -/
structure Alike (seq rnd : Memphy) : Prop where
  /-- It passes the test. -/
  flag : seq.rdmflg = true
  /-- The other one is a random access device. -/
  random : rnd.rdmflg = true
  /-- The sizes are the same. -/
  maxsz : seq.maxsz = rnd.maxsz
  /-- The contents are the same. -/
  storage : seq.storage = rnd.storage

lemma seqRead_of_rdmflg (h : mp.rdmflg = true) (addr : ℤ) :
    mp.seqRead addr = (0, mp.mvCsr addr, some (mp.storage addr)) := by
  simp [seqRead, h, mvCsr]

lemma seqWrite_of_rdmflg (h : mp.rdmflg = true) (addr : ℤ) (value : Byte) :
    mp.seqWrite addr value =
      (0, { mp.mvCsr addr with storage := Function.update mp.storage addr value }) := by
  simp [seqWrite, h, mvCsr]

/-- One access behind the test. -/
lemma Alike.access (h : Alike seq rnd) (k : MemphyCall) :
    (seq.seqAccess k).1 = (rnd.access k).1 ∧ Alike (seq.seqAccess k).2 (rnd.access k).2 ∧
      (0 ≤ k.addr → k.addr < seq.maxsz → (seq.seqAccess k).2.cursor = k.addr) := by
  cases k with
  | read addr =>
    rw [seqAccess, Memphy.access, seqRead_of_rdmflg h.flag, read_of_rdmflg h.random, h.storage]
    exact ⟨rfl, ⟨h.flag, h.random, h.maxsz, h.storage⟩, cursor_mvCsr⟩
  | write addr data =>
    rw [seqAccess, Memphy.access, seqWrite_of_rdmflg h.flag, write_of_rdmflg h.random, h.storage]
    exact ⟨rfl, ⟨h.flag, h.random, h.maxsz, rfl⟩, cursor_mvCsr⟩

/-- All accesses behind the test. -/
lemma Alike.serve (h : Alike seq rnd) (calls : List MemphyCall) :
    (Memphy.serve seqAccess seq calls).1 = (Memphy.serve Memphy.access rnd calls).1 ∧
      Alike (Memphy.serve seqAccess seq calls).2 (Memphy.serve Memphy.access rnd calls).2 := by
  induction calls generalizing seq rnd with
  | nil => exact ⟨rfl, h⟩
  | cons k calls ih =>
    obtain ⟨hanswer, hnext, -⟩ := h.access k
    obtain ⟨hanswers, hlast⟩ := ih hnext
    exact ⟨congrArg₂ List.cons hanswer hanswers, hlast⟩

lemma serve_append (f : Memphy → MemphyCall → (ℤ × Option Byte) × Memphy) (mp : Memphy)
    (before after : List MemphyCall) :
    (Memphy.serve f mp (before ++ after)).2 =
      (Memphy.serve f (Memphy.serve f mp before).2 after).2 := by
  induction before generalizing mp with
  | nil => rfl
  | cons k before ih => rw [List.cons_append, serve_cons, serve_cons, ih]

/-- No access changes the size of a device that passes the test. -/
lemma Alike.maxsz_serve (h : Alike seq rnd) (calls : List MemphyCall) :
    (Memphy.serve seqAccess seq calls).2.maxsz = seq.maxsz := by
  induction calls generalizing seq rnd with
  | nil => rfl
  | cons k calls ih =>
    obtain ⟨-, hnext, -⟩ := h.access k
    rw [serve_cons, ih hnext]
    cases k with
    | read addr => rw [seqAccess, seqRead_of_rdmflg h.flag]; rfl
    | write addr data => rw [seqAccess, seqWrite_of_rdmflg h.flag]; rfl

/-- Behind the test, the sequential functions agree with the random access ones on every sequence of
accesses to the device. -/
theorem seqAccess_agreesWithRandom (h : Alike seq rnd)
    (hcalls : ∀ k ∈ calls, 0 ≤ k.addr ∧ k.addr < seq.maxsz) :
    AgreesWithRandom seqAccess seq rnd calls := by
  obtain ⟨hanswers, hlast⟩ := h.serve calls
  refine ⟨hanswers, hlast.storage, fun before k after heq => ?_⟩
  have hk : k ∈ calls := heq ▸ List.mem_append_right _ List.mem_cons_self
  obtain ⟨hlo, hhi⟩ := hcalls k hk
  obtain ⟨-, hbefore⟩ := h.serve before
  have hsize := h.maxsz_serve before
  rw [serve_append]
  exact (hbefore.access k).2.2 hlo (hsize ▸ hhi)

end Memphy

end Ossim
