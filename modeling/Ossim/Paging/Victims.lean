import Ossim.Lib.Linked
import Ossim.Lib.Transition
import Ossim.Paging.Effects

/-!
# The order of victims

The resident list `fifo_pgn` as the chain of `struct pgn_t` nodes on which `enlist_pgn_node` of
`src/mm.c` and `find_victim_page` of `src/mm-vm.c` work: a new node goes in front, and a victim is
found by a walk to the last node, which is unlinked and freed.  The list in front of `fifo_pgn` is
the newest page first; `PgnList.Represents` relates it to the list of `Ossim.Paging.Mm`.

The runs record which pages were enlisted and which ones `find_victim_page` returned, in order.
What was returned together with what is on the list, oldest page first, is what was enlisted
(`VictimRun.InOrder`), and so the list is a first-in, first-out queue (`findVictimPage_fifo`).
-/

namespace Ossim

/-- `mm->fifo_pgn` with the memory of its nodes. -/
structure PgnList where
  /-- The memory for `struct pgn_t` nodes, which hold a page number. -/
  heap : LinkedHeap.Heap ℤ
  /-- `fifo_pgn`. -/
  fifoPgn : Option ℕ

/-- The loop of `find_victim_page` with the node `pg` behind `prev`, and a bound on its turns: the
last two nodes, `none` when the bound is reached. -/
def lastLoop (h : LinkedHeap.Heap ℤ) : ℕ → ℕ → ℕ → Option (ℕ × ℕ)
  | 0, _, _ => none
  | n + 1, prev, pg =>
    match (h.cell pg).next with
    | none => some (prev, pg)
    | some pgNext => lastLoop h n pg pgNext

namespace PgnList

/-- `enlist_pgn_node`. -/
def enlistPgnNode (m : PgnList) (pgn : ℤ) : PgnList where
  heap := m.heap.malloc.store m.heap.brk ⟨pgn, m.fifoPgn⟩
  fifoPgn := some m.heap.brk

/-- `find_victim_page`: the status and the page stored through `retpgn`.  The loop may take as many
turns as there are cells; `none` when it takes more. -/
def findVictimPage (m : PgnList) : Option (ℤ × Option ℤ × PgnList) :=
  match m.fifoPgn with
  | none => some (-1, none, m)
  | some pg =>
    match (m.heap.cell pg).next with
    | none => some (0, some (m.heap.cell pg).val, { heap := m.heap.free pg, fifoPgn := none })
    | some pgNext =>
      -- the test above allows the first turn of the loop, which assigns `prev`
      (lastLoop m.heap m.heap.brk pg pgNext).map fun (prev, pg) =>
        let h := m.heap.store prev { m.heap.cell prev with next := none }
        (0, some (h.cell pg).val, { m with heap := h.free pg })

end PgnList

/-! ## The nodes as a list -/

/-- The loop ends at the last two nodes of the list. -/
lemma lastLoop_spec {h : LinkedHeap.Heap ℤ} {n prev pg : ℕ} {p : Option ℕ} {front m : List ℤ}
    (hs : h.IsSeg p front (some prev)) (hlive : h.live prev = true)
    (hnext : (h.cell prev).next = some pg) (hm : h.IsList (some pg) m) (hn : m.length ≤ n) :
    ∃ front' x y prev' last, lastLoop h n prev pg = some (prev', last) ∧
      h.IsSeg p front' (some prev') ∧ h.IsList (some prev') [x, y] ∧
      (h.cell prev').next = some last ∧ (h.cell last).val = y ∧
      front ++ (h.cell prev).val :: m = front' ++ [x, y] := by
  induction m generalizing n prev pg front with
  | nil => cases hm
  | cons v rest ih =>
    obtain ⟨n, rfl⟩ : ∃ k, n = k + 1 := ⟨n - 1, by simp at hn; omega⟩
    obtain ⟨ys, heq, hlivepg, hrest⟩ := LinkedHeap.Heap.isList_some.mp hm
    obtain ⟨rfl, rfl⟩ := List.cons.inj heq
    unfold lastLoop
    cases rest with
    | nil =>
      -- `pg` is the last node
      have hend : (h.cell pg).next = none := hrest
      rw [hend]
      refine ⟨front, _, _, prev, pg, rfl, hs, ?_, hnext, rfl, rfl⟩
      refine LinkedHeap.Heap.isList_some.mpr ⟨_, rfl, hlive, ?_⟩
      rw [hnext]
      exact hm
    | cons w rest =>
      have hlist := hrest
      obtain ⟨pgNext, hpgNext, -⟩ := hrest
      rw [hpgNext] at hlist
      rw [hpgNext]
      have hseg := hs.concat hlive
      rw [hnext] at hseg
      obtain ⟨front', x, y, prev', last, hloop, hrestSpec⟩ :=
        ih hseg hlivepg hpgNext hlist (Nat.le_of_succ_le_succ hn)
      rw [List.append_assoc, List.singleton_append] at hrestSpec
      exact ⟨front', x, y, prev', last, hloop, hrestSpec⟩

namespace PgnList

variable {m : PgnList} {l : List ℤ}

lemma isList_enlistPgnNode (hl : m.heap.IsList m.fifoPgn l) (pgn : ℤ) :
    (m.enlistPgnNode pgn).heap.IsList (m.enlistPgnNode pgn).fifoPgn (pgn :: l) := hl.push pgn

/-- There is no victim on an empty list. -/
lemma findVictimPage_of_nil (hl : m.heap.IsList m.fifoPgn []) :
    m.findVictimPage = some (-1, none, m) := by
  unfold findVictimPage
  rw [show m.fifoPgn = none from hl]

/-- The victim is the last page of the list; the others stay as they are. -/
lemma findVictimPage_of_concat {x : ℤ} (hl : m.heap.IsList m.fifoPgn (l ++ [x])) :
    ∃ pages, m.findVictimPage = some (0, some x, pages) ∧ pages.heap.IsList pages.fifoPgn l := by
  have hbrk := hl.length_le_brk
  unfold findVictimPage
  cases hhead : m.fifoPgn with
  | none =>
    rw [hhead, LinkedHeap.Heap.isList_none] at hl
    simp at hl
  | some pg =>
    rw [hhead] at hl
    obtain ⟨rest, heq, hlive, hrest⟩ := LinkedHeap.Heap.isList_some.mp hl
    cases hnext : (m.heap.cell pg).next with
    | none =>
      -- the only node
      rw [hnext, LinkedHeap.Heap.isList_none] at hrest
      rw [hrest] at heq
      obtain ⟨rfl, hx⟩ := List.append_inj' (heq.trans (List.nil_append _).symm) rfl
      obtain rfl := List.singleton_inj.mp hx
      exact ⟨⟨m.heap.free pg, none⟩, by simp [hnext], rfl⟩
    | some pgNext =>
      rw [hnext] at hrest
      have hlen : rest.length ≤ m.heap.brk := by
        rw [heq, List.length_cons] at hbrk
        omega
      have hstart : m.heap.IsSeg (some pg) [] (some pg) := rfl
      obtain ⟨front, y, z, prev, last, hloop, hseg, hpair, hprev, hlast, hsplit⟩ :=
        lastLoop_spec hstart hlive hnext hrest hlen
      have hboth : l ++ [x] = front ++ [y] ++ [z] := by
        rw [heq, List.append_assoc]
        exact hsplit
      obtain ⟨rfl, hx⟩ := List.append_inj' hboth rfl
      obtain rfl := List.singleton_inj.mp hx
      refine ⟨⟨(m.heap.store prev { m.heap.cell prev with next := none }).free last, some pg⟩, ?_,
        hseg.cut hpair hprev⟩
      simp [hnext, hloop, LinkedHeap.Heap.cell_store_of_ne (hpair.next_ne hprev).symm, hlast]

/-- The list of `Ossim.Paging.Mm` is that of the nodes. -/
def Represents (m : PgnList) (list : List ℕ) : Prop :=
  m.heap.IsList m.fifoPgn (list.map Nat.cast)

/-- `enlist_pgn_node` does to the nodes what it does to the list. -/
lemma Represents.enlistPgnNode {list : List ℕ} (h : m.Represents list) (pgn : ℕ) :
    (m.enlistPgnNode pgn).Represents (Ossim.enlistPgnNode list pgn) :=
  isList_enlistPgnNode h pgn

/-- `find_victim_page` does to the nodes what it does to the list. -/
lemma Represents.findVictimPage {mm : Mm} (h : m.Represents mm.fifoPgn) :
    (Ossim.findVictimPage mm = none ∧ m.findVictimPage = some (-1, none, m)) ∨
    ∃ victim mm' pages, Ossim.findVictimPage mm = some (victim, mm') ∧
      m.findVictimPage = some (0, some (victim : ℤ), pages) ∧ pages.Represents mm'.fifoPgn := by
  unfold Represents at h
  rcases List.eq_nil_or_concat' mm.fifoPgn with hnil | ⟨list, victim, hlist⟩
  · rw [hnil] at h
    exact .inl ⟨Caller.findVictimPage_eq_none.mpr hnil, findVictimPage_of_nil h⟩
  · rw [hlist, List.map_append] at h
    obtain ⟨pages, hfind, hpages⟩ := findVictimPage_of_concat h
    have hvictim := Caller.takeTail_eq_some.mpr hlist
    exact .inr ⟨victim, _, pages, Caller.findVictimPage_eq_some.mpr ⟨list, hvictim, rfl⟩, hfind,
      hpages⟩

end PgnList

/-! ## Runs -/

/-- A call on the resident list. -/
inductive PgnCall
  /-- `enlist_pgn_node`. -/
  | enlist (pgn : ℤ)
  /-- `find_victim_page`. -/
  | findVictim

/-- A resident list with the pages that were enlisted and those that were returned, in order. -/
structure VictimRun where
  /-- The list. -/
  pages : PgnList
  /-- The pages that `enlist_pgn_node` put on the list. -/
  enlisted : List ℤ
  /-- The pages that `find_victim_page` returned. -/
  taken : List ℤ

namespace VictimRun

/-- The state after a call; `none` when it does not return. -/
def call (w : VictimRun) : PgnCall → Option VictimRun
  | .enlist pgn => some ⟨w.pages.enlistPgnNode pgn, w.enlisted ++ [pgn], w.taken⟩
  | .findVictim => w.pages.findVictimPage.map fun (_, retpgn, pages) =>
    ⟨pages, w.enlisted, w.taken ++ retpgn.toList⟩

/-- The calls in any order, on a list that is empty at first, whatever the memory holds. -/
def system : LTS VictimRun PgnCall where
  start w := w.pages.fifoPgn = none ∧ w.enlisted = [] ∧ w.taken = []
  step w k w' := w.call k = some w'

/-- The pages that are on the list, oldest one first, were enlisted behind those that were
returned. -/
def InOrder (w : VictimRun) (waiting : List ℤ) : Prop :=
  w.enlisted = w.taken ++ waiting ∧ w.pages.heap.IsList w.pages.fifoPgn waiting.reverse

variable {w : VictimRun} {waiting : List ℤ}

lemma InOrder.enlist (h : w.InOrder waiting) (pgn : ℤ) :
    ∃ w', w.call (.enlist pgn) = some w' ∧ w'.InOrder (waiting ++ [pgn]) := by
  obtain ⟨horder, hlist⟩ := h
  refine ⟨_, rfl, ?_, ?_⟩
  · rw [horder, List.append_assoc]
  · rw [List.reverse_concat]
    exact PgnList.isList_enlistPgnNode hlist pgn

/-- Without a page on the list nothing happens. -/
lemma InOrder.findVictim_of_nil (h : w.InOrder []) : w.call .findVictim = some w := by
  have hfind := PgnList.findVictimPage_of_nil h.2
  simp [call, hfind]

/-- The page that was enlisted first is returned. -/
lemma InOrder.findVictim_of_cons {pgn : ℤ} (h : w.InOrder (pgn :: waiting)) :
    ∃ pages, w.pages.findVictimPage = some (0, some pgn, pages) ∧
      pages.heap.IsList pages.fifoPgn waiting.reverse ∧
      w.call .findVictim = some ⟨pages, w.enlisted, w.taken ++ [pgn]⟩ ∧
      InOrder ⟨pages, w.enlisted, w.taken ++ [pgn]⟩ waiting := by
  obtain ⟨horder, hlist⟩ := h
  rw [List.reverse_cons] at hlist
  obtain ⟨pages, hfind, hpages⟩ := PgnList.findVictimPage_of_concat hlist
  refine ⟨pages, hfind, hpages, by simp [call, hfind], ?_, hpages⟩
  rw [horder, List.append_assoc, List.singleton_append]

lemma exists_inOrder (hw : system.Reachable w) : ∃ waiting, w.InOrder waiting := by
  refine hw.invariant (I := fun w => ∃ waiting, w.InOrder waiting) (fun w h => ?_)
    fun w k w' _ h ht => ?_
  · obtain ⟨hnull, henlisted, htaken⟩ := h
    refine ⟨[], ?_, hnull⟩
    rw [henlisted, htaken, List.append_nil]
  · obtain ⟨waiting, h⟩ := h
    cases k with
    | enlist pgn =>
      obtain ⟨w'', hcall, hw''⟩ := h.enlist pgn
      obtain rfl := Option.some.inj (hcall.symm.trans ht)
      exact ⟨_, hw''⟩
    | findVictim =>
      cases waiting with
      | nil =>
        obtain rfl := Option.some.inj (h.findVictim_of_nil.symm.trans ht)
        exact ⟨[], h⟩
      | cons pgn waiting =>
        obtain ⟨pages, -, -, hcall, hw''⟩ := h.findVictim_of_cons
        obtain rfl := Option.some.inj (hcall.symm.trans ht)
        exact ⟨waiting, hw''⟩

/-- In every reachable state the pages that were returned are the first ones enlisted, in order, and
the list holds the others, oldest one last.  `find_victim_page` returns: with -1, and nothing
happens, if and only if as many pages were taken as were enlisted, and otherwise with the page that
is the next one in the order of enlisting, which leaves the rest of the list as it is. -/
theorem findVictimPage_fifo (hw : system.Reachable w) :
    w.taken = w.enlisted.take w.taken.length ∧
    w.pages.heap.IsList w.pages.fifoPgn (w.enlisted.drop w.taken.length).reverse ∧
    ∃ status retpgn pages, w.pages.findVictimPage = some (status, retpgn, pages) ∧
      (status = -1 ↔ w.taken.length = w.enlisted.length) ∧
      (status = -1 → retpgn = none ∧ pages = w.pages) ∧
      (status ≠ -1 → status = 0 ∧ ∃ pgn, retpgn = some pgn ∧
        w.enlisted[w.taken.length]? = some pgn ∧
        pages.heap.IsList pages.fifoPgn (w.enlisted.drop (w.taken.length + 1)).reverse) := by
  obtain ⟨waiting, h⟩ := exists_inOrder hw
  have horder := h.1
  have hrest : w.enlisted.drop w.taken.length = waiting := by rw [horder, List.drop_left]
  refine ⟨by rw [horder, List.take_left], by rw [hrest]; exact h.2, ?_⟩
  cases waiting with
  | nil =>
    rw [List.append_nil] at horder
    refine ⟨-1, none, w.pages, PgnList.findVictimPage_of_nil h.2, ?_, fun _ => ⟨rfl, rfl⟩, ?_⟩
    · exact iff_of_true rfl (by rw [horder])
    · exact fun hne => absurd rfl hne
  | cons pgn waiting =>
    obtain ⟨pages, hfind, hpages, -, -⟩ := h.findVictim_of_cons
    refine ⟨0, some pgn, pages, hfind, ?_, fun hstatus => absurd hstatus (by decide), fun _ => ?_⟩
    · refine iff_of_false (by decide) fun hlen => ?_
      rw [horder, List.length_append, List.length_cons] at hlen
      omega
    · have hnext : w.enlisted[w.taken.length]? = some pgn := by
        rw [horder, List.getElem?_append_right le_rfl, Nat.sub_self]
        rfl
      have htail : w.enlisted.drop (w.taken.length + 1) = waiting := by
        rw [← List.drop_drop, hrest]
        rfl
      refine ⟨rfl, pgn, rfl, hnext, ?_⟩
      rw [htail]
      exact hpages

/-- Memory in which no node was allocated. -/
def unused : LinkedHeap.Heap ℤ := ⟨fun _ => ⟨0, none⟩, fun _ => false, 0, fun _ h => by cases h⟩

/-- After the pages 7, 8 and 9 were enlisted and one was taken, page 8 is next. -/
theorem findVictimPage_fifo_three : ∃ w, system.Reachable w ∧ w.enlisted = [7, 8, 9] ∧
    w.taken = [7] ∧ w.taken = w.enlisted.take w.taken.length ∧
    (w.pages.findVictimPage.map fun r => (r.1, r.2.1)) = some (0, some 8) := by
  obtain ⟨w, hw, hP⟩ := LTS.exists_reachable_of_exec (T := system) call (fun w k w' h => h)
    (fun w => decide (w.enlisted = [7, 8, 9]) && decide (w.taken = [7]) &&
      decide ((w.pages.findVictimPage.map fun r => (r.1, r.2.1)) = some (0, some 8)))
    [.enlist 7, .enlist 8, .enlist 9, .findVictim] (s := ⟨⟨unused, none⟩, [], []⟩)
    ⟨rfl, rfl, rfl⟩ (by decide +kernel)
  simp only [Bool.and_eq_true, decide_eq_true_eq] at hP
  exact ⟨w, hw, hP.1.1, hP.1.2, (findVictimPage_fifo hw).1, hP.2⟩

end VictimRun

end Ossim
