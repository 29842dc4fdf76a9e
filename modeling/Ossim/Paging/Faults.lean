import Ossim.Paging.Requests

/-!
# Page faults

What `pg_getpage` does, branch by branch: the page is present, no page can be evicted, no swap frame
is free, or the page is exchanged for a victim.

A page fault should fail for a page that was never mapped, and a page fault that fails should leave
everything as it was.  Neither is so.  An entry that `pte_set_swap` wrote has the present bit, so
the only pages that are taken for swapped-out ones are those never mapped, and such a page is
exchanged for a victim (`refusesUnmapped_iff`).  And when no swap frame is free the victim is
already off the resident list (`failsAtomically_iff`).
-/

namespace Ossim

namespace Caller

/-- What `pg_getpage` does. -/
inductive FaultOutcome (c : Caller) (pgn : ℕ) : Option ℕ × Caller → Prop
  /-- The page is present. -/
  | present (hpresent : pagingPagePresent (c.mm.pgd pgn) = true) :
    FaultOutcome c pgn (some (pagingFpn (c.mm.pgd pgn)), c)
  /-- There is no page to swap out. -/
  | noVictim (habsent : pagingPagePresent (c.mm.pgd pgn) = false) (hfifo : c.mm.fifoPgn = []) :
    FaultOutcome c pgn (none, c)
  /-- There is no swap frame; the victim is off the resident list. -/
  | noSwap (victim : ℕ) (list : List ℕ) (habsent : pagingPagePresent (c.mm.pgd pgn) = false)
    (hvictim : takeTail c.mm.fifoPgn = some (victim, list))
    (hswap : c.activeMswp.freeFpList = []) :
    FaultOutcome c pgn (none, { c with mm := { c.mm with fifoPgn := list } })
  /-- The page is exchanged for the victim. -/
  | exchange (victim swpfpn : ℕ) (list rest : List ℕ)
    (habsent : pagingPagePresent (c.mm.pgd pgn) = false)
    (hvictim : takeTail c.mm.fifoPgn = some (victim, list))
    (hswap : c.activeMswp.freeFpList = swpfpn :: rest) :
    FaultOutcome c pgn
      (some (pagingFpn (((c.picked list rest).pageIn pgn (pagingSwp (c.mm.pgd pgn)) victim
        swpfpn).mm.pgd pgn)),
      (c.picked list rest).pageIn pgn (pagingSwp (c.mm.pgd pgn)) victim swpfpn)

lemma pgGetpage_outcome (c : Caller) (pgn : ℕ) : FaultOutcome c pgn (c.pgGetpage pgn) := by
  unfold pgGetpage
  dsimp only
  cases hpresent : pagingPagePresent (c.mm.pgd pgn) with
  | true => exact .present hpresent
  | false =>
    rw [if_pos (by decide)]
    split
    · next hvic => exact .noVictim hpresent (findVictimPage_eq_none.mp hvic)
    · next victim mm hvic =>
      obtain ⟨list, hvictim, rfl⟩ := findVictimPage_eq_some.mp hvic
      split
      · next hswp => exact .noSwap victim list hpresent hvictim (Memphy.getFreefp_eq_none.mp hswp)
      · next swpfpn mswp hswp =>
        obtain ⟨rest, hswap, rfl⟩ := Memphy.getFreefp_eq_some.mp hswp
        have hpicked : (⟨{ c.mm with fifoPgn := list }, c.mram,
            { c.activeMswp with freeFpList := rest }⟩ : Caller) = c.picked list rest := rfl
        rw [hpicked]
        exact .exchange victim swpfpn list rest hpresent hvictim hswap

/-! ## The frame that is delivered -/

/-- `pg_getpage` cannot bring the page to RAM: it is absent, and no page is resident or no swap
frame is free. -/
def Unfetchable (c : Caller) (pgn : ℕ) : Prop :=
  pagingPagePresent (c.mm.pgd pgn) = false ∧ (c.mm.fifoPgn = [] ∨ c.activeMswp.freeFpList = [])

/-- The frame number that `PAGING_FPN` decodes from the entry of a present page.  For a page that
`pg_getpage` brings to RAM it is 0, since the frame was decoded by `PAGING_FPN` before. -/
def decodedFrame (c : Caller) (pgn : ℕ) : ℕ :=
  if pagingPagePresent (c.mm.pgd pgn) then pagingFpn (c.mm.pgd pgn) else 0

lemma decodedFrame_lt (c : Caller) (pgn : ℕ) : c.decodedFrame pgn < 4 := by
  unfold decodedFrame
  split
  · exact pagingFpn_lt _
  · decide

/-- Bringing a page to RAM leaves an entry from which `PAGING_FPN` decodes 0. -/
lemma pagingFpn_pageIn (c : Caller) (pgn tgtfpn vicpgn swpfpn : ℕ) :
    pagingFpn ((c.pageIn pgn tgtfpn vicpgn swpfpn).mm.pgd pgn) = 0 := by
  rw [mm_pageIn]
  dsimp only
  rw [Function.update_self, pagingFpn_pteSetFpn,
    Nat.div_eq_of_lt ((pagingFpn_lt _).trans (by decide))]

/-- What `pg_getpage` delivers. -/
lemma pgGetpage_delivers (c : Caller) (pgn : ℕ) :
    c.Unfetchable pgn ∧ (c.pgGetpage pgn).1 = none ∨
      ¬ c.Unfetchable pgn ∧ (c.pgGetpage pgn).1 = some (c.decodedFrame pgn) := by
  have houtcome := c.pgGetpage_outcome pgn
  unfold Unfetchable decodedFrame
  generalize c.pgGetpage pgn = result at houtcome ⊢
  cases houtcome with
  | present hpresent => exact .inr ⟨by simp [hpresent], by simp [hpresent]⟩
  | noVictim habsent hfifo => exact .inl ⟨⟨habsent, .inl hfifo⟩, rfl⟩
  | noSwap victim list habsent hvictim hswap => exact .inl ⟨⟨habsent, .inr hswap⟩, rfl⟩
  | exchange victim swpfpn list rest habsent hvictim hswap =>
    have hfifo : c.mm.fifoPgn ≠ [] := fun hnil => by
      rw [takeTail_eq_none.mpr hnil] at hvictim
      cases hvictim
    refine .inr ⟨by simp [hfifo, hswap], ?_⟩
    dsimp only
    rw [pagingFpn_pageIn, habsent]
    rfl

/-- A page that cannot be fetched: nothing happens, except that the victim is lost from the resident
list. -/
lemma pgGetpage_unfetchable {c : Caller} {pgn : ℕ} (h : c.Unfetchable pgn) :
    (c.pgGetpage pgn).1 = none ∧ (c.pgGetpage pgn).2.mm.pgd = c.mm.pgd ∧
      (c.pgGetpage pgn).2.mram = c.mram := by
  obtain ⟨habsent, hfull⟩ := h
  have houtcome := c.pgGetpage_outcome pgn
  generalize c.pgGetpage pgn = result at houtcome ⊢
  cases houtcome with
  | present hpresent =>
    rw [habsent] at hpresent
    cases hpresent
  | noVictim => exact ⟨rfl, rfl, rfl⟩
  | noSwap => exact ⟨rfl, rfl, rfl⟩
  | exchange victim swpfpn list rest _ hvictim hswap =>
    rcases hfull with hfifo | hfree
    · rw [takeTail_eq_none.mpr hfifo] at hvictim
      cases hvictim
    · rw [hfree] at hswap
      cases hswap

/-- The frame number that `pg_getpage` delivers was decoded by `PAGING_FPN`. -/
lemma pgGetpage_lt {c c' : Caller} {pgn fpn : ℕ} (h : c.pgGetpage pgn = (some fpn, c')) :
    fpn < 4 := by
  have hfpn : (c.pgGetpage pgn).1 = some fpn := congrArg Prod.fst h
  rcases c.pgGetpage_delivers pgn with ⟨-, hnone⟩ | ⟨-, hsome⟩
  · rw [hnone] at hfpn
    cases hfpn
  · rw [hsome] at hfpn
    exact Option.some.inj hfpn ▸ c.decodedFrame_lt pgn

/-- A page that `pg_getpage` brings to RAM is present, in the frame that it delivers. -/
lemma present_of_pgGetpage {c c' : Caller} {pgn fpn : ℕ} (h : c.pgGetpage pgn = (some fpn, c')) :
    pagingPagePresent (c'.mm.pgd pgn) = true ∧ pagingFpn (c'.mm.pgd pgn) = fpn := by
  have houtcome := c.pgGetpage_outcome pgn
  rw [h] at houtcome
  cases houtcome with
  | present hpresent => exact ⟨hpresent, rfl⟩
  | exchange victim swpfpn list rest =>
    refine ⟨?_, rfl⟩
    rw [mm_pageIn]
    dsimp only
    rw [Function.update_self]
    exact pagingPagePresent_pteSetFpn _ _

/-- What `pg_getpage` does with a page that it can bring to RAM. -/
lemma pgGetpage_of_fetchable {c : Caller} {pgn : ℕ} (h : ¬ c.Unfetchable pgn) :
    ∃ c', c.pgGetpage pgn = (some (c.decodedFrame pgn), c') := by
  rcases c.pgGetpage_delivers pgn with ⟨hunfetchable, -⟩ | ⟨-, hsome⟩
  · exact absurd hunfetchable h
  · exact ⟨_, Prod.ext hsome rfl⟩

/-- What `pg_getpage` does with a page that it cannot bring to RAM. -/
lemma pgGetpage_of_unfetchable {c : Caller} {pgn : ℕ} (h : c.Unfetchable pgn) :
    ∃ c', c.pgGetpage pgn = (none, c') := ⟨_, Prod.ext (pgGetpage_unfetchable h).1 rfl⟩

/-- After `pg_getpage` brought the page `pgn` to RAM, `n` cannot be brought there.  When `pgn` was
absent before, its victim took a swap frame, and both have the present bit now. -/
def UnfetchableAfter (c : Caller) (pgn n : ℕ) : Prop :=
  if pagingPagePresent (c.mm.pgd pgn) then c.Unfetchable n
  else pagingPagePresent (c.mm.pgd n) = false ∧ n ≠ pgn ∧
    (takeTail c.mm.fifoPgn).map Prod.fst ≠ some n ∧ c.activeMswp.freeFpList.length = 1

/-- A present page can be brought to RAM at any time. -/
lemma not_unfetchable_of_present {c : Caller} {n : ℕ}
    (h : pagingPagePresent (c.mm.pgd n) = true) : ¬ c.Unfetchable n := by
  rintro ⟨habsent, -⟩
  rw [h] at habsent
  cases habsent

lemma not_unfetchableAfter_of_present {c : Caller} {n : ℕ}
    (h : pagingPagePresent (c.mm.pgd n) = true) (pgn : ℕ) : ¬ c.UnfetchableAfter pgn n := by
  unfold UnfetchableAfter
  split
  · exact not_unfetchable_of_present h
  · rintro ⟨habsent, -⟩
    rw [h] at habsent
    cases habsent

lemma unfetchable_pgGetpage {c c' : Caller} {pgn fpn : ℕ} (h : c.pgGetpage pgn = (some fpn, c'))
    (n : ℕ) : c'.Unfetchable n ↔ c.UnfetchableAfter pgn n := by
  have houtcome := c.pgGetpage_outcome pgn
  rw [h] at houtcome
  unfold UnfetchableAfter
  cases houtcome with
  | present hpresent => rw [if_pos hpresent]
  | exchange victim swpfpn list rest habsent hvictim hswap =>
    have hfree : ((c.picked list rest).pageIn pgn (pagingSwp (c.mm.pgd pgn)) victim
        swpfpn).activeMswp.freeFpList = rest := by
      have hsame := (c.picked list rest).freeFpList_pageIn pgn (pagingSwp (c.mm.pgd pgn)) victim
        swpfpn .activeMswp
      unfold device at hsame
      exact hsame
    have habsent' : ¬ pagingPagePresent (c.mm.pgd pgn) = true := by simp [habsent]
    rw [if_neg habsent', hvictim, hswap]
    unfold Unfetchable
    rw [hfree, mm_pageIn]
    have hlist : enlistPgnNode (c.picked list rest).mm.fifoPgn pgn ≠ [] := List.cons_ne_nil _ _
    simp only [hlist, false_or, Option.map_some, ne_eq, Option.some.injEq, List.length_cons,
      Nat.add_eq_right, List.length_eq_zero_iff]
    by_cases hpgn : n = pgn
    · subst hpgn
      simp
    · by_cases hvic : n = victim
      · subst hvic
        simp [hpgn]
      · simp [hpgn, hvic, Ne.symm hvic, picked]

/-! ## Pages that were never mapped -/

/-- `pg_getpage` refuses the page: it fails and changes nothing. -/
structure Refuses (c : Caller) (pgn : ℕ) : Prop where
  /-- The status is `-1`. -/
  status : (c.pgGetpage pgn).1 = none
  /-- Page table, resident list and devices are as before. -/
  unchanged : (c.pgGetpage pgn).2 = c

/-- Taking a victim shortens the resident list. -/
lemma fifoPgn_ne_of_takeTail {l list : List ℕ} {victim : ℕ}
    (h : takeTail l = some (victim, list)) : list ≠ l := by
  rintro rfl
  have hlen := length_takeTail h
  omega

/-- A page whose entry is still the 0 of `init_mm` is refused exactly if no page is resident. -/
theorem refusesUnmapped_iff {c : Caller} {pgn : ℕ} (h : c.mm.pgd pgn = 0#32) :
    c.Refuses pgn ↔ c.mm.fifoPgn = [] := by
  have habsent : pagingPagePresent (c.mm.pgd pgn) = false := by
    rw [h]
    decide
  have houtcome := c.pgGetpage_outcome pgn
  constructor
  · rintro ⟨hstatus, hunchanged⟩
    generalize c.pgGetpage pgn = result at houtcome hstatus hunchanged
    cases houtcome with
    | present hpresent =>
      rw [habsent] at hpresent
      cases hpresent
    | noVictim _ hfifo => exact hfifo
    | noSwap victim list _ hvictim hswap =>
      have hlist : list = c.mm.fifoPgn := congrArg (fun c : Caller => c.mm.fifoPgn) hunchanged
      exact absurd hlist (fifoPgn_ne_of_takeTail hvictim)
    | exchange victim swpfpn list rest _ hvictim hswap => cases hstatus
  · intro hfifo
    have hnone : c.pgGetpage pgn = (none, c) := by
      generalize c.pgGetpage pgn = result at houtcome ⊢
      cases houtcome with
      | present hpresent =>
        rw [habsent] at hpresent
        cases hpresent
      | noVictim => rfl
      | noSwap victim list _ hvictim =>
        rw [takeTail_eq_none.mpr hfifo] at hvictim
        cases hvictim
      | exchange victim swpfpn list rest _ hvictim =>
        rw [takeTail_eq_none.mpr hfifo] at hvictim
        cases hvictim
    exact ⟨congrArg Prod.fst hnone, congrArg Prod.snd hnone⟩

/-- Before the first allocation every page is refused. -/
theorem refusesUnmapped_fresh : ((MemSys.fresh Unit 256 256).caller ()).Refuses 5 :=
  (refusesUnmapped_iff (c := (MemSys.fresh Unit 256 256).caller ()) rfl).mpr rfl

/-- Page 5 of a process that allocated page 0 only: page 0 is swapped out for it. -/
theorem not_refusesUnmapped : ¬ ∀ s : MemSys Unit, (callSystem Unit).Reachable s →
    ∀ p pgn, (s.mm p).pgd pgn = 0#32 → (s.caller p).Refuses pgn := by
  intro h
  have hreached : (callSystem Unit).Reachable
      ((MemSys.fresh Unit 256 256).call () (.alloc 0 256)) :=
    .step (.start (MemSys.initial_fresh 256 256)) (a := ((), .alloc 0 256)) rfl
  have hstatus := (h _ hreached () 5 (by decide)).status
  exact absurd hstatus (by decide +kernel)

/-! ## Faults that fail -/

/-- A page fault that fails changes nothing. -/
def FailsAtomically (c : Caller) (pgn : ℕ) : Prop :=
  (c.pgGetpage pgn).1 = none → (c.pgGetpage pgn).2 = c

/-- A page fault changes nothing when it fails, unless a page can be evicted and no swap frame is
free for it. -/
theorem failsAtomically_iff (c : Caller) (pgn : ℕ) :
    c.FailsAtomically pgn ↔ pagingPagePresent (c.mm.pgd pgn) = true ∨ c.mm.fifoPgn = [] ∨
      c.activeMswp.freeFpList ≠ [] := by
  have houtcome := c.pgGetpage_outcome pgn
  unfold FailsAtomically
  generalize c.pgGetpage pgn = result at houtcome ⊢
  cases houtcome with
  | present hpresent => exact iff_of_true (fun _ => rfl) (.inl hpresent)
  | noVictim habsent hfifo => exact iff_of_true (fun _ => rfl) (.inr (.inl hfifo))
  | noSwap victim list habsent hvictim hswap =>
    have hne := fifoPgn_ne_of_takeTail hvictim
    refine iff_of_false (fun hunchanged => ?_) ?_
    · exact hne (congrArg (fun c : Caller => c.mm.fifoPgn) (hunchanged rfl))
    · rintro (hpresent | hfifo | hfree)
      · rw [habsent] at hpresent
        cases hpresent
      · rw [takeTail_eq_none.mpr hfifo] at hvictim
        cases hvictim
      · exact hfree hswap
  | exchange victim swpfpn list rest habsent hvictim hswap =>
    refine iff_of_true (fun hnone => by cases hnone) (.inr (.inr ?_))
    rw [hswap]
    exact List.cons_ne_nil _ _

/-- Page 5 of a process that allocated page 0, without swap: page 0 is off the resident list
although it is still resident. -/
theorem not_failsAtomically : ¬ ∀ (c : Caller) (pgn : ℕ), c.FailsAtomically pgn := by
  intro h
  have hfifo := congrArg (fun c : Caller => c.mm.fifoPgn)
    (h (((MemSys.fresh Unit 256 0).call () (.alloc 0 256)).caller ()) 5 (by decide +kernel))
  exact absurd hfifo (by decide +kernel)

end Caller

end Ossim
