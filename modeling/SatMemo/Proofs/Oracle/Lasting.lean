import SatMemo.Proofs.Oracle.Classes
import SatMemo.Proofs.Oracle.Inquiry
import SatMemo.Proofs.Oracle.Scripts

/-! # What lasts

    Building adds entries and touches nothing that was there (`Enlarged`).  No call
    changes an entry except by giving it a verdict, so an entry that is open has
    been as it is since it was made (`Lasting`).  The library and the decider may be
    of any kind.

    Over a lawful library the outcomes of the checks stay on their list (`Noted`).
    A node that was checked once, or whose checks are not wanted, is not checked
    again (`Spent`). -/

namespace SatMemo

namespace Oracle

open Library (contains Lawful Extends)

variable {ε σ τ : Type} [Library ε] {o o' o₁ : Oracle ε σ τ} {m n : NodeId} {i : Nat}
  {c : Call NodeId}

/-! ## Building -/

/-- All entries are still there, and what checks and queries left is as before. -/
structure Enlarged (o o' : Oracle ε σ τ) : Prop where
  library   : o'.library = o.library
  checked   : o'.checked = o.checked
  settings  : o'.settings = o.settings
  queries   : o'.stats.queries = o.stats.queries
  checks    : o'.stats.checks = o.stats.checks
  checkHits : o'.stats.checkHits = o.stats.checkHits
  entries   : ∀ ⦃i : Nat⦄ ⦃e : Entry τ⦄, o.entries[i]? = some e → o'.entries[i]? = some e

def enlarging (ε σ τ : Type) : Passage ε σ τ where
  rel   := Enlarged
  refl  := fun _ => ⟨rfl, rfl, rfl, rfl, rfl, rfl, fun _ _ he => he⟩
  trans := fun h h' => ⟨h'.library.trans h.library, h'.checked.trans h.checked,
    h'.settings.trans h.settings, h'.queries.trans h.queries, h'.checks.trans h.checks,
    h'.checkHits.trans h.checkHits, fun _ _ he => h'.entries (h.entries he)⟩

theorem enlarged_lowered (hl : Lowered n o o') : Enlarged o o' := by
  cases hl with
  | intro _ _ =>
    refine ⟨rfl, rfl, rfl, rfl, rfl, rfl, ?_⟩
    intro i e he
    have hlt := (Array.getElem?_eq_some_iff.1 he).1
    exact (Array.getElem?_push_lt hlt).trans ((Array.getElem?_eq_getElem hlt).symm.trans he)

theorem Fetched.enlarged {r : Except Error Nat} (h : Fetched (enlarging ε σ τ) n o r o₁) :
    Enlarged o o₁ := by
  cases h with
  | foreign _ => exact (enlarging ε σ τ).refl o
  | reused _ _ => exact ⟨rfl, rfl, rfl, rfl, rfl, rfl, fun _ _ he => he⟩
  | worked _ _ henlarged _ => exact henlarged

theorem settles_build_enlarging [Decider σ τ] (n : NodeId) (o : Oracle ε σ τ) :
    Settles (build n) o (Fetched (enlarging ε σ τ) n o) :=
  settles_build Enlarged.library (fun _ _ hl => enlarged_lowered hl) n o

theorem served_of_not_faults [Decider σ τ] (hsubject : subject c = some n) (hc : ¬ Faults c o) :
    Served (enlarging ε σ τ) n o (after (perform c) o) := by
  have hsettles := settles_perform (P := enlarging ε σ τ) Enlarged.library
    (fun _ _ hl => enlarged_lowered hl) hsubject o
  exact hsettles.of_after fun fault o' hfault => hc ⟨fault, o', hfault⟩

/-! ## Entries -/

/-- Every entry is still there, and it is as it was, unless it is decided now. -/
def Lasting (o o' : Oracle ε σ τ) : Prop :=
  ∀ ⦃i : Nat⦄ ⦃e : Entry τ⦄, o.entries[i]? = some e →
    ∃ e', o'.entries[i]? = some e' ∧ (e' = e ∨ e'.status ≠ .unknown)

omit [Library ε] in
theorem Lasting.of_eq (h : o'.entries = o.entries) : Lasting o o' :=
  fun _ e he => ⟨e, h ▸ he, .inl rfl⟩

omit [Library ε] in
theorem Lasting.trans (h : Lasting o o₁) (h' : Lasting o₁ o') : Lasting o o' := by
  intro i e he
  obtain ⟨e₁, he₁, hkept₁⟩ := h he
  obtain ⟨e', he', hkept⟩ := h' he₁
  refine ⟨e', he', ?_⟩
  rcases hkept with rfl | hdecided
  · exact hkept₁
  · exact .inr hdecided

omit [Library ε] in
theorem Enlarged.lasting (h : Enlarged o o') : Lasting o o' :=
  fun _ e he => ⟨e, h.entries he, .inl rfl⟩

omit [Library ε] in
/-- A verdict is put into an entry. -/
theorem lasting_settled {e : Entry τ} {x : τ} {b : Bool}
    (h : o'.entries = o.entries.setIfInBounds i (e.settled x b)) : Lasting o o' := by
  intro j e' he'
  have hlt := (Array.getElem?_eq_some_iff.1 he').1
  rw [h]
  by_cases hij : i = j
  · subst hij
    refine ⟨_, Array.getElem?_setIfInBounds_self_of_lt hlt, .inr ?_⟩
    rw [Entry.status_settled]
    cases b <;> decide
  · exact ⟨e', (Array.getElem?_setIfInBounds_ne hij).trans he', .inl rfl⟩

section Calls

variable [Decider σ τ]

theorem Inquired.lasting {r : Except Error Bool} (h : Inquired n i o r o') : Lasting o o' := by
  cases h with
  | known _ _ => exact .of_eq rfl
  | @checked e b o₁ x _ _ _ _ hprobed =>
    apply lasting_settled (i := i) (e := e) (x := x) (b := b)
    rw [hprobed.spared.entries]
  | @answered e b o₁ x _ _ _ _ hprobed =>
    apply lasting_settled (i := i) (e := e) (x := x) (b := b)
    rw [hprobed.spared.entries]
  | refused _ _ hprobed _ => exact .of_eq hprobed.spared.entries

theorem lasting_perform (hc : ¬ Faults c o) : Lasting o (after (perform c) o) := by
  cases hsubject : subject c with
  | none =>
    obtain ⟨library, varCount, journal, hafter⟩ := after_of_no_subject hsubject o
    rw [hafter]
    exact .of_eq rfl
  | some n =>
    cases served_of_not_faults hsubject hc with
    | fetched hfetched => exact hfetched.enlarged.lasting
    | consulted hfetched hinquired => exact hfetched.enlarged.lasting.trans hinquired.lasting

end Calls

/-! ## Checks -/

section Checks

variable [Lawful ε]

/-- What was checked stays on the list, and the settings stay. -/
structure Noted (o o' : Oracle ε σ τ) : Prop where
  settings : o'.settings = o.settings
  lists    : ∀ {pairs}, o.checked.Lists o.library pairs →
    ∃ more, o'.checked.Lists o'.library (pairs ++ more)

/-- No check of the node will be run. -/
def Spent (n : NodeId) (o : Oracle ε σ τ) : Prop :=
  o.settings.precheck = false ∨
    ∃ pairs, o.checked.Lists o.library pairs ∧ ∃ p ∈ pairs, p.1 = n

theorem Noted.of_eq (hlibrary : o'.library = o.library) (hchecked : o'.checked = o.checked)
    (hsettings : o'.settings = o.settings) : Noted o o' := by
  refine ⟨hsettings, ?_⟩
  intro pairs h
  refine ⟨[], ?_⟩
  rwa [List.append_nil, hlibrary, hchecked]

theorem Noted.trans (h : Noted o o₁) (h' : Noted o₁ o') : Noted o o' := by
  refine ⟨h'.settings.trans h.settings, ?_⟩
  intro pairs hpairs
  obtain ⟨more, hmore⟩ := h.lists hpairs
  obtain ⟨more', hmore'⟩ := h'.lists hmore
  rw [List.append_assoc] at hmore'
  exact ⟨more ++ more', hmore'⟩

theorem Spent.noted (hn : Spent n o) (h : Noted o o') : Spent n o' := by
  rcases hn with hunwanted | ⟨pairs, hpairs, p, hp, hpn⟩
  · refine .inl ?_
    rw [h.settings]
    exact hunwanted
  · obtain ⟨more, hmore⟩ := h.lists hpairs
    exact .inr ⟨_, hmore, p, List.mem_append_left _ hp, hpn⟩

theorem Enlarged.noted (h : Enlarged o o') : Noted o o' :=
  .of_eq h.library h.checked h.settings

variable {verdict? : Option Bool} (hwf : Lawful.Wf o.library) (hn : contains o.library n = true)
include hwf hn

/-- The outcome of a check goes to the end of the list. -/
theorem lists_of_check {status : Status} {lib : ε} {events : List Event}
    {checked : ClassMap Status} {pairs : List (NodeId × Status)}
    (hcheck : Library.checkBounded o.library n o.settings.patterns = ⟨.ok status, lib, events⟩)
    (hinsert : o.checked.insert lib n status = .ok checked)
    (hpairs : o.checked.Lists o.library pairs) : checked.Lists lib (pairs ++ [(n, status)]) := by
  obtain ⟨status', lib', events', hcheck', hwf', hlater, -⟩ :=
    Lawful.check o.settings.patterns hwf hn
  cases hcheck.symm.trans hcheck'
  have hheld := (Lawful.founded hwf).contains_of_extends hlater hn
  obtain ⟨checked', hinsert', hlists⟩ := (hpairs.mono hwf hlater).insert_eq hwf' hheld status
  cases hinsert.symm.trans hinsert'
  exact hlists

theorem Probed.noted (h : Probed n o verdict? o') : Noted o o' := by
  cases h with
  | unwanted _ => exact .of_eq rfl rfl rfl
  | known _ _ => exact .of_eq rfl rfl rfl
  | run _ _ hcheck hinsert =>
    exact ⟨rfl, fun hpairs => ⟨_, lists_of_check hwf hn hcheck hinsert hpairs⟩⟩

/-- After a node was checked, it is not checked again. -/
theorem Probed.spent (h : Probed n o verdict? o') {pairs : List (NodeId × Status)}
    (hpairs : o.checked.Lists o.library pairs) : Spent n o' := by
  cases h with
  | unwanted hunwanted => exact .inl hunwanted
  | known _ hfind =>
    refine .inr ⟨pairs, hpairs, ?_⟩
    rw [hpairs.find?_eq hwf hn] at hfind
    cases hp : pairs.find? fun p => p.1 = n with
    | none =>
      rw [hp] at hfind
      cases hfind
    | some p => exact ⟨p, List.mem_of_find?_eq_some hp, by simpa using List.find?_some hp⟩
  | @run status _ _ _ _ _ hcheck hinsert =>
    have hlists := lists_of_check hwf hn hcheck hinsert hpairs
    exact .inr ⟨_, hlists, (n, status), List.mem_append_right _ (List.mem_singleton.2 rfl), rfl⟩

theorem Spent.eq_of_probed (hspent : Spent n o) (h : Probed n o verdict? o') : o' = o := by
  cases h with
  | unwanted _ => rfl
  | known _ _ => rfl
  | run hwanted hfind _ _ =>
    rcases hspent with hunwanted | ⟨pairs, hpairs, p, hp, hpn⟩
    · cases hwanted.symm.trans hunwanted
    · -- The node is on the list, so that the look-up finds something.
      have hsome : (pairs.find? fun p => p.1 = n).isSome := by
        rw [List.find?_isSome]
        exact ⟨p, hp, decide_eq_true hpn⟩
      obtain ⟨q, hq⟩ := Option.isSome_iff_exists.1 hsome
      rw [hpairs.find?_eq hwf hn, hq] at hfind
      cases hfind

end Checks

/-! ## Checks and calls -/

section Calls

variable [Lawful ε] [Decider σ τ]

/-- No check was run. -/
structure Unchecked (o o' : Oracle ε σ τ) : Prop where
  library : o'.library = o.library
  checked : o'.checked = o.checked
  checks  : o'.stats.checks = o.stats.checks

theorem Inquired.noted {r : Except Error Bool} (hwf : Lawful.Wf o.library)
    (hn : contains o.library n = true) (h : Inquired n i o r o') : Noted o o' := by
  cases h with
  | known _ _ => exact .of_eq rfl rfl rfl
  | checked _ _ hprobed => exact (hprobed.noted hwf hn).trans (.of_eq rfl rfl rfl)
  | answered _ _ hprobed => exact (hprobed.noted hwf hn).trans (.of_eq rfl rfl rfl)
  | refused _ _ hprobed _ => exact (hprobed.noted hwf hn).trans (.of_eq rfl rfl rfl)

theorem Spent.unchecked_of_inquired {r : Except Error Bool} (hspent : Spent n o)
    (hwf : Lawful.Wf o.library) (hn : contains o.library n = true) (h : Inquired n i o r o') :
    Unchecked o o' := by
  cases h with
  | known _ _ => exact ⟨rfl, rfl, rfl⟩
  | checked _ _ hprobed =>
    obtain rfl := hspent.eq_of_probed hwf hn hprobed
    exact ⟨rfl, rfl, rfl⟩
  | answered _ _ hprobed =>
    obtain rfl := hspent.eq_of_probed hwf hn hprobed
    exact ⟨rfl, rfl, rfl⟩
  | refused _ _ hprobed _ =>
    obtain rfl := hspent.eq_of_probed hwf hn hprobed
    exact ⟨rfl, rfl, rfl⟩

omit [Library ε] [Lawful ε] [Decider σ τ] in
theorem Enlarged.unchecked (h : Enlarged o o') : Unchecked o o' :=
  ⟨h.library, h.checked, h.checks⟩

omit [Library ε] [Lawful ε] [Decider σ τ] in
theorem mem_operands_of_subject (h : subject c = some n) : n ∈ c.operands := by
  cases c with
  | build m =>
    cases h
    exact List.mem_singleton.2 rfl
  | isSatisfiable m =>
    cases h
    exact List.mem_singleton.2 rfl
  | _ => cases h

/-- If the operands are on hand, making a node makes a larger library. -/
theorem extends_of_no_subject (hwf : Lawful.Wf o.library)
    (hops : ∀ n ∈ c.operands, contains o.library n = true) (hc : subject c = none) :
    Extends o.library (after (perform c) o).library := by
  cases c with
  | makeTrue => exact (Lawful.grows_true hwf).later
  | makeFalse => exact (Lawful.grows_false hwf).later
  | newVariable => exact (Lawful.grows_variable (variableName o.varCount) hwf).later
  | makeNot n => exact (Lawful.grows_not hwf (hops n (List.mem_singleton.2 rfl))).later
  | makeAnd m n => exact (Lawful.grows_and hwf hops).later
  | makeOr m n => exact (Lawful.grows_or hwf hops).later
  | makeAll ns => exact (Lawful.grows_and hwf hops).later
  | makeAny ns => exact (Lawful.grows_or hwf hops).later
  | build n => cases hc
  | isSatisfiable n => cases hc

theorem noted_perform (hwf : Lawful.Wf o.library)
    (hops : ∀ n ∈ c.operands, contains o.library n = true) (hc : ¬ Faults c o) :
    Noted o (after (perform c) o) := by
  cases hsubject : subject c with
  | none =>
    -- Nodes are added, and the outcomes stay those of the old ones.
    have he := extends_of_no_subject hwf hops hsubject
    obtain ⟨library, varCount, journal, hafter⟩ := after_of_no_subject hsubject o
    rw [hafter] at he ⊢
    refine ⟨rfl, ?_⟩
    intro pairs hpairs
    refine ⟨[], ?_⟩
    rw [List.append_nil]
    exact hpairs.mono hwf he
  | some n =>
    have hn : contains o.library n = true := hops n (mem_operands_of_subject hsubject)
    cases served_of_not_faults hsubject hc with
    | fetched hfetched => exact hfetched.enlarged.noted
    | consulted hfetched hinquired =>
      -- Building leaves the checks alone, and consulting may add one.
      have hlarger := hfetched.enlarged
      rw [← hlarger.library] at hwf hn
      exact hlarger.noted.trans (hinquired.noted hwf hn)

/-- A call about a node that is not checked again runs no check. -/
theorem Spent.unchecked (hspent : Spent n o) (hwf : Lawful.Wf o.library)
    (hn : contains o.library n = true) (hsubject : subject c = some n) (hc : ¬ Faults c o) :
    Unchecked o (after (perform c) o) := by
  cases served_of_not_faults hsubject hc with
  | fetched hfetched => exact hfetched.enlarged.unchecked
  | consulted hfetched hinquired =>
    have hlarger := hfetched.enlarged
    have hspent := hspent.noted hlarger.noted
    rw [← hlarger.library] at hwf hn
    have hunchecked := hspent.unchecked_of_inquired hwf hn hinquired
    exact ⟨hunchecked.library.trans hlarger.library, hunchecked.checked.trans hlarger.checked,
      hunchecked.checks.trans hlarger.checks⟩

end Calls

end Oracle

end SatMemo
