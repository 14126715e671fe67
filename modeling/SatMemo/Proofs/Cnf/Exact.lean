import SatMemo.Cnf.Decider
import SatMemo.Proofs.Cnf.Encoder
import SatMemo.Proofs.Decider.Talk

/-! # The encoding is exact

    In every talk with an encoder the clauses emitted so far constrain the
    variables not at all and everything else completely, and under the one
    assignment that extends a choice of values every literal has the value of the
    function it was asked for.  Queries in between make no difference, since they
    add no clause.  So a solver that is right about the clauses is right about the
    functions, and one that always answers makes the encoder an exact decider. -/

namespace SatMemo

namespace Encoder

variable {S : Cnf.Solver}

/-- A talk in which every literal has the value of its function, wherever the clauses are
    true. -/
structure Truthful (t : Talk (Encoder S) Literal) : Prop where
  wf   : t.state.Wf t.vars
  has  : ∀ x ∈ t.given, t.state.Has x.1
  eval : ∀ x ∈ t.given, ∀ {γ β}, Fixes t.vars γ β →
    Cnf.eval β t.state.clauses = true → x.1.eval β = x.2 γ

theorem truthful_start : Truthful (Talk.start (start : Encoder S)) where
  wf := wf_start
  has := by
    intro x hx
    cases hx
  eval := by
    intro x hx
    cases hx

/-! ## One call -/

/-- An answer that leaves the talk truthful. -/
structure Answers (t : Talk (Encoder S) Literal) (q : Maker (Literal × BoolFn)) (l : Literal)
    (e : Encoder S) : Prop where
  wf      : e.Wf (t.made q l e).vars
  grown   : t.state.varCount ≤ e.varCount
  has     : e.Has l
  clauses : ∀ {β}, Cnf.eval β e.clauses = true → Cnf.eval β t.state.clauses = true
  eval    : ∀ {γ β}, Fixes (t.made q l e).vars γ β → Cnf.eval β e.clauses = true →
    l.eval β = (q.map Prod.snd).meaning t.vars.length γ

/-- Variables are kept, with their places. -/
theorem fixes_of_made {t : Talk (Encoder S) Literal} {q : Maker (Literal × BoolFn)} {l : Literal}
    {e : Encoder S} {γ β : Nat → Bool} (h : Fixes (t.made q l e).vars γ β) :
    Fixes t.vars γ β := by
  unfold Talk.made at h
  dsimp only at h
  split at h
  · exact h.of_append
  · exact h

theorem Truthful.made {t : Talk (Encoder S) Literal} (h : Truthful t)
    {q : Maker (Literal × BoolFn)} {l : Literal} {e : Encoder S} (ha : Answers t q l e) :
    Truthful (t.made q l e) where
  wf := ha.wf
  has := by
    intro x hx
    rcases List.mem_cons.1 hx with rfl | hx
    · exact ha.has
    · exact (h.has x hx).mono ha.grown
  eval := by
    intro x hx γ β hγ hβ
    rcases List.mem_cons.1 hx with rfl | hx
    · exact ha.eval hγ hβ
    · exact h.eval x hx (fixes_of_made hγ) (ha.clauses hβ)

theorem Truthful.answers {t : Talk (Encoder S) Literal} (h : Truthful t)
    {q : Maker (Literal × BoolFn)} (hq : t.Knows q) :
    ∃ l e events, (q.map Prod.fst).run t.state = ⟨.ok l, e, events⟩ ∧ Answers t q l e := by
  have hhas : ∀ {xs : List (Literal × BoolFn)}, (∀ x ∈ xs, x ∈ t.given) →
      ∀ l ∈ xs.map Prod.fst, t.state.Has l := by
    intro xs hxs l hl
    obtain ⟨x, hx, rfl⟩ := List.mem_map.1 hl
    exact h.has x (hxs x hx)
  cases q with
  | constTrue =>
    refine ⟨truth, t.state, [], rfl, h.wf, Nat.le_refl _, h.wf.has_truth, id, ?_⟩
    intro γ β _ hβ
    rw [eval_truth, (h.wf.clauses.1 hβ).1]
    rfl
  | constFalse =>
    refine ⟨falsity, t.state, [], rfl, h.wf, Nat.le_refl _, h.wf.has_falsity, id, ?_⟩
    intro γ β _ hβ
    rw [eval_falsity, (h.wf.clauses.1 hβ).1]
    rfl
  | newVariable name =>
    have hwf := h.wf.newVariable name
    refine ⟨_, _, [], rfl, hwf, Nat.le_succ _, ?_, id, ?_⟩
    · show 1 ≤ (Literal.pos _).var ∧ (Literal.pos _).var ≤ t.state.varCount + 1
      rw [Literal.var_pos]
      exact ⟨Nat.le_add_left 1 _, Nat.le_refl _⟩
    · intro γ β hγ _
      -- The new variable is the last one.
      exact hγ List.getElem?_concat_length
  | complement x =>
    have hx : x ∈ t.given := hq x (List.mem_cons_self ..)
    refine ⟨-x.1, t.state, [], rfl, h.wf, Nat.le_refl _, (h.has x hx).neg, id, ?_⟩
    intro γ β hγ hβ
    rw [Literal.eval_neg, h.eval x hx hγ hβ]
    rfl
  | conjunction xs =>
    have hxs : ∀ x ∈ xs, x ∈ t.given := hq
    have hc := h.wf.encodes_conjunction (hhas hxs)
    refine ⟨_, _, _, rfl, hc.wf, hc.grown, hc.has, hc.clauses, ?_⟩
    intro γ β hγ hβ
    rw [hc.eval hβ]
    exact BoolFn.all_fst_eq fun x hx => h.eval x (hxs x hx) hγ (hc.clauses hβ)
  | disjunction xs =>
    have hxs : ∀ x ∈ xs, x ∈ t.given := hq
    have hc := h.wf.encodes_disjunction (hhas hxs)
    refine ⟨_, _, _, rfl, hc.wf, hc.grown, hc.has, hc.clauses, ?_⟩
    intro γ β hγ hβ
    rw [hc.eval hβ]
    exact BoolFn.any_fst_eq fun x hx => h.eval x (hxs x hx) hγ (hc.clauses hβ)

/-! ## Whole talks -/

/-- A query leaves everything as it is. -/
theorem Truthful.asked {t : Talk (Encoder S) Literal} (h : Truthful t) {l : Literal}
    {a : Except DeciderError Bool} {e : Encoder S} {events : List Event}
    (hrun : Decider.query t.state l = ⟨.ok a, e, events⟩) : Truthful (t.asked e) := by
  obtain ⟨queries, he⟩ := isSatisfiable_encoder t.state l
  have hstate : (t.state.isSatisfiable l).2 = e := congrArg Reply.state hrun
  rw [← hstate, he]
  exact ⟨h.wf.with_queries queries, h.has, h.eval⟩

theorem truthful_of_reached {t : Talk (Encoder S) Literal} (ht : Talk.Reached start t) :
    Truthful t := by
  induction ht with
  | start => exact truthful_start
  | make _ hq hrun ih =>
    obtain ⟨l, e, events, hrun', ha⟩ := ih.answers hq
    rw [hrun] at hrun'
    injection hrun' with hl he _
    cases hl
    exact ih.made (he ▸ ha)
  | query _ _ hrun ih => exact ih.asked hrun

/-- The clauses can be true together with a literal exactly if its function can be true. -/
theorem Truthful.satisfiable_iff {t : Talk (Encoder S) Literal} (h : Truthful t)
    {x : Literal × BoolFn} (hx : x ∈ t.given) :
    Cnf.Satisfiable t.state.clauses x.1 ↔ x.2.Satisfiable := by
  constructor
  · rintro ⟨β, hβ, hl⟩
    -- Read the values of the variables off the assignment.
    let γ : Nat → Bool := fun i => (t.vars[i]?.map (Literal.eval β)).getD false
    have hγ : Fixes t.vars γ β := by
      intro i l hi
      simp [γ, hi]
    exact ⟨γ, by rw [← h.eval x hx hγ hβ, hl]⟩
  · rintro ⟨γ, hF⟩
    obtain ⟨β, hγ, hβ⟩ := h.wf.exists_fixes γ
    exact ⟨β, hβ, by rw [h.eval x hx hγ hβ, hF]⟩

/-- What is answered to a query is right if the solver is. -/
theorem Truthful.query_iff (hS : S.Sound) {t : Talk (Encoder S) Literal} (h : Truthful t)
    {x : Literal × BoolFn} (hx : x ∈ t.given) {b : Bool} {e : Encoder S} {events : List Event}
    (hrun : Decider.query t.state x.1 = ⟨.ok (.ok b), e, events⟩) :
    b = true ↔ x.2.Satisfiable := by
  rw [← h.satisfiable_iff hx]
  exact h.wf.isSatisfiable_iff hS (Except.ok.inj (congrArg Reply.result hrun))

/-- A solver that always answers leaves no query unanswered. -/
theorem Truthful.exists_query (hS : S.Exact) {t : Talk (Encoder S) Literal} (h : Truthful t)
    {x : Literal × BoolFn} (hx : x ∈ t.given) :
    ∃ b e, Decider.query t.state x.1 = .ok (.ok b) e ∧ (b = true ↔ x.2.Satisfiable) := by
  obtain ⟨b, hb⟩ := exists_isSatisfiable_eq_ok hS t.state x.1
  have hrun : Decider.query t.state x.1 = .ok (.ok b) (t.state.isSatisfiable x.1).2 :=
    congrArg (Reply.ok · (t.state.isSatisfiable x.1).2) hb
  exact ⟨b, _, hrun, h.query_iff hS.sound hx hrun⟩

/-- With an exact solver, a new encoder is an exact decider. -/
theorem exact_start (hS : S.Exact) : Decider.Exact (start : Encoder S) where
  make := by
    intro t ht q hq
    obtain ⟨l, e, events, hrun, _⟩ := (truthful_of_reached ht).answers hq
    exact ⟨l, e, events, hrun⟩
  query := by
    intro t ht x hx
    obtain ⟨b, e, hrun, hb⟩ := (truthful_of_reached ht).exists_query hS hx
    exact ⟨b, e, [], hrun, hb⟩

/-- Whatever was asked of an encoder before, and whatever its solver is:

    - every call about literals returned before is answered;
    - every choice of values for the variables extends to an assignment under which all
      clauses are true and every literal has the value of its function, and all such
      assignments agree on the variables that the encoder has;
    - if the solver is exact about the clauses and the one literal assumed, a query tells
      exactly whether the function of a literal is satisfiable;
    - if the solver is right where it answers, so is the query. -/
theorem encoding_exact (S : Cnf.Solver) {t : Talk (Encoder S) Literal}
    (ht : Talk.Reached start t) :
    (∀ q, t.Knows q → ∃ l e events, (q.map Prod.fst).run t.state = ⟨.ok l, e, events⟩) ∧
    (∀ γ, ∃ β, Fixes t.vars γ β ∧ Cnf.eval β t.state.clauses = true ∧
      (∀ x ∈ t.given, x.1.eval β = x.2 γ) ∧
      ∀ β', Fixes t.vars γ β' → Cnf.eval β' t.state.clauses = true →
        ∀ v, 1 ≤ v → v ≤ t.state.varCount → β' v = β v) ∧
    (S.Exact → ∀ x ∈ t.given, ∃ b e, Decider.query t.state x.1 = .ok (.ok b) e ∧
      (b = true ↔ x.2.Satisfiable)) ∧
    (S.Sound → ∀ x ∈ t.given, ∀ b e events,
      Decider.query t.state x.1 = ⟨.ok (.ok b), e, events⟩ → (b = true ↔ x.2.Satisfiable)) := by
  have h := truthful_of_reached ht
  refine ⟨?_, ?_, ?_, ?_⟩
  · intro q hq
    obtain ⟨l, e, events, hrun, _⟩ := h.answers hq
    exact ⟨l, e, events, hrun⟩
  · intro γ
    obtain ⟨β, hγ, hβ⟩ := h.wf.exists_fixes γ
    refine ⟨β, hγ, hβ, fun x hx => h.eval x hx hγ hβ, ?_⟩
    intro β' hγ' hβ'
    exact h.wf.eq_of_fixes hγ' hγ hβ' hβ
  · intro hS x hx
    exact h.exists_query hS hx
  · intro hS x hx b e events hrun
    exact h.query_iff hS hx hrun

/-- The conjunction of two variables can be true, and the solver that learns says so. -/
theorem encoding_exact_conjunction :
    ∃ (t : Talk (Encoder .learning) Literal) (x : Literal × BoolFn), Talk.Reached start t ∧
      x ∈ t.given ∧ x.2 = .all [.var 0, .var 1] ∧
      ∃ e, Decider.query t.state x.1 = .ok (.ok true) e := by
  have h₀ : Talk.Reached start (Talk.start (start : Encoder .learning)) := Talk.Reached.start
  have h₁ := h₀.make (q := .newVariable "x") (fun _ hx => nomatch hx) rfl
  have h₂ := h₁.make (q := .newVariable "y") (fun _ hx => nomatch hx) rfl
  have h₃ := h₂.make (q := .conjunction [(.pos 2, .var 0), (.pos 3, .var 1)])
    (by simp [Talk.Knows, Maker.operands, Talk.made, Talk.start, start, Maker.meaning, Maker.map,
      Maker.isVariable]) rfl
  refine ⟨_, _, h₃, List.mem_cons_self .., rfl, ?_⟩
  obtain ⟨b, e, hquery, hb⟩ := (encoding_exact .learning h₃).2.2.1 Cnf.Solver.exact_learning _
    (List.mem_cons_self ..)
  have htrue : b = true := hb.2 ⟨fun _ => true, rfl⟩
  exact ⟨e, htrue ▸ hquery⟩

end Encoder

end SatMemo
