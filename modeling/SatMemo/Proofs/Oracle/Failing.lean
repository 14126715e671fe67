import SatMemo.Cnf.Decider
import SatMemo.Decider.Failing
import SatMemo.Proofs.Oracle.Answering
import SatMemo.Proofs.Oracle.Inside
import SatMemo.Proofs.Oracle.Lasting

/-! # Queries that fail

    A decider falters if it makes its objects by passing the calls on to the one
    inside and may leave queries unanswered (`Falters`).  There are two of the
    kind: the failing decider, which follows a schedule, and the encoder, whose
    solver may be interrupted; the one inside is then an encoder with a solver
    that always answers.

    A question that meets a failure has built its formula by then and may have run
    the bounded check, which had no verdict; nothing else has happened
    (`Setback`).  Any other call does what it would do with the decider inside.

    If that one is exact, the oracle with it in place of the other one follows a
    reading, whichever queries failed: a setback leaves the reading as it is. -/

namespace SatMemo

/-! ## Deciders that falter -/

/-- Objects are made by the decider inside.  A query is passed on or left unanswered, with
    nothing to report; in the latter case the decider inside may have been asked. -/
structure Decider.Falters {δ σ τ : Type} [Decider δ τ] [Decider σ τ] (inner : δ → σ) :
    Prop where
  passesOn : PassesOn inner
  query    : ∀ (d : δ) (x : τ), (Decider.query d x).within inner = Decider.query (inner d) x ∨
    ∃ failure d', Decider.query d x = ⟨.ok (.error failure), d', []⟩ ∧
      (inner d' = inner d ∨ inner d' = (Decider.query (inner d) x).state)

namespace Failing

variable {σ τ : Type} [Decider σ τ]

/-- The decider inside is not asked when the schedule has a failure. -/
theorem falters : Decider.Falters (inner : Failing σ → σ) where
  passesOn := by
    intro q d
    cases d
    cases q <;> rfl
  query := by
    rintro ⟨s, checks, schedule⟩ x
    show (ask _ x).within inner = _ ∨ ∃ failure d', ask _ x = _ ∧ _
    unfold ask
    dsimp only
    cases hfailure : schedule checks with
    | none => exact .inl rfl
    | some failure => exact .inr ⟨failure, _, rfl, .inl rfl⟩

end Failing

namespace Encoder

variable {S S' : Cnf.Solver}

/-- The encoder with another solver. -/
def withSolver (S : Cnf.Solver) (e : Encoder S') : Encoder S where
  varCount := e.varCount
  clauses  := e.clauses
  gates    := e.gates
  outputs  := e.outputs
  queries  := e.queries
  names    := e.names

theorem conjunction_withSolver (e : Encoder S') (ls : List Literal) :
    (e.withSolver S).conjunction ls
      = ⟨(e.conjunction ls).literal, (e.conjunction ls).encoder.withSolver S,
          (e.conjunction ls).events⟩ := by
  unfold conjunction
  cases fold ls with
  | known l => rfl
  | gate key =>
    have hgate : (e.withSolver S).gate? key = e.gate? key := rfl
    simp only [hgate]
    cases e.gate? key <;> rfl

theorem passesOn_withSolver : Decider.PassesOn (withSolver S : Encoder S' → Encoder S) := by
  intro q e
  cases q with
  | conjunction ls =>
    show _ = ((e.withSolver S).conjunction ls).reply
    rw [conjunction_withSolver]
    rfl
  | disjunction ls =>
    show _ = ((e.withSolver S).disjunction ls).reply
    unfold disjunction
    rw [conjunction_withSolver]
    rfl
  | _ => rfl

/-- A solver that is right gives the answers of an exact one, or it is interrupted.  The
    query is counted either way. -/
theorem falters (hS : S.Exact) (hS' : S'.Sound) :
    Decider.Falters (withSolver S : Encoder S' → Encoder S) where
  passesOn := passesOn_withSolver
  query := by
    intro e l
    have hquery : ∀ {S₁ : Cnf.Solver} (e₁ : Encoder S₁), Decider.query e₁ l
        = .ok (e₁.isSatisfiable l).1 (e₁.isSatisfiable l).2 := fun _ => rfl
    rw [hquery, hquery]
    unfold isSatisfiable
    by_cases ht : l = truth
    · left
      simp only [if_pos ht]
      rfl
    · by_cases hf : l = falsity
      · left
        simp only [if_neg ht, if_pos hf]
        rfl
      · simp only [if_neg ht, if_neg hf]
        cases hsolve : S'.solve e.queries e.clauses l with
        | some b =>
          left
          have hright : S.solve (e.withSolver S).queries (e.withSolver S).clauses l = some b :=
            hS.solve_eq hS' hsolve
          rw [hright]
          rfl
        | none => exact .inr ⟨.interrupted, _, rfl, .inr rfl⟩

end Encoder

namespace Oracle

open Library (contains Lawful Extends)

variable {δ ε σ τ : Type} [Library ε] [Decider δ τ] [Decider σ τ] {inner : δ → σ} {s₀ : σ}
  {n : NodeId} {i : Nat} {o o' o₁ : Oracle ε δ τ} {stop : Stop}

/-! ## Consulting -/

omit [Library ε] in
/-- The query is passed on. -/
theorem mirrored_queryDecider {x : τ}
    (h : (Decider.query o.decider x).within inner = Decider.query (inner o.decider) x) :
    Mirrored inner (queryDecider x) (queryDecider x) o := by
  have hcall : Mirrored inner (callDecider fun d => Decider.query d x)
      (callDecider fun d => Decider.query d x) o := by
    unfold Mirrored callDecider inside
    dsimp only
    rw [← h]
    rcases Decider.query o.decider x with ⟨fault | a, d, events⟩ <;> rfl
  refine hcall.bind fun answer o₁ _ => ?_
  cases answer <;> rfl

/-- What a question comes to that meets a failure, once its formula has the entry `e` with index
    `i`: the entry is open, the bounded check has no verdict, and the query about the object of
    the entry is left unanswered. -/
structure Forgone (inner : δ → σ) (n : NodeId) (i : Nat) (e : Entry τ) (o : Oracle ε δ τ)
    (stop : Stop) (o' : Oracle ε δ τ) : Prop where
  entry  : o.entries[i]? = some e
  opened : e.status = .unknown
  rest   : ∃ failure o₁ d, stop = .error (.decider failure) ∧ checkVerdict? n o = .ok none o₁ ∧
    Decider.query o₁.decider e.object = ⟨.ok (.error failure), d, []⟩ ∧
    (inner d = inner o₁.decider ∨
      inner d = (Decider.query (inner o₁.decider) e.object).state) ∧
    o' = { o₁ with decider := d }

omit [Decider σ τ] in
/-- An open entry, a check without a verdict, and a query that is left unanswered. -/
theorem consult_of_failure {e : Entry τ} {failure : DeciderError} {d : δ}
    (he : o.entries[i]? = some e) (hopen : e.status = .unknown)
    (hchecked : checkVerdict? n o = .ok none o₁)
    (hquery : Decider.query o₁.decider e.object = ⟨.ok (.error failure), d, []⟩) :
    consult n i o = .error (.error (.decider failure)) { o₁ with decider := d } := by
  have hcall : callDecider (fun d => Decider.query d e.object) o₁
      = .ok (.error failure) { o₁ with decider := d } := by
    rw [callDecider_eq hquery, Array.appendList_nil]
  have hasked : queryDecider e.object o₁
      = .error (.error (.decider failure)) { o₁ with decider := d } := by
    unfold queryDecider
    rw [bind_ok hcall]
    rfl
  unfold consult
  rw [bind_ok (entryAt_eq he), hopen]
  dsimp only [Status.verdict?]
  rw [bind_ok hchecked]
  exact bind_error hasked

/-- The query is passed on, if there is one. -/
theorem mirrored_consult (hinner : Decider.PassesOn inner)
    (h : ∀ ⦃e o₁⦄, o.entries[i]? = some e → e.status = .unknown →
      checkVerdict? n o = .ok none o₁ →
      (Decider.query o₁.decider e.object).within inner
        = Decider.query (inner o₁.decider) e.object) :
    Mirrored inner (consult n i) (consult n i) o := by
  unfold consult
  refine Mirrored.bind (mirrors_of_couples ((coupling_inside hinner).entryAt i) o) ?_
  intro e o₂ hentry
  -- To look at the entry changes nothing.
  obtain ⟨rfl, he⟩ : o₂ = o ∧ o.entries[i]? = some e := by
    cases he : o.entries[i]? with
    | some e' =>
      cases (entryAt_eq he).symm.trans hentry
      exact ⟨rfl, rfl⟩
    | none => cases (entryAt_eq_error he).symm.trans hentry
  cases hknown : e.status.verdict? with
  | some b => rfl
  | none =>
    have hopen : e.status = .unknown := Status.eq_unknown_of_verdict? hknown
    refine Mirrored.bind (mirrors_of_couples (inside_checkVerdict? hinner n) o₂) ?_
    intro verdict? o₁ hchecked
    cases verdict? with
    | some b => exact mirrors_of_couples (inside_noteCheck hinner i b) o₁
    | none =>
      refine (mirrored_queryDecider (h he hopen hchecked)).bind ?_
      intro b o₂ _
      exact mirrors_of_couples (inside_noteQuery hinner n i b) o₂

/-- A consultation is mirrored, or it meets a failure. -/
theorem consult_cases (hinner : Decider.Falters inner) (n : NodeId) (i : Nat)
    (o : Oracle ε δ τ) : Mirrored inner (consult n i) (consult n i) o ∨
      ∃ e stop o', consult n i o = .error stop o' ∧ Forgone inner n i e o stop o' := by
  by_cases hfails : ∃ e o₁ failure d, o.entries[i]? = some e ∧ e.status = .unknown ∧
      checkVerdict? n o = .ok none o₁ ∧
      Decider.query o₁.decider e.object = ⟨.ok (.error failure), d, []⟩ ∧
      (inner d = inner o₁.decider ∨ inner d = (Decider.query (inner o₁.decider) e.object).state)
  · obtain ⟨e, o₁, failure, d, he, hopen, hchecked, hquery, hd⟩ := hfails
    refine .inr ⟨e, _, _, consult_of_failure he hopen hchecked hquery, ?_⟩
    exact ⟨he, hopen, failure, o₁, d, rfl, hchecked, hquery, hd, rfl⟩
  · refine .inl (mirrored_consult hinner.passesOn ?_)
    intro e o₁ he hopen hchecked
    rcases hinner.query o₁.decider e.object with hmirrored | ⟨failure, d, hquery, hd⟩
    · exact hmirrored
    · exact absurd ⟨e, o₁, failure, d, he, hopen, hchecked, hquery, hd⟩ hfails

/-! ## Questions -/

/-- What a question comes to that meets a failure.  The memory has lost nothing, the formula has
    an open entry, and apart from building it nothing has changed but that the bounded check may
    have been run, without a verdict, and that the decider is as the query left it. -/
structure Setback (n : NodeId) (o : Oracle ε δ τ) (stop : Stop) (o' : Oracle ε δ τ) : Prop where
  /-- Entries keep their objects and what is known of them. -/
  entries   : ∀ ⦃i : Nat⦄ ⦃e : Entry τ⦄, o.entries[i]? = some e → o'.entries[i]? = some e
  /-- They keep their indices. -/
  indices   : ∀ ⦃m : NodeId⦄ ⦃i : Nat⦄, contains o.library m = true →
    indexOf? m o = .ok (some i) o → indexOf? m o' = .ok (some i) o'
  queries   : o'.stats.queries = o.stats.queries
  checkHits : o'.stats.checkHits = o.stats.checkHits
  /-- The entry is the one that building left, and it is still open. -/
  entry     : ∃ i e o₁, build n o = .ok i o₁ ∧ o₁.entries[i]? = some e ∧ e.status = .unknown ∧
    indexOf? n o' = .ok (some i) o' ∧ o'.entries[i]? = some e
  /-- The formula is built, its check has no verdict, and the query about the object of its entry
      meets the failure. -/
  effects   : ∃ i e o₁ o₂ failure d, build n o = .ok i o₁ ∧ o₁.entries[i]? = some e ∧
    Probed n o₁ none o₂ ∧
    Decider.query o₂.decider e.object = ⟨.ok (.error failure), d, []⟩ ∧
    stop = .error (.decider failure) ∧ o' = { o₂ with decider := d }

omit [Decider σ τ] in
theorem Setback.failure (h : Setback n o stop o') :
    ∃ failure, stop = .error (.decider failure) := by
  obtain ⟨i, e, o₁, o₂, failure, d, -, -, -, -, hstop, -⟩ := h.effects
  exact ⟨failure, hstop⟩

variable [Lawful ε] {v : Nat} {reps : List NodeId} {r : Reading} {answers : List Answer} {k : Nat}

omit [Decider δ τ] [Decider σ τ] [Lawful ε] in
theorem indexOf?_inside_iff {i? : Option Nat} :
    indexOf? n (o.inside inner) = .ok i? (o.inside inner) ↔ indexOf? n o = .ok i? o := by
  rw [indexOf?_eq_ok_iff, indexOf?_eq_ok_iff]
  rfl

/-- The oracle was faithful before, and it still is. -/
theorem Forgone.setback {e : Entry τ} (hf : Forgone inner n i e o₁ stop o')
    (hbuild : build n o = .ok i o₁) (h : Faithful s₀ v reps (o.inside inner))
    {reps' : List NodeId} (h' : Faithful s₀ v reps' (o'.inside inner)) (hreps : reps <+: reps')
    (hi : reps'[i]? = some n) : Setback n o stop o' := by
  obtain ⟨he, hopen, failure, o₂, d, rfl, hchecked, hquery, -, rfl⟩ := hf
  obtain ⟨_, ⟨⟩, hprobed⟩ := (settles_checkVerdict? n o₁).of_ok hchecked
  have hspared := hprobed.spared
  have hlarger : Enlarged o o₁ := ((settles_build_enlarging n o).of_ok hbuild).enlarged
  have hentries : ∀ {j : Nat} {e' : Entry τ}, o₁.entries[j]? = some e' →
      o₂.entries[j]? = some e' := by
    intro j e' he'
    rw [hspared.entries]
    exact he'
  constructor
  case entries => exact fun j e' he' => hentries (hlarger.entries he')
  case indices =>
    intro m j hm hj
    have hmj : reps[j]? = some m := h.getElem?_of_indexOf? hm (indexOf?_inside_iff.2 hj)
    obtain ⟨more, rfl⟩ := hreps
    have hlt := (List.getElem?_eq_some_iff.1 hmj).1
    exact indexOf?_inside_iff.1 (h'.indexOf?_eq ((List.getElem?_append_left hlt).trans hmj))
  case queries => exact hspared.queries.trans hlarger.queries
  case checkHits => exact hspared.checkHits.trans hlarger.checkHits
  case entry =>
    exact ⟨i, e, o₁, hbuild, he, hopen, indexOf?_inside_iff.1 (h'.indexOf?_eq hi), hentries he⟩
  case effects => exact ⟨i, e, o₁, o₂, failure, d, hbuild, he, hprobed, hquery, rfl, rfl⟩

omit [Decider δ τ] in
/-- Whether the decider inside was asked about an entry or not, the oracle with it stays
    faithful. -/
theorem Faithful.unanswered {e : Entry τ} (h : Faithful s₀ v reps (o.inside inner))
    (hexact : Decider.Exact s₀) (hi : reps[i]? = some n) (he : o.entries[i]? = some e) {d : δ}
    (hd : inner d = inner o.decider ∨
      inner d = (Decider.query (inner o.decider) e.object).state) :
    Faithful s₀ v reps ({ o with decider := d }.inside inner) := by
  have hinside : ({ o with decider := d } : Oracle ε δ τ).inside inner
      = { o.inside inner with decider := inner d } := rfl
  rw [hinside]
  rcases hd with hd | hd
  · rw [hd]
    exact h
  · obtain ⟨b, s, events, hasked, -, hstays⟩ := h.exists_query hexact hi he
    have hs : inner d = s := hd.trans (congrArg Reply.state hasked)
    rw [hs]
    exact hstays o.journal

/-- A question is mirrored, or it meets a failure and the node is not checked again. -/
theorem Follows.question_cases (hinner : Decider.Falters inner) (hexact : Decider.Exact s₀)
    (h : Follows s₀ r answers (o.inside inner)) (hn : contains o.library n = true) :
    Mirrored inner (isSatisfiable n) (isSatisfiable n) o ∨
      ∃ stop o', isSatisfiable n o = .error stop o' ∧ Setback n o stop o' ∧ Spent n o' ∧
        Follows s₀ r answers (o'.inside inner) := by
  obtain ⟨reps, hfaithful⟩ := h.faithful
  -- The formula is built with the faltering decider as with the one inside.
  obtain ⟨i, o₁', hbuild', hlibrary, reps₁, hfaithful₁, hreps, hi⟩ :=
    hfaithful.gives_build hexact hn
  have hmirrors : Mirrors inner (build n : OracleM ε δ τ Nat) (build n) :=
    mirrors_of_couples ((coupling_inside hinner.passesOn).build n)
  obtain ⟨o₁, hbuild, rfl⟩ := (hmirrors o).exists_ok hbuild'
  have hn₁ : contains o₁.library n = true := hfaithful₁.held (List.mem_of_getElem? hi)
  obtain hmirrored | ⟨e, stop, o', hconsult, hforgone⟩ := consult_cases hinner n i o₁
  · refine .inl ?_
    have hbuilds : Mirrored inner (build n) (build n) o := hmirrors o
    rw [isSatisfiable_eq, isSatisfiable_eq]
    refine hbuilds.bind ?_
    intro j o₂ hbuild₂
    cases hbuild.symm.trans hbuild₂
    exact hmirrored
  · have he := hforgone.entry
    obtain ⟨failure, o₂, d, rfl, hchecked, -, hd, rfl⟩ := hforgone.rest
    -- So is the check, which leaves a faithful oracle behind.
    have hmirror := mirrors_of_couples (inside_checkVerdict? hinner.passesOn n) o₁
    obtain ⟨verdict?, o₃, hchecked', hfaithful₂, hlater, hentries, -⟩ :=
      hfaithful₁.gives_checkVerdict? hn₁
    rw [hmirror, hchecked] at hchecked'
    cases hchecked'
    have he₂ : o₂.entries[i]? = some e := by
      change (o₂.inside inner).entries[i]? = _
      rw [hentries]
      exact he
    have hfaithful' := hfaithful₂.unanswered hexact hi he₂ hd
    obtain ⟨pairs, hpairs, -⟩ := hfaithful₁.checked
    obtain ⟨_, ⟨⟩, hprobed⟩ := (settles_checkVerdict? n o₁).of_ok hchecked
    have hspent : Spent n o₂ := hprobed.spent hfaithful₁.wf hn₁ hpairs
    have hsetback := hforgone.setback hbuild hfaithful hfaithful' hreps hi
    refine .inr ⟨_, _, (bind_ok hbuild).trans hconsult, hsetback, hspent, ?_⟩
    refine h.later ⟨reps₁, hfaithful'⟩ ?_
    rw [← hlibrary]
    exact hlater

end Oracle

end SatMemo
