import SatMemo.Proofs.Oracle.Coupling

/-! # Deciders inside deciders

    A decider may hold another one and make its objects by passing the calls on
    (`PassesOn`).  An oracle with such a decider then makes, builds and checks
    formulas as the oracle with the decider inside would: the two are coupled.
    What becomes of queries depends on the decider that holds the other. -/

namespace SatMemo

variable {δ ε σ τ α β : Type}

/-- All calls that make objects are passed on to the decider inside. -/
def Decider.PassesOn [Decider δ τ] [Decider σ τ] (inner : δ → σ) : Prop :=
  ∀ (q : Maker τ) (d : δ), (q.run d).within inner = q.run (inner d)

namespace Oracle

variable (inner : δ → σ)

/-! ## The oracle with the decider inside -/

/-- The oracle that has the decider inside in place of the one that holds it. -/
def inside (o : Oracle ε δ τ) : Oracle ε σ τ where
  library  := o.library
  decider  := inner o.decider
  index    := o.index
  entries  := o.entries
  checked  := o.checked
  varCount := o.varCount
  settings := o.settings
  stats    := o.stats
  watched  := o.watched
  journal  := o.journal

/-- An end of a call, seen from inside. -/
def insideResult : EStateM.Result Stop (Oracle ε δ τ) α → EStateM.Result Stop (Oracle ε σ τ) α
  | .ok a o       => .ok a (o.inside inner)
  | .error stop o => .error stop (o.inside inner)

/-- From this oracle, the call `q` does with the decider inside what `p` does with the one that
    holds it. -/
def Mirrored (p : OracleM ε δ τ α) (q : OracleM ε σ τ α) (o : Oracle ε δ τ) : Prop :=
  q (o.inside inner) = insideResult inner (p o)

/-- From any oracle. -/
def Mirrors (p : OracleM ε δ τ α) (q : OracleM ε σ τ α) : Prop :=
  ∀ o, Mirrored inner p q o

/-- The oracle with the decider inside, beside the other one. -/
def Inside (o : Oracle ε δ τ) (o' : Oracle ε σ τ) : Prop :=
  o' = o.inside inner

section Mirrors

variable {inner : δ → σ} {p : OracleM ε δ τ α} {q : OracleM ε σ τ α} {o o₁ : Oracle ε δ τ}

/-- To do the same is to be coupled with the oracle inside. -/
theorem mirrors_of_couples (h : Couples (Inside inner) p q) : Mirrors inner p q := by
  intro o
  unfold Mirrored
  have hend := h o (o.inside inner) rfl
  unfold Ends at hend
  cases hp : p o with
  | ok a o₁ =>
    rw [hp] at hend
    cases hq : q (o.inside inner) with
    | ok a' o₁' =>
      rw [hq] at hend
      obtain ⟨heq, hR⟩ := hend
      cases heq
      cases hR
      rfl
    | error stop o₁' =>
      rw [hq] at hend
      cases hend.1
  | error stop o₁ =>
    rw [hp] at hend
    cases hq : q (o.inside inner) with
    | ok a' o₁' =>
      rw [hq] at hend
      cases hend.1
    | error stop' o₁' =>
      rw [hq] at hend
      obtain ⟨heq, hR⟩ := hend
      cases heq
      cases hR
      rfl

/-- What a call comes to, if it comes to a value inside. -/
theorem Mirrored.exists_ok (h : Mirrored inner p q o) {a : α} {o' : Oracle ε σ τ}
    (hq : q (o.inside inner) = .ok a o') : ∃ o₁, p o = .ok a o₁ ∧ o₁.inside inner = o' := by
  have hp := h.symm.trans hq
  cases hrun : p o with
  | ok a' o₁ =>
    rw [hrun] at hp
    cases hp
    exact ⟨o₁, rfl, rfl⟩
  | error stop o₁ =>
    rw [hrun] at hp
    cases hp

theorem Mirrored.bind {k : α → OracleM ε δ τ β} {k' : α → OracleM ε σ τ β}
    (h : Mirrored inner p q o) (hk : ∀ a o₁, p o = .ok a o₁ → Mirrored inner (k a) (k' a) o₁) :
    Mirrored inner (p >>= k) (q >>= k') o := by
  unfold Mirrored at *
  cases hp : p o with
  | ok a o₁ =>
    rw [hp] at h
    rw [bind_ok hp, bind_ok h]
    exact hk a o₁ hp
  | error stop o₁ =>
    rw [hp] at h
    rw [bind_error hp, bind_error h]
    rfl

/-- A step that changes both oracles alike. -/
theorem inside_modify {f : Oracle ε δ τ → Oracle ε δ τ} {f' : Oracle ε σ τ → Oracle ε σ τ}
    (h : ∀ o, f' (o.inside inner) = (f o).inside inner) :
    Couples (Inside inner) (modify f : OracleM ε δ τ PUnit) (modify f') := by
  apply Couples.modify
  intro o o' hR
  cases hR
  exact h o

/-- A call of the decider, if it is passed on. -/
theorem inside_callDecider {call : δ → Reply δ α} {call' : σ → Reply σ α}
    (h : ∀ d, (call d).within inner = call' (inner d)) :
    Couples (Inside inner) (callDecider call : OracleM ε δ τ α) (callDecider call') := by
  intro o o' hR
  cases hR
  have ho := h o.decider
  unfold Ends callDecider inside
  dsimp only
  rw [← ho]
  rcases call o.decider with ⟨fault | a, d, events⟩ <;> exact ⟨rfl, rfl⟩

theorem inside_callLibrary (call : ε → Reply ε α) :
    Couples (Inside inner) (callLibrary call : OracleM ε δ τ α) (callLibrary call) := by
  intro o o' hR
  cases hR
  unfold Ends callLibrary inside
  dsimp only
  rcases call o.library with ⟨fault | a, lib, events⟩ <;> exact ⟨rfl, rfl⟩

end Mirrors

/-! ## Building and checking -/

section Calls

variable {inner : δ → σ} [Library ε] [Decider δ τ] [Decider σ τ]

theorem coupling_inside (hinner : Decider.PassesOn inner) :
    Coupling (Inside inner : Oracle ε δ τ → Oracle ε σ τ → Prop) where
  alike := by
    intro o o' hR
    cases hR
    exact ⟨rfl, rfl, rfl, rfl, rfl, rfl, rfl, rfl, rfl⟩
  make := fun q => inside_callDecider (hinner q)
  event := by
    intro o o' e hR
    cases hR
    rfl
  entry := by
    intro o o' e hR
    cases hR
    rfl
  hit := by
    intro o o' hR
    cases hR
    rfl
  miss := by
    intro o o' index hR
    cases hR
    rfl

variable (hinner : Decider.PassesOn inner)
include hinner

theorem inside_recordVerdict (i : Nat) (satisfiable : Bool) :
    Couples (Inside inner) (recordVerdict i satisfiable : OracleM ε δ τ Unit)
      (recordVerdict i satisfiable : OracleM ε σ τ Unit) := by
  apply ((coupling_inside hinner).make .constFalse).bind
  intro falsity
  apply ((coupling_inside hinner).entryAt i).bind
  intro e
  apply (couples_orFault _).bind
  intro e'
  exact inside_modify fun _ => rfl

theorem inside_checkStatus (n : NodeId) :
    Couples (Inside inner) (checkStatus n : OracleM ε δ τ Status)
      (checkStatus n : OracleM ε σ τ Status) := by
  apply Couples.get
  intro o o' hR
  cases hR
  apply (couples_orFault _).bind
  intro status?
  cases status? with
  | some status => exact Couples.pure _
  | none =>
    apply (inside_callLibrary _).bind
    intro status
    refine Couples.bind (inside_modify ?_) fun _ => ?_
    · exact fun _ => rfl
    apply ((coupling_inside hinner).report _).bind
    intro _
    apply Couples.get
    intro o₁ o₁' hR₁
    cases hR₁
    apply (couples_orFault _).bind
    intro checked
    refine Couples.bind (inside_modify ?_) fun _ => Couples.pure _
    exact fun _ => rfl

theorem inside_checkVerdict? (n : NodeId) :
    Couples (Inside inner) (checkVerdict? n : OracleM ε δ τ (Option Bool))
      (checkVerdict? n : OracleM ε σ τ (Option Bool)) := by
  apply Couples.get
  intro o o' hR
  cases hR
  exact Couples.ite ((inside_checkStatus hinner n).bind fun _ => Couples.pure _) (Couples.pure _)

theorem inside_reportQuery (n : NodeId) (satisfiable : Bool) :
    Couples (Inside inner) (reportQuery n satisfiable : OracleM ε δ τ Unit)
      (reportQuery n satisfiable : OracleM ε σ τ Unit) := by
  apply Couples.get
  intro o o' hR
  cases hR
  apply Couples.ite
  · apply Couples.bind
    · apply couples_ask
      intro o₁ o₁' hR₁
      cases hR₁
      rfl
    · intro text
      exact (coupling_inside hinner).report _
  · exact Couples.pure _

/-- The rest of a question, once the bounded check has a verdict. -/
theorem inside_noteCheck (i : Nat) (satisfiable : Bool) :
    Couples (Inside inner)
      (do
        modify fun o => { o with stats := { o.stats with checkHits := o.stats.checkHits + 1 } }
        recordVerdict i satisfiable
        return satisfiable : OracleM ε δ τ Bool)
      (do
        modify fun o => { o with stats := { o.stats with checkHits := o.stats.checkHits + 1 } }
        recordVerdict i satisfiable
        return satisfiable : OracleM ε σ τ Bool) := by
  refine Couples.bind (inside_modify ?_) fun _ => ?_
  · exact fun _ => rfl
  exact (inside_recordVerdict hinner i _).bind fun _ => Couples.pure _

/-- The rest of a question, once the decider has answered. -/
theorem inside_noteQuery (n : NodeId) (i : Nat) (satisfiable : Bool) :
    Couples (Inside inner)
      (do
        modify fun o => { o with stats := { o.stats with queries := o.stats.queries + 1 } }
        reportQuery n satisfiable
        recordVerdict i satisfiable
        return satisfiable : OracleM ε δ τ Bool)
      (do
        modify fun o => { o with stats := { o.stats with queries := o.stats.queries + 1 } }
        reportQuery n satisfiable
        recordVerdict i satisfiable
        return satisfiable : OracleM ε σ τ Bool) := by
  refine Couples.bind (inside_modify ?_) fun _ => ?_
  · exact fun _ => rfl
  apply (inside_reportQuery hinner n satisfiable).bind
  intro _
  exact (inside_recordVerdict hinner i _).bind fun _ => Couples.pure _

/-- Calls that put no query. -/
theorem mirrors_perform_of_no_query {c : Call NodeId} (hc : ∀ n, c ≠ .isSatisfiable n) :
    Mirrors inner (perform c : OracleM ε δ τ Answer) (perform c) := by
  cases c with
  | makeTrue => exact fun _ => rfl
  | makeFalse => exact fun _ => rfl
  | newVariable => exact fun _ => rfl
  | makeNot n => exact fun _ => rfl
  | makeAnd m n => exact fun _ => rfl
  | makeOr m n => exact fun _ => rfl
  | makeAll ns => exact fun _ => rfl
  | makeAny ns => exact fun _ => rfl
  | build n =>
    apply mirrors_of_couples
    exact ((coupling_inside hinner).build n).bind fun _ => Couples.pure _
  | isSatisfiable n => exact absurd rfl (hc n)

end Calls

end Oracle

end SatMemo
