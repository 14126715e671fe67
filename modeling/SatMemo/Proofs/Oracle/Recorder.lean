import SatMemo.Proofs.Oracle.Inside

/-! # A decider that keeps a record

    A decider like another one that notes every object it made and every query
    put to it.  It answers as the other one does, so an oracle with a recorder in
    it does what it would do without (`mirrors_perform`).  What the record tells
    about the former is therefore true of the latter. -/

namespace SatMemo

/-- A query and what came of it. -/
structure Asked (τ : Type) where
  object : τ
  answer : Except Fault (Except DeciderError Bool)

/-- A decider, the objects it made, each with the kind of formula it was made for, and the
    queries put to it, the earliest first. -/
structure Recorder (σ τ : Type) where
  inner : σ
  made  : List (Kind × τ)
  asked : List (Asked τ)

namespace Recorder

variable {σ τ : Type} [Decider σ τ]

/-- A decider with an empty record. -/
def start (s : σ) : Recorder σ τ where
  inner := s
  made  := []
  asked := []

/-- Pass a call on that makes an object, and note the object. -/
def make (kind : Kind) (call : σ → Reply σ τ) (d : Recorder σ τ) : Reply (Recorder σ τ) τ :=
  match call d.inner with
  | ⟨.ok x, inner, events⟩ => ⟨.ok x, ⟨inner, d.made ++ [(kind, x)], d.asked⟩, events⟩
  | ⟨.error fault, inner, events⟩ => ⟨.error fault, ⟨inner, d.made, d.asked⟩, events⟩

/-- Pass a query on, and note it. -/
def ask (d : Recorder σ τ) (x : τ) : Reply (Recorder σ τ) (Except DeciderError Bool) :=
  match Decider.query d.inner x with
  | ⟨answer, inner, events⟩ => ⟨answer, ⟨inner, d.made, d.asked ++ [⟨x, answer⟩]⟩, events⟩

instance : Decider (Recorder σ τ) τ where
  name := Decider.name σ
  makeTrue := make .constTrue Decider.makeTrue
  makeFalse := make .constFalse Decider.makeFalse
  makeVariable d name := d.make .var (Decider.makeVariable · name)
  makeNot d x := d.make .not (Decider.makeNot · x)
  makeAnd d xs := d.make .and (Decider.makeAnd · xs)
  makeOr d xs := d.make .or (Decider.makeOr · xs)
  query := ask

omit [Decider σ τ] in
/-- The record plays no part in what is answered. -/
theorem within_make (kind : Kind) (call : σ → Reply σ τ) (d : Recorder σ τ) :
    (d.make kind call).within inner = call d.inner := by
  unfold make Reply.within
  rcases call d.inner with ⟨fault | x, s, events⟩ <;> rfl

theorem within_run (q : Maker τ) (d : Recorder σ τ) : (q.run d).within inner = q.run d.inner := by
  cases q with
  | constTrue => exact within_make .constTrue Decider.makeTrue d
  | constFalse => exact within_make .constFalse Decider.makeFalse d
  | newVariable name => exact within_make .var (Decider.makeVariable · name) d
  | complement x => exact within_make .not (Decider.makeNot · x) d
  | conjunction xs => exact within_make .and (Decider.makeAnd · xs) d
  | disjunction xs => exact within_make .or (Decider.makeOr · xs) d

theorem within_ask (d : Recorder σ τ) (x : τ) :
    (d.ask x).within inner = Decider.query d.inner x := rfl

end Recorder

namespace Oracle

variable {ε σ τ α β : Type}

/-! ## Taking the record away -/

/-- The oracle without the record of its decider. -/
def erase (o : Oracle ε (Recorder σ τ) τ) : Oracle ε σ τ where
  library  := o.library
  decider  := o.decider.inner
  index    := o.index
  entries  := o.entries
  checked  := o.checked
  varCount := o.varCount
  settings := o.settings
  stats    := o.stats
  watched  := o.watched
  journal  := o.journal

/-- An end of a call without the record. -/
def eraseResult : EStateM.Result Stop (Oracle ε (Recorder σ τ) τ) α →
    EStateM.Result Stop (Oracle ε σ τ) α
  | .ok a o       => .ok a o.erase
  | .error stop o => .error stop o.erase

/-! ## Building and deciding -/

section Calls

variable [Library ε] [Decider σ τ]

omit [Library ε] in
theorem inside_queryDecider (object : τ) :
    Couples (Inside Recorder.inner) (queryDecider object : OracleM ε (Recorder σ τ) τ Bool)
      (queryDecider object : OracleM ε σ τ Bool) := by
  apply (inside_callDecider fun d => Recorder.within_ask d object).bind
  intro answer
  cases answer with
  | ok b => exact Couples.pure _
  | error e => exact Couples.throw _

theorem inside_consult (n : NodeId) (i : Nat) :
    Couples (Inside Recorder.inner) (consult n i : OracleM ε (Recorder σ τ) τ Bool)
      (consult n i : OracleM ε σ τ Bool) := by
  apply ((coupling_inside Recorder.within_run).entryAt i).bind
  intro e
  cases e.status.verdict? with
  | some satisfiable => exact Couples.pure _
  | none =>
    apply (inside_checkVerdict? Recorder.within_run n).bind
    intro verdict?
    cases verdict? with
    | some satisfiable => exact inside_noteCheck Recorder.within_run i satisfiable
    | none =>
      apply (inside_queryDecider e.object).bind
      intro satisfiable
      exact inside_noteQuery Recorder.within_run n i satisfiable

theorem mirrors_perform_inside (c : Call NodeId) :
    Mirrors Recorder.inner (perform c : OracleM ε (Recorder σ τ) τ Answer) (perform c) := by
  cases c with
  | isSatisfiable n =>
    apply mirrors_of_couples
    have hask : Couples (Inside Recorder.inner)
        (isSatisfiable n : OracleM ε (Recorder σ τ) τ Bool)
        (isSatisfiable n : OracleM ε σ τ Bool) :=
      ((coupling_inside Recorder.within_run).build n).bind fun i => inside_consult n i
    exact hask.bind fun _ => Couples.pure _
  | _ => exact mirrors_perform_of_no_query Recorder.within_run nofun

/-- Every call does without a record what it does with one. -/
theorem mirrors_perform (c : Call NodeId) (o : Oracle ε (Recorder σ τ) τ) :
    perform c o.erase = eraseResult (perform c o) := by
  have hinside := mirrors_perform_inside c o
  have herase : eraseResult (perform c o) = insideResult Recorder.inner (perform c o) := by
    cases perform c o <;> rfl
  rw [herase, ← hinside]
  rfl

end Calls

end Oracle

end SatMemo
