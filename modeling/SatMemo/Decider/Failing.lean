import SatMemo.Error
import SatMemo.Event

/-! # Deciders

    A decider builds objects of its own for Boolean functions (literals, edges of
    a diagram, …) and tells of one object at a time whether it can be true.

    A failing decider is like another one, except that some of its queries go
    unanswered.  Which ones is fixed by a schedule; making objects never fails. -/

namespace SatMemo

/-- What a program needs from a decider with state `σ` and objects of type `τ`. -/
class Decider (σ : Type) (τ : outParam Type) where
  /-- Short name, for reports. -/
  name : String
  makeTrue : σ → Reply σ τ
  makeFalse : σ → Reply σ τ
  makeVariable : σ → String → Reply σ τ
  makeNot : σ → τ → Reply σ τ
  /-- Conjunction of a list; of the empty list, true. -/
  makeAnd : σ → List τ → Reply σ τ
  /-- Disjunction of a list; of the empty list, false. -/
  makeOr : σ → List τ → Reply σ τ
  /-- Can the object be true? -/
  query : σ → τ → Reply σ (Except DeciderError Bool)

/-! ## A decider that fails -/

/-- A decider, the number of queries made so far, and the failure that a query meets
    instead of an answer, by how many queries were made before it. -/
structure Failing (σ : Type) where
  inner    : σ
  checks   : Nat
  schedule : Nat → Option DeciderError

namespace Failing

/-- A schedule that lets the first `count` queries through and then always fails. -/
def after (count : Nat) (failure : DeciderError) : Nat → Option DeciderError :=
  fun i => if i < count then none else some failure

variable {σ τ : Type} [Decider σ τ]

/-- Pass a call on to the decider inside. -/
def forward {α : Type} (call : σ → Reply σ α) (d : Failing σ) : Reply (Failing σ) α :=
  match d with
  | ⟨inner, checks, schedule⟩ => (call inner).within fun inner => ⟨inner, checks, schedule⟩

/-- Ask the decider inside, unless the schedule has a failure for this query. -/
def ask (d : Failing σ) (x : τ) : Reply (Failing σ) (Except DeciderError Bool) :=
  match d with
  | ⟨inner, checks, schedule⟩ =>
      match schedule checks with
      | some failure => .ok (.error failure) ⟨inner, checks + 1, schedule⟩
      | none         => forward (Decider.query · x) ⟨inner, checks + 1, schedule⟩

instance : Decider (Failing σ) τ where
  name := "failing"
  makeTrue := forward Decider.makeTrue
  makeFalse := forward Decider.makeFalse
  makeVariable d name := d.forward (Decider.makeVariable · name)
  makeNot d x := d.forward (Decider.makeNot · x)
  makeAnd d xs := d.forward (Decider.makeAnd · xs)
  makeOr d xs := d.forward (Decider.makeOr · xs)
  query := ask

end Failing

end SatMemo
