import SatMemo.Proofs.Decider.Talk
import SatMemo.Proofs.Library.Lawful

/-! # Making nodes

    What a library can be asked to make are the same things that a decider can
    be asked to make, about nodes in place of objects.  The six laws of a lawful
    library about new nodes come to one: a node that is made from nodes of the
    library has the value that was asked for (`Library.grows_build`). -/

namespace SatMemo

namespace Maker

/-- The function asked for, where variables are known by name. -/
def sense : Maker ((String → Bool) → Bool) → (String → Bool) → Bool
  | constTrue, _        => true
  | constFalse, _       => false
  | newVariable name, ρ => ρ name
  | complement F, ρ     => !F ρ
  | conjunction Fs, ρ   => Fs.all fun F => F ρ
  | disjunction Fs, ρ   => Fs.any fun F => F ρ

/-- Ask a library. -/
def build {ε : Type} [Library ε] (lib : ε) : Maker NodeId → Grown ε
  | constTrue        => Library.makeTrue lib
  | constFalse       => Library.makeFalse lib
  | newVariable name => Library.makeVariable lib name
  | complement n     => Library.makeNot lib n
  | conjunction ns   => Library.makeAnd lib ns
  | disjunction ns   => Library.makeOr lib ns

end Maker

namespace Library

variable {ε : Type} [Library ε] [Lawful ε] {lib : ε}

/-- A library that is asked for a node over nodes it holds still has all that it had, and the
    new node has the value asked for. -/
theorem grows_build (h : Lawful.Wf lib) {q : Maker NodeId}
    (hq : ∀ n ∈ q.operands, contains lib n = true) :
    Grows Lawful.Wf lib (q.build lib) (q.map fun n ρ => value lib ρ n).sense := by
  cases q with
  | constTrue => exact Lawful.grows_true h
  | constFalse => exact Lawful.grows_false h
  | newVariable name => exact Lawful.grows_variable name h
  | complement n => exact Lawful.grows_not h (hq n (List.mem_singleton.2 rfl))
  | conjunction ns =>
    have hsense : ((Maker.conjunction ns).map fun n ρ => value lib ρ n).sense
        = fun ρ => ns.all (value lib ρ) := by
      funext ρ
      exact List.all_map
    rw [hsense]
    exact Lawful.grows_and h hq
  | disjunction ns =>
    have hsense : ((Maker.disjunction ns).map fun n ρ => value lib ρ n).sense
        = fun ρ => ns.any (value lib ρ) := by
      funext ρ
      exact List.any_map
    rw [hsense]
    exact Lawful.grows_or h hq

end Library

end SatMemo
