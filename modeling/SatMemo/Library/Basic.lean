import SatMemo.Event

/-! # Libraries of formulas

    A library owns formula nodes and hands out their numbers.  It knows how a
    formula is built and nothing about its truth, except that it may offer a
    bounded check that sometimes knows the answer. -/

namespace SatMemo

/-- A node just made, the library that holds it, and what was reported on the way. -/
structure Grown (ε : Type) where
  node    : NodeId
  library : ε
  events  : List Event

/-- What a program needs from a library of formulas.  Asking about a node that the library
    does not hold may be a fault; making nodes never is. -/
class Library (ε : Type) where
  /-- Short name, for reports. -/
  name : String
  /-- Every node of the library is numbered below this. -/
  bound : ε → Nat
  /-- Does the library hold the node? -/
  contains : ε → NodeId → Bool
  kind : ε → NodeId → Except Fault Kind
  /-- Operands in order; none for constants and variables. -/
  children : ε → NodeId → Except Fault (List NodeId)
  /-- The name of a variable. -/
  label : ε → NodeId → Except Fault String
  /-- Do two nodes have the same structure? -/
  structEq : ε → NodeId → NodeId → Except Fault Bool
  /-- A key that nodes of the same structure agree on. -/
  structKey : ε → NodeId → Except Fault UInt64
  /-- The formula as text. -/
  print : ε → NodeId → Except Fault String
  makeTrue : ε → Grown ε
  makeFalse : ε → Grown ε
  makeVariable : ε → String → Grown ε
  makeNot : ε → NodeId → Grown ε
  /-- Conjunction of a list; of the empty list, true. -/
  makeAnd : ε → List NodeId → Grown ε
  /-- Disjunction of a list; of the empty list, false. -/
  makeOr : ε → List NodeId → Grown ε
  /-- A check of satisfiability that may stop undecided after `budget` rounds. -/
  checkBounded : ε → NodeId → (budget : Nat) → Reply ε Status

end SatMemo
