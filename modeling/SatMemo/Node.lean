/-! # Formula nodes, seen from outside

    A library of formulas hands out node numbers.  What the rest of the program
    may ask about a node is its kind, its children and its label.  What becomes
    known of a formula is its status.

    Numbers have no bound here.  A program that keeps them in words of 32 bits
    does the same as long as nodes and variables stay below `indexLimit`; beyond
    it a mark does not fit beside a number (`Signal.ofIndex32_eq_iff`,
    `Edge.ofIndex32_eq_iff`, `Literal.packed_eq_iff`).  Entries need no limit of
    their own, since there are no more of them than handles
    (`Oracle.Faithful.entries_le`). -/

namespace SatMemo

/-- Numbers below this one fit into a word of 32 bits together with a complement mark or a
    sign. -/
def indexLimit : Nat :=
  0x80000000

/-- A node of some formula library.  Its number may be a signal, so it fits into a word of 32
    bits if the index in it is below `indexLimit`. -/
structure NodeId where
  raw : Nat
deriving Repr, DecidableEq, Inhabited

def NodeId.text (n : NodeId) : String :=
  s!"#{n.raw}"

/-- The connective at a node. -/
inductive Kind where
  | constTrue
  | constFalse
  | var
  | not
  | and
  | or
deriving Repr, DecidableEq, Inhabited

namespace Kind

/-- May a node of this kind have `arity` children?  Constants and variables have
    none, a negation has one, the other connectives at least one. -/
def accepts (k : Kind) (arity : Nat) : Bool :=
  match k with
  | .constTrue | .constFalse | .var => arity == 0
  | .not                            => arity == 1
  | .and | .or                      => 1 ≤ arity

def text : Kind → String
  | .constTrue  => "TRUE"
  | .constFalse => "FALSE"
  | .var        => "VARIABLE"
  | .not        => "NOT"
  | .and        => "AND"
  | .or         => "OR"

/-- Position in the order of declaration, which hashes of unshared trees mix in. -/
def number : Kind → UInt64
  | .constTrue  => 0
  | .constFalse => 1
  | .var        => 2
  | .not        => 3
  | .and        => 4
  | .or         => 5

end Kind

/-! ## What is known of a formula -/

inductive Status where
  | unknown
  | sat
  | unsat
deriving Repr, DecidableEq, Inhabited

namespace Status

/-- The verdict on a formula that was decided. -/
def ofBool (satisfiable : Bool) : Status :=
  if satisfiable then .sat else .unsat

/-- The verdict, if there is one. -/
def verdict? : Status → Option Bool
  | .unknown => none
  | .sat     => some true
  | .unsat   => some false

def isDecided (s : Status) : Bool :=
  s.verdict?.isSome

def text : Status → String
  | .unknown => "UNKNOWN"
  | .sat     => "SAT"
  | .unsat   => "UNSAT"

@[simp] theorem verdict?_ofBool (b : Bool) : (ofBool b).verdict? = some b := by
  cases b <;> rfl

@[simp] theorem isDecided_ofBool (b : Bool) : (ofBool b).isDecided = true := by
  cases b <;> rfl

end Status

end SatMemo
