import SatMemo.Node

/-! # Faults and errors

    A fault ends a run: an index that was never issued, a size that no store
    can have, a second verdict on a settled entry.  It is not an answer about a
    formula and nobody recovers from it; `Fault.message` is its wording.

    An error answers one request and leaves everything usable: an unknown tag, a
    formula that makes no sense, a decider that found no answer. -/

namespace SatMemo

/-! ## Faults -/

/-- What can go wrong beyond repair. -/
inductive Fault where
  /-- Index 0, which every numbered store leaves unused. -/
  | zeroIndex
  /-- An index at or beyond the number of slots. -/
  | outOfBounds (slots index : Nat)
  /-- More than `2 ^ 31` buckets for a store. -/
  | storageBits
  /-- More than `2 ^ 31` slots for a memo table. -/
  | memoBits
  /-- A variable numbered 0. -/
  | zeroVariable
  /-- The signed literal 0. -/
  | zeroLiteral
  /-- A decision node that would branch on variable 0. -/
  | zeroBranch
  /-- A second verdict for an entry that already has one. -/
  | decidedAgain
  /-- A pending branch found fewer than two results. -/
  | missingResult
  /-- A finished work list left other than one result. -/
  | strayResults
  /-- A gate was evaluated before one of its inputs. -/
  | missingWord
  /-- A list of `2 ^ 61` elements or more. -/
  | lengthLimit
  /-- A descent went deeper than any acyclic graph of this size allows. -/
  | endlessDescent
deriving Repr, DecidableEq

/-- The wording of a fault. -/
def Fault.message : Fault → String
  | .zeroIndex           => "Index is 0"
  | .outOfBounds slots i => s!"index out of bounds: the len is {slots} but the index is {i}"
  | .storageBits         => "Storage bits should be in the range 0..=31"
  | .memoBits            => "Bits should be in the range 0..=31"
  | .zeroVariable        => "Variable IDs must be >= 1"
  | .zeroLiteral         => "DIMACS literal must be non-zero"
  | .zeroBranch          => "Variable index should not be zero"
  | .decidedAgain        => "status of a decided entry cannot change"
  | .missingResult       =>
      "internal error: entered unreachable code: every split yields two results"
  | .strayResults        => "ITE must yield exactly one result"
  | .missingWord         => "no entry found for key"
  | .lengthLimit         => "capacity overflow"
  | .endlessDescent      => "endless descent into a cyclic graph"

/-! ## Errors -/

/-- Why a decider gave no answer. -/
inductive DeciderError where
  | interrupted
  | failed (reason : String)
deriving Repr, DecidableEq

def DeciderError.message : DeciderError → String
  | .interrupted   => "solver returned no answer"
  | .failed reason => s!"solver backend error: {reason}"

/-- Why a request was refused. -/
inductive Error where
  /-- No family of oracles goes by this tag. -/
  | unknownFamily (tag : String)
  /-- A node has a number of children that its kind does not have. -/
  | malformedNode (node : NodeId) (kind : Kind) (arity : Nat)
  /-- The library does not hold the node. -/
  | unknownNode (node : NodeId)
  /-- A size for a store or memo table that is out of range. -/
  | invalidBits (bits : Nat)
  | decider (error : DeciderError)
deriving Repr, DecidableEq

def Error.message : Error → String
  | .unknownFamily tag => s!"unexpected/incompatible expression library type `{tag}`"
  | .malformedNode node kind arity =>
      s!"malformed formula node {node.text}: {kind.text} with {arity} children"
  | .unknownNode node => s!"unknown formula node {node.text}"
  | .invalidBits bits => s!"storage bits should be in the range 0..=31, got {bits}"
  | .decider error    => error.message

/-- Why a call came to no value: a fault, which ends the run, or an error, which does
    not. -/
inductive Stop where
  | fault (fault : Fault)
  | error (error : Error)
deriving Repr, DecidableEq

end SatMemo
