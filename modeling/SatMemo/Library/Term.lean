import SatMemo.Node
import SatMemo.Text.Quoted
import SatMemo.Word.Hash

/-! # Terms of the n-ary library

    One connective applied to nodes that are already there. -/

namespace SatMemo

inductive Term where
  | constTrue
  | constFalse
  | var (name : String)
  | not (operand : NodeId)
  | and (operands : List NodeId)
  | or (operands : List NodeId)
deriving Repr, DecidableEq, Inhabited

namespace Term

def kind : Term → Kind
  | .constTrue  => .constTrue
  | .constFalse => .constFalse
  | .var _      => .var
  | .not _      => .not
  | .and _      => .and
  | .or _       => .or

def children : Term → List NodeId
  | .constTrue | .constFalse | .var _ => []
  | .not operand                      => [operand]
  | .and operands | .or operands      => operands

/-- The number that a term's key starts from. -/
def seed : Term → UInt64
  | .constTrue  => 1
  | .constFalse => 2
  | .var _      => 3
  | .not _      => 4
  | .and _      => 5
  | .or _       => 6

instance : Keyed Term where
  key
    | .var name => pair 3 (nameHash name)
    | t         => pairAll t.seed (t.children.map fun c => UInt64.ofNat c.raw)

/-- How a list of operands is shown. -/
def operandsText (operands : List NodeId) : String :=
  "[" ++ ", ".intercalate (operands.map fun c => s!"NodeId({c.raw})") ++ "]"

def text : Term → String
  | .constTrue    => "True"
  | .constFalse   => "False"
  | .var name     => s!"Var({quoted name})"
  | .not operand  => s!"Not(NodeId({operand.raw}))"
  | .and operands => s!"And({operandsText operands})"
  | .or operands  => s!"Or({operandsText operands})"

end Term

end SatMemo
