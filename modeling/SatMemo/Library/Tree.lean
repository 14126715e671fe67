import SatMemo.Library.Basic

/-! # Unshared formula trees

    A library that stores nodes as it gets them and shares nothing: every request
    makes a new node.  Its nodes may also be given outright, with any kind, any
    children, a key of their own and the answer of a bounded check, and nothing
    looks whether they make sense. -/

namespace SatMemo

namespace Tree

structure Node where
  kind     : Kind
  label    : String
  children : List NodeId
  /-- The key to report instead of the computed one. -/
  key?     : Option UInt64
  /-- The answer of a bounded check with a budget. -/
  bounded  : Status
deriving Repr, DecidableEq, Inhabited

end Tree

/-- Nodes numbered from 0. -/
structure Tree where
  nodes : Array Tree.Node

namespace Tree

def size (t : Tree) : Nat :=
  t.nodes.size

def node (t : Tree) (n : NodeId) : Except Fault Node :=
  match t.nodes[n.raw]? with
  | some x => .ok x
  | none   => .error (.outOfBounds t.nodes.size n.raw)

/-- One more node. -/
def add (t : Tree) (kind : Kind) (label : String) (children : List NodeId) : Grown Tree :=
  ⟨⟨t.nodes.size⟩, ⟨t.nodes.push ⟨kind, label, children, none, .unknown⟩⟩, []⟩

/-- Is the structure of two nodes the same, where neither is more than `depth` levels
    deep? -/
def sameAt (t : Tree) : (depth : Nat) → NodeId → NodeId → Except Fault Bool
  | 0, _, _         => .error .endlessDescent
  | depth + 1, a, b => do
      let x ← t.node a
      let y ← t.node b
      if x.kind = y.kind ∧ x.label = y.label ∧ x.children.length = y.children.length then
        (x.children.zip y.children).allM fun (c, d) => sameAt t depth c d
      else
        return false

/-- The key of a node that is at most `depth` levels deep. -/
def keyAt (t : Tree) : (depth : Nat) → NodeId → Except Fault UInt64
  | 0, _         => .error .endlessDescent
  | depth + 1, n => do
      let x ← t.node n
      match x.key? with
      | some key => return key
      | none     =>
          let keys ← x.children.mapM (keyAt t depth)
          return pairAll (pair x.kind.number (nameHash x.label)) keys

/-- The text of a node that is at most `depth` levels deep: its label, and the texts of its
    children in parentheses. -/
def printAt (t : Tree) : (depth : Nat) → NodeId → Except Fault String
  | 0, _         => .error .endlessDescent
  | depth + 1, n => do
      let x ← t.node n
      if x.children.isEmpty then
        return x.label
      else
        let texts ← x.children.mapM (printAt t depth)
        return x.label ++ "(" ++ ", ".intercalate texts ++ ")"

/-- No path of an acyclic graph has more nodes than the graph; one step more shows a
    missing node at its end. -/
def maxDepth (t : Tree) : Nat :=
  t.size + 1

instance : Library Tree where
  name := "tree"
  bound := size
  contains t n := n.raw < t.size
  kind t n := (t.node n).map Node.kind
  children t n := (t.node n).map Node.children
  label t n := (t.node n).map Node.label
  structEq t := t.sameAt t.maxDepth
  structKey t := t.keyAt t.maxDepth
  print t := t.printAt t.maxDepth
  makeTrue t := t.add .constTrue "true" []
  makeFalse t := t.add .constFalse "false" []
  makeVariable t name := t.add .var name []
  makeNot t n := t.add .not "not" [n]
  makeAnd t ns := if ns.isEmpty then t.add .constTrue "true" [] else t.add .and "and" ns
  makeOr t ns := if ns.isEmpty then t.add .constFalse "false" [] else t.add .or "or" ns
  checkBounded t n budget :=
    if budget = 0 then .ok .unknown t else .ofExcept ((t.node n).map Node.bounded) t

end Tree

end SatMemo
