import Std.Data.TreeMap
import SatMemo.Bdd.Edge
import SatMemo.Event
import SatMemo.Store.Arena
import SatMemo.Store.Memo

/-! # Decision diagrams with complement edges

    All functions live in one diagram.  Its nodes are stored once each and never
    with a marked high edge, so that a function and its negation share their
    nodes.  Node 1 is the only terminal.  Variables are ordered by number, the
    greatest at the top, which puts a new variable on top of what is there. -/

namespace SatMemo

/-- A decision on a variable: the functions for false and for true.  The terminal is the
    one node with variable 0. -/
structure Decision where
  var  : Nat
  low  : Edge
  high : Edge
deriving Repr, DecidableEq, Inhabited

instance : Keyed Decision where
  key d := pair3 (UInt64.ofNat d.var) d.low.word d.high.word

/-- The three operands of if-then-else. -/
structure Triple where
  f : Edge
  g : Edge
  h : Edge
deriving Repr, DecidableEq, Inhabited

instance : Keyed Triple where
  key t := pair3 t.f.word t.g.word t.h.word

/-- A shared decision diagram: its nodes, the memo table of if-then-else, and the names
    of the variables made so far. -/
structure Bdd where
  nodes    : Arena Decision
  memo     : Memo Triple Edge
  varCount : Nat
  names    : Std.TreeMap Nat String

namespace Bdd

/-! ## Construction -/

/-- The node behind `Edge.one`. -/
def terminal : Decision where
  var  := 0
  low  := Edge.one
  high := Edge.one

/-- A diagram with nothing but its terminal, over stores of the given sizes. -/
def ofBits (storageBits memoBits : Nat) : Except Fault Bdd := do
  let nodes ← Arena.ofBits storageBits
  let memo ← Memo.ofBits memoBits
  return { nodes := (nodes.insert terminal).arena, memo, varCount := 0, names := ∅ }

/-- Number of nodes, the terminal included. -/
def nodeCount (m : Bdd) : Nat :=
  m.nodes.size

/-- The name a variable was made with. -/
def nameOf? (m : Bdd) (v : Nat) : Option String :=
  m.names[v]?

/-! ## Reading -/

/-- The decision behind an edge, whatever the edge's mark. -/
def decision (m : Bdd) (e : Edge) : Except Fault Decision :=
  m.nodes.value e.index

/-- The variable an edge branches on, 0 at the terminal. -/
def variableOf (m : Bdd) (e : Edge) : Except Fault Nat :=
  (m.decision e).map Decision.var

/-- The function of `e` where its variable is false. -/
def low (m : Bdd) (e : Edge) : Except Fault Edge :=
  (m.decision e).map fun d => d.low.negateIf e.isNegated

/-- The function of `e` where its variable is true. -/
def high (m : Bdd) (e : Edge) : Except Fault Edge :=
  (m.decision e).map fun d => d.high.negateIf e.isNegated

/-! ## Making nodes -/

/-- The edge to a decision, which is stored now if it was not before. -/
def store (m : Bdd) (d : Decision) : Edge × Bdd :=
  match m with
  | ⟨nodes, memo, varCount, names⟩ =>
      match nodes.insert d with
      | ⟨i, _, nodes⟩ => (Edge.ofIndex i, ⟨nodes, memo, varCount, names⟩)

/-- The function that is `high` where `v` is true and `low` where it is false.  A decision
    that makes no difference is left out, and a mark on the high edge is moved to the
    edge that leads here. -/
def branch (m : Bdd) (v : Nat) (low high : Edge) : Reply Bdd Edge :=
  if v = 0 then
    .fail .zeroBranch m
  else if low = high then
    .ok low m
  else if high.isNegated then
    match m.store ⟨v, -low, -high⟩ with
    | (e, m) => .ok (-e) m
  else
    match m.store ⟨v, low, high⟩ with
    | (e, m) => .ok e m

/-- The function that is true where `v` is. -/
def projection (m : Bdd) (v : Nat) : Reply Bdd Edge :=
  m.branch v .zero .one

end Bdd

end SatMemo
