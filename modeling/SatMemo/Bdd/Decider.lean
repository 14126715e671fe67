import SatMemo.Bdd.Ite
import SatMemo.Decider.Failing
import Std.Data.TreeSet

/-! # Decision diagrams as a decider

    Conjunction and disjunction as instances of if-then-else, named variables,
    and the number of nodes below an edge.  Functions have one edge each, so a
    query compares an edge with the constant false one. -/

namespace SatMemo

namespace Bdd

/-! ## Connectives -/

def and (m : Bdd) (a b : Edge) : Reply Bdd Edge :=
  m.ite a b .zero

def or (m : Bdd) (a b : Edge) : Reply Bdd Edge :=
  m.ite a .one b

/-- Conjunction of `acc` with a list from left to right, until it is false. -/
def conjoin (m : Bdd) (acc : Edge) : List Edge → Reply Bdd Edge
  | []      => .ok acc m
  | e :: es =>
      (m.and acc e).andThen fun r m =>
        if r = .zero then .ok r m else conjoin m r es

/-- Disjunction of `acc` with a list from left to right, until it is true. -/
def disjoin (m : Bdd) (acc : Edge) : List Edge → Reply Bdd Edge
  | []      => .ok acc m
  | e :: es =>
      (m.or acc e).andThen fun r m =>
        if r = .one then .ok r m else disjoin m r es

def conjunction (m : Bdd) (es : List Edge) : Reply Bdd Edge :=
  m.conjoin .one es

def disjunction (m : Bdd) (es : List Edge) : Reply Bdd Edge :=
  m.disjoin .zero es

/-! ## Variables -/

/-- A new variable, numbered after those made before it. -/
def newVariable (m : Bdd) (name : String) : Reply Bdd Edge :=
  match m with
  | ⟨nodes, memo, varCount, names⟩ =>
      let v := varCount + 1
      Bdd.projection ⟨nodes, memo, v, names.insert v name⟩ v

/-- A function is satisfiable unless it is the constant false one. -/
def isSatisfiable (e : Edge) : Bool :=
  e ≠ .zero

/-! ## Size -/

/-- Collect the nodes below the indices in `pending`, the terminal apart, visiting at most
    `budget` of them. -/
def collect (m : Bdd) : (budget : Nat) → (seen : Std.TreeSet Nat) → (pending : List Nat) →
    Except Fault (Std.TreeSet Nat)
  | budget, seen, pending =>
      match pending.dropWhile fun i => i == 1 || seen.contains i with
      | []        => .ok seen
      | i :: rest =>
          match m.nodes.value i, budget with
          | .error fault, _        => .error fault
          | .ok _, 0               => .error .endlessDescent
          | .ok d, budget + 1      =>
              collect m budget (seen.insert i) (d.high.index :: d.low.index :: rest)

/-- Number of distinct nodes below an edge, the terminal not counted. -/
def size (m : Bdd) (e : Edge) : Except Fault Nat :=
  (m.collect m.nodeCount ∅ [e.index]).map Std.TreeSet.size

instance : Decider Bdd Edge where
  name := "bdd"
  makeTrue m := .ok .one m
  makeFalse m := .ok .zero m
  makeVariable := newVariable
  makeNot m e := .ok (-e) m
  makeAnd := conjunction
  makeOr := disjunction
  query m e := .ok (.ok (isSatisfiable e)) m

end Bdd

end SatMemo
