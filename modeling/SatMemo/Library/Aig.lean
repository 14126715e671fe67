import SatMemo.Library.Basic
import SatMemo.Store.Arena
import SatMemo.Word.Generator
import SatMemo.Worklist
import Std.Data.TreeMap
import Std.Data.TreeSet

/-! # And-inverter graphs

    Every formula is a signal into a graph of two-input conjunctions over named
    inputs; negation is the complement bit, and disjunction goes through De
    Morgan's law.  The inputs of a gate are ordered and gates are stored once
    each, after the rules

    ```text
    x & 0 = 0    x & 1 = x    x & x = x    x & !x = 0
    ```

    have been tried.  A gate is numbered after its inputs.  A signal is its own
    structure: the graph shares whatever it can see to be equal.

    Signals are printed from a list of pieces, so that the depth of the graph
    costs no depth of recursion.

    The bounded check is simulation on random patterns: the cone of a signal is
    evaluated on 64 assignments at a time, one in each bit of a word.  A pattern
    that makes the signal true proves it satisfiable; finding none proves
    nothing.  There is one word for each input of the cone in each round, in the
    order of the inputs' indices. -/

namespace SatMemo

namespace Aig

/-- A node other than the constant. -/
inductive Node where
  | input (name : String)
  | and (left right : Signal)
deriving Repr, DecidableEq, Inhabited

instance : Keyed Node where
  key
    | .input name     => pair 1 (nameHash name)
    | .and left right => pair3 2 (UInt64.ofNat left.raw) (UInt64.ofNat right.raw)

end Aig

/-- A graph, with the state of the generator that its simulation draws on. -/
structure Aig (G : Generator := .xoshiro) where
  nodes      : Arena Aig.Node
  inputCount : Nat
  source     : G.State

namespace Aig

variable {G : Generator}

/-- An empty graph over `2 ^ bits` buckets, if there may be so many. -/
def ofBits (bits : Nat) (seed : UInt64) (G : Generator := .xoshiro) : Except Fault (Aig G) :=
  (Arena.ofBits bits).map fun nodes => ⟨nodes, 0, G.ofSeed seed⟩

def gateCount (a : Aig G) : Nat :=
  a.nodes.size - a.inputCount

def contains (a : Aig G) (n : NodeId) : Bool :=
  let i := (Signal.ofNode n).index
  i == 0 || a.nodes.contains i

/-- The node of an index, `none` for the constant. -/
def node (a : Aig G) (i : Nat) : Except Fault (Option Node) :=
  if i = 0 then .ok none else (a.nodes.value i).map some

/-! ## Making nodes -/

/-- A signal, the graph that has it, and what was reported on the way. -/
structure Made (G : Generator := .xoshiro) where
  signal : Signal
  graph  : Aig G
  events : List Event

/-- The input of the given name. -/
def input (a : Aig G) (name : String) : Made G :=
  match a with
  | ⟨nodes, inputCount, source⟩ =>
      match nodes.insert (.input name) with
      | ⟨i, fresh, nodes⟩ =>
          if fresh then
            ⟨.ofIndex i, ⟨nodes, inputCount + 1, source⟩, [.inputStored i name]⟩
          else
            ⟨.ofIndex i, ⟨nodes, inputCount, source⟩, []⟩

/-- The gate over two signals in the given order. -/
def gate (a : Aig G) (left right : Signal) : Made G :=
  match a with
  | ⟨nodes, inputCount, source⟩ =>
      match nodes.insert (.and left right) with
      | ⟨i, fresh, nodes⟩ =>
          ⟨.ofIndex i, ⟨nodes, inputCount, source⟩,
            if fresh then [.gateStored i left right] else []⟩

/-- The conjunction of two signals where no gate is needed for it. -/
def trivialAnd? (l r : Signal) : Option Signal :=
  if l = .zero ∨ r = .zero then some .zero
  else if l = .one then some r
  else if r = .one then some l
  else if l = r then some l
  else if l = r.negate then some .zero
  else none

/-- Conjunction of two signals. -/
def and (a : Aig G) (l r : Signal) : Made G :=
  match trivialAnd? l r with
  | some s => ⟨s, a, []⟩
  | none   => if l.raw < r.raw then a.gate l r else a.gate r l

/-- Disjunction of two signals. -/
def or (a : Aig G) (l r : Signal) : Made G :=
  match a.and l.negate r.negate with
  | ⟨s, a, events⟩ => ⟨s.negate, a, events⟩

/-- Conjunction of `acc` with a list, from left to right. -/
def conjoin (a : Aig G) (acc : Signal) : List Signal → Made G
  | []      => ⟨acc, a, []⟩
  | s :: ss =>
      match a.and acc s with
      | ⟨acc, a, events⟩ =>
          match conjoin a acc ss with
          | ⟨r, a, later⟩ => ⟨r, a, events ++ later⟩

/-- Disjunction of `acc` with a list, from left to right. -/
def disjoin (a : Aig G) (acc : Signal) : List Signal → Made G
  | []      => ⟨acc, a, []⟩
  | s :: ss =>
      match a.or acc s with
      | ⟨acc, a, events⟩ =>
          match disjoin a acc ss with
          | ⟨r, a, later⟩ => ⟨r, a, events ++ later⟩

/-- The node of a signal just made. -/
def Made.grown (m : Made G) : Grown (Aig G) :=
  ⟨m.signal.toNode, m.graph, m.events⟩

/-! ## Reading nodes -/

/-- The kind of a signal.  A disjunction shows as the negation of a conjunction. -/
def kind (a : Aig G) (n : NodeId) : Except Fault Kind :=
  let s := Signal.ofNode n
  if s = .zero then
    .ok .constFalse
  else if s = .one then
    .ok .constTrue
  else if s.isNegated then
    .ok .not
  else
    (a.nodes.value s.index).map fun
      | .input _ => .var
      | .and _ _ => .and

def children (a : Aig G) (n : NodeId) : Except Fault (List NodeId) :=
  let s := Signal.ofNode n
  if s.isConst then
    .ok []
  else if s.isNegated then
    .ok [s.regular.toNode]
  else
    (a.nodes.value s.index).map fun
      | .input _        => []
      | .and left right => [left.toNode, right.toNode]

end Aig

/-! ## Printing signals -/

namespace Aig

/-- What is left to print: a text, or a signal that is at most `depth` gates deep. -/
inductive Piece where
  | text (s : String)
  | signal (depth : Nat) (s : Signal)
deriving Repr, DecidableEq

/-- A bound on the pieces that a piece can still give rise to. -/
def Piece.weight : Piece → Nat
  | .text _         => 1
  | .signal depth _ => leafCount 4 (depth + 1)

theorem Piece.weight_pos (p : Piece) : 0 < p.weight := by
  cases p with
  | text s => exact Nat.one_pos
  | signal depth s => exact leafCount_pos (by decide) _

/-- Two signals inside a gate, with the texts around them, are less than the gate. -/
theorem Piece.weight_gate (depth : Nat) (left right s : Signal) :
    (Piece.signal depth left).weight + (Piece.signal depth right).weight + 2
      < (Piece.signal (depth + 1) s).weight := by
  have h := Piece.weight_pos (.signal depth s)
  simp only [Piece.weight, leafCount_succ] at h ⊢
  omega

/-- The mark in front of a complemented signal. -/
def mark (s : Signal) : String :=
  if s.isNegated then "!" else ""

/-- Print the pieces in order behind what was printed already. -/
def write (a : Aig G) (pieces : List Piece) (out : String) : Except Fault String :=
  match pieces with
  | []                            => .ok out
  | .text s :: rest               => write a rest (out ++ s)
  | .signal 0 _ :: _              => .error .endlessDescent
  | .signal (depth + 1) s :: rest =>
      if s.isConst then
        write a rest (out ++ if s.isNegated then "true" else "false")
      else
        match a.nodes.value s.index with
        | .error fault             => .error fault
        | .ok (.input name)        => write a rest (out ++ mark s ++ name)
        | .ok (.and left right)    =>
            write a
              (.signal depth left :: .text " & " :: .signal depth right :: .text ")" :: rest)
              (out ++ mark s ++ "(")
termination_by totalWeight Piece.weight pieces
decreasing_by
  · simp [Piece.weight]
  · simpa using Piece.weight_pos (.signal (depth + 1) s)
  · simpa using Piece.weight_pos (.signal (depth + 1) s)
  · have := Piece.weight_gate depth left right s
    simp only [totalWeight_cons, Piece.weight, Nat.succ_eq_add_one] at this ⊢
    omega

/-- A signal as text: names as they are, `!` in front of what is complemented, and gates
    as conjunctions in parentheses. -/
def print (a : Aig G) (n : NodeId) : Except Fault String :=
  a.write [.signal (a.nodes.size + 1) (.ofNode n)] ""

end Aig

/-! ## Simulation on random patterns -/

namespace Aig

/-! ## The cone -/

/-- Collect the nodes below the indices in `pending`, the constant apart, visiting at most
    `budget` of them. -/
def collect (a : Aig G) : (budget : Nat) → (seen : Std.TreeSet Nat) → (pending : List Nat) →
    Except Fault (Std.TreeSet Nat)
  | budget, seen, pending =>
      match pending.dropWhile fun i => i == 0 || seen.contains i with
      | []        => .ok seen
      | i :: rest =>
          match a.nodes.value i, budget with
          | .error fault, _                    => .error fault
          | .ok _, 0                           => .error .endlessDescent
          | .ok (.input _), budget + 1         => collect a budget (seen.insert i) rest
          | .ok (.and left right), budget + 1  =>
              collect a budget (seen.insert i) (right.index :: left.index :: rest)

/-- The nodes in the cone of a signal with their indices, in increasing order, in which
    every gate comes after its inputs. -/
def cone (a : Aig G) (root : Signal) : Except Fault (List (Nat × Node)) := do
  let seen ← a.collect a.nodes.size ∅ [root.index]
  seen.toList.mapM fun i => (a.nodes.value i).map fun n => (i, n)

/-! ## Evaluating words -/

/-- Words by node index. -/
abbrev Words := Std.TreeMap Nat UInt64

/-- The word of a signal; the constant's is all zeros. -/
def wordOf (words : Words) (s : Signal) : Except Fault UInt64 := do
  let w ← if s.isConst then .ok 0 else
    match words[s.index]? with
    | some w => .ok w
    | none   => .error .missingWord
  return if s.isNegated then ~~~w else w

section Draws

variable {ρ : Type} (draw : ρ → UInt64 × ρ)

/-- One round: a drawn word for each input of the cone, a computed one for each gate. -/
def runRound (words : Words) (g : ρ) : List (Nat × Node) → Except Fault Words × ρ
  | []                           => (.ok words, g)
  | (i, .input _) :: rest        =>
      let (w, g) := draw g
      runRound (words.insert i w) g rest
  | (i, .and left right) :: rest =>
      match wordOf words left, wordOf words right with
      | .ok l, .ok r     => runRound (words.insert i (l &&& r)) g rest
      | .error fault, _  => (.error fault, g)
      | _, .error fault  => (.error fault, g)

/-- Run rounds until one makes `root` true somewhere, `left` of them at most, the next one
    being round number `round`. -/
def runRounds (cone : List (Nat × Node)) (root : Signal) :
    (left : Nat) → (round : Nat) → Words → ρ → Reply ρ Status
  | 0, _, _, g                => .ok .unknown g
  | left + 1, round, words, g =>
      match runRound draw words g cone with
      | (.error fault, g) => .fail fault g
      | (.ok words, g)    =>
          match wordOf words root with
          | .error fault => .fail fault g
          | .ok w        =>
              if w = 0 then runRounds cone root left (round + 1) words g
              else ⟨.ok .sat, g, [.witnessed root round]⟩

/-- Evaluate `root` on `rounds` words of patterns.  `sat` as soon as a pattern makes it
    true, `unsat` only for the constant, `unknown` otherwise. -/
def simulateWith (a : Aig G) (root : Signal) (rounds : Nat) (g : ρ) : Reply ρ Status :=
  if root = .zero then
    .ok .unsat g
  else if root = .one then
    .ok .sat g
  else
    match a.cone root with
    | .error fault => .fail fault g
    | .ok cone     => runRounds draw cone root rounds 0 ∅ g

end Draws

/-- Simulation on the graph's own random words. -/
def simulate (a : Aig G) (root : Signal) (rounds : Nat) : Reply (Aig G) Status :=
  (a.simulateWith G.next root rounds a.source).within fun source =>
    { a with source }

end Aig

/-! ## The library -/

namespace Aig

/-- The name of an input; of anything else, its text. -/
def label (a : Aig G) (n : NodeId) : Except Fault String := do
  let s := Signal.ofNode n
  match ← a.node s.index with
  | some (.input name) => if s.isNegated then a.print n else return name
  | _                  => a.print n

instance : Library (Aig G) where
  name := "fraig"
  bound a := 2 * (a.nodes.size + 1)
  contains := contains
  kind := kind
  children := children
  label := label
  structEq _ m n := .ok (m = n)
  structKey _ n := .ok (UInt64.ofNat n.raw)
  print := print
  makeTrue a := ⟨Signal.one.toNode, a, []⟩
  makeFalse a := ⟨Signal.zero.toNode, a, []⟩
  makeVariable a name := (a.input name).grown
  makeNot a n := ⟨(Signal.ofNode n).negate.toNode, a, []⟩
  makeAnd a ns := (a.conjoin .one (ns.map Signal.ofNode)).grown
  makeOr a ns := (a.disjoin .zero (ns.map Signal.ofNode)).grown
  checkBounded a n budget := a.simulate (.ofNode n) budget

end Aig

end SatMemo
