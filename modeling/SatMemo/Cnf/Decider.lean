import SatMemo.Cnf.Solver
import SatMemo.Decider.Failing
import SatMemo.Event
import Std.Data.TreeMap
import Std.Data.TreeSet

/-! # Tseitin encoding

    Every conjunction gets a variable of its own, the output of a gate, and
    clauses that tie it to its inputs.  Conjunctions of the same set of literals
    share a gate, disjunctions are negated conjunctions of negations, and
    constants never reach a gate.  Clauses are only ever added, so that a query,
    which assumes one literal, leaves no trace in later ones.

    As a decider, an encoder hands out literals for functions and leaves queries
    to a solver. -/

namespace SatMemo

/-! ## Gates -/

/-- A variable that stands for the conjunction of some literals. -/
structure Gate where
  output : Nat
  inputs : List Literal
deriving Repr, DecidableEq

namespace Gate

/-- The output implies every input, and all the inputs together imply the output. -/
def clauses (g : Gate) : List Clause :=
  g.inputs.map (fun l => [-Literal.pos g.output, l])
    ++ [g.inputs.map (fun l => -l) ++ [Literal.pos g.output]]

def events (g : Gate) : List Event :=
  .gateEncoded (.pos g.output) g.inputs :: g.clauses.map .clauseEmitted

end Gate

/-! ## Sets of inputs -/

namespace Literal

/-- The same literals, strictly sorted by code. -/
def sortedSet (ls : List Literal) : List Literal :=
  (Std.TreeSet.ofList ls).toList

/-- Do two neighbours belong to one variable?  In a strictly sorted list they then are
    each other's complement. -/
def hasComplements : List Literal → Bool
  | k :: l :: rest => l = -k || hasComplements (l :: rest)
  | _              => false

end Literal

/-! ## The encoder -/

/-- What was encoded so far, for the solver `S`.  Clauses and gates are listed with the latest
    first; the clauses are those that the solver has. -/
structure Encoder (S : Cnf.Solver := .learning) where
  varCount : Nat
  clauses  : List Clause
  gates    : List Gate
  /-- The output of the gate for a set of inputs. -/
  outputs  : Std.TreeMap (List Literal) Nat
  /-- Queries that were put to the solver. -/
  queries  : Nat
  names    : Std.TreeMap Nat String

namespace Encoder

/-- The literal that is always true. -/
def truth : Literal := .pos 1

def falsity : Literal := -truth

variable {S : Cnf.Solver}

/-- Only the constant, forced by the first clause. -/
def start : Encoder S where
  varCount := 1
  clauses  := [[truth]]
  gates    := []
  outputs  := ∅
  queries  := 0
  names    := ∅

/-- What setting up an encoder reports. -/
def startEvents : List Event :=
  [.clauseEmitted [truth]]

/-- The name a variable was made with. -/
def nameOf? (e : Encoder S) (l : Literal) : Option String :=
  e.names[l.var]?

/-- A new variable. -/
def newVariable (e : Encoder S) (name : String) : Literal × Encoder S :=
  let v := e.varCount + 1
  (.pos v, { e with varCount := v, names := e.names.insert v name })

/-- What a list of inputs comes down to: a literal that is known already, or the set of
    inputs of a gate. -/
inductive Folded where
  | known (l : Literal)
  | gate (inputs : List Literal)
deriving Repr, DecidableEq

/-- Drop constants and repetitions and recognise contradictions. -/
def fold (inputs : List Literal) : Folded :=
  if falsity ∈ inputs then
    .known falsity
  else
    let key := Literal.sortedSet (inputs.filter fun l => l ≠ truth)
    if Literal.hasComplements key then
      .known falsity
    else
      match key with
      | []  => .known truth
      | [l] => .known l
      | key => .gate key

/-- The gate with the given inputs, if there is one. -/
def gate? (e : Encoder S) (inputs : List Literal) : Option Gate :=
  e.outputs[inputs]?.map fun output => ⟨output, inputs⟩

/-- Add a gate for a set of inputs that has none. -/
def addGate (e : Encoder S) (inputs : List Literal) : Gate × Encoder S :=
  let g : Gate := ⟨e.varCount + 1, inputs⟩
  (g, { e with
    varCount := g.output
    clauses  := g.clauses.reverse ++ e.clauses
    gates    := g :: e.gates
    outputs  := e.outputs.insert inputs g.output })

/-- A literal, the encoder that knows it, and what was reported on the way. -/
structure Encoded (S : Cnf.Solver) where
  literal : Literal
  encoder : Encoder S
  events  : List Event

/-- Conjunction of any number of literals. -/
def conjunction (e : Encoder S) (inputs : List Literal) : Encoded S :=
  match fold inputs with
  | .known l  => ⟨l, e, []⟩
  | .gate key =>
      match e.gate? key with
      | some g => ⟨.pos g.output, e, []⟩
      | none   =>
          let (g, e) := e.addGate key
          ⟨.pos g.output, e, g.events⟩

/-- Disjunction of any number of literals. -/
def disjunction (e : Encoder S) (inputs : List Literal) : Encoded S :=
  match e.conjunction (inputs.map fun l => -l) with
  | ⟨l, e, events⟩ => ⟨-l, e, events⟩

/-! ## Queries -/

/-- Can `l` be true?  The constants need no search and are not counted.  Everything else is left
    to the solver, which has the clauses and assumes `l`. -/
def isSatisfiable (e : Encoder S) (l : Literal) : Except DeciderError Bool × Encoder S :=
  if l = truth then
    (.ok true, e)
  else if l = falsity then
    (.ok false, e)
  else
    let answer := match S.solve e.queries e.clauses l with
      | some b => .ok b
      | none   => .error .interrupted
    (answer, { e with queries := e.queries + 1 })

/-! ## Encoders as deciders -/

/-- A literal together with what its encoding reported. -/
def Encoded.reply (r : Encoded S) : Reply (Encoder S) Literal :=
  ⟨.ok r.literal, r.encoder, r.events⟩

instance : Decider (Encoder S) Literal where
  name := "cadical"
  makeTrue e := .ok truth e
  makeFalse e := .ok falsity e
  makeVariable e name :=
    let (l, e) := e.newVariable name
    .ok l e
  makeNot e l := .ok (-l) e
  makeAnd e ls := (e.conjunction ls).reply
  makeOr e ls := (e.disjunction ls).reply
  query e l :=
    let (answer, e) := e.isSatisfiable l
    .ok answer e

end Encoder

end SatMemo
