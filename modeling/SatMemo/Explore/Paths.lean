import SatMemo.Oracle.Engine

/-! # Feasible paths

    A program with a list of nested branches has a path for every way to take
    or skip them.  The paths are walked depth first; a path whose condition
    cannot be true is cut off where that shows.

    The conditions of a random program are disjunctions of random literals over
    the program's inputs.  For every literal an input is drawn and a coin thrown
    for its sign. -/

namespace SatMemo

/-! ## Random branch conditions -/

namespace Engine

variable {S : Cnf.Solver} {G : Generator}

/-- Append so many new variables to `inputs`. -/
def makeInputs (e : Engine S G) (inputs : Array NodeId) : (count : Nat) → Array NodeId × Engine S G
  | 0         => (inputs, e)
  | count + 1 =>
      let (n, e) := e.make Oracle.newVariable
      makeInputs e (inputs.push n) count

/-- An input or its negation. -/
def randomLiteral (e : Engine S G) (inputs : Array NodeId) (g : G.State) :
    NodeId × Engine S G × G.State :=
  let (i, g) := G.below inputs.size g
  let (negated, g) := G.coin g
  let n := inputs.getD i default
  if negated then
    let (n, e) := e.make (Oracle.makeNot n)
    (n, e, g)
  else
    (n, e, g)

/-- Append so many random literals to `literals`. -/
def randomLiterals (e : Engine S G) (inputs : Array NodeId) (g : G.State) (literals : Array NodeId) :
    (width : Nat) → Array NodeId × Engine S G × G.State
  | 0         => (literals, e, g)
  | width + 1 =>
      let (n, e, g) := e.randomLiteral inputs g
      randomLiterals e inputs g (literals.push n) width

/-- Append so many disjunctions of `width` random literals each to `conditions`. -/
def randomConditions (e : Engine S G) (inputs : Array NodeId) (width : Nat) (g : G.State)
    (conditions : Array NodeId) : (depth : Nat) → Array NodeId × Engine S G
  | 0         => (conditions, e)
  | depth + 1 =>
      let (literals, e, g) := e.randomLiterals inputs g #[] width
      let (n, e) := e.make (Oracle.makeAny literals.toList)
      randomConditions e inputs width g (conditions.push n) depth

end Engine

/-! ## Walking the paths -/

/-- An engine, and the paths counted so far. -/
structure Exploration (S : Cnf.Solver := .learning) (G : Generator := .xoshiro) where
  engine   : Engine S G
  /-- Paths that reach the end. -/
  feasible : Nat := 0
  /-- Paths that were cut off. -/
  pruned   : Nat := 0

namespace Exploration

variable {S : Cnf.Solver} {G : Generator}

/-- Let the engine make a formula. -/
def make
    (f : {ε σ τ : Type} → [Library ε] → [Decider σ τ] → Oracle ε σ τ → NodeId × Oracle ε σ τ) :
    EStateM Stop (Exploration S G) NodeId :=
  modifyGet fun x =>
    let (n, engine) := x.engine.make f
    (n, { x with engine })

/-- Is a path condition satisfiable? -/
def isFeasible (pc : NodeId) : EStateM Stop (Exploration S G) Bool := fun x =>
  match Engine.isSatisfiable pc x.engine with
  | .ok answer engine  => .ok answer { x with engine }
  | .error stop engine => .error stop { x with engine }

/-- Count the paths through the branches on `conditions` that start with the condition
    `pc`. -/
def explore : (conditions : List NodeId) → (pc : NodeId) → EStateM Stop (Exploration S G) Unit
  | [], pc => do
      if ← isFeasible pc then
        modify fun x => { x with feasible := x.feasible + 1 }
      else
        modify fun x => { x with pruned := x.pruned + 1 }
  | c :: conditions, pc => do
      if ← isFeasible pc then
        let taken ← make (Oracle.makeAnd pc c)
        explore conditions taken
        let opposite ← make (Oracle.makeNot c)
        let skipped ← make (Oracle.makeAnd pc opposite)
        explore conditions skipped
      else
        modify fun x => { x with pruned := x.pruned + 1 }

/-! ## A random program -/

/-- The size of a random program. -/
structure Program where
  /-- Number of inputs. -/
  inputs : Nat
  /-- Number of nested branches. -/
  depth  : Nat
  /-- Literals in each condition. -/
  width  : Nat
  seed   : UInt64
deriving Repr, DecidableEq

/-- Lists are shorter than this. -/
def lengthLimit : Nat := 0x2000000000000000

/-- Why there is no exploration. -/
inductive Problem where
  | stop (stop : Stop)
  /-- Conditions of this width need an input. -/
  | noInputs (width : Nat)
deriving Repr, DecidableEq

/-- The wording of a problem. -/
def Problem.message : Problem → String
  | .stop (.fault fault) => fault.message
  | .stop (.error error) => error.message
  | .noInputs width      =>
      s!"branch conditions of width {width} need at least one input variable"

/-- Refuse a program that cannot be made.  Its inputs are listed first, then its
    conditions, then the literals of each of them. -/
def Program.check (p : Program) : Except Problem Unit :=
  if lengthLimit ≤ p.inputs then
    .error (.stop (.fault .lengthLimit))
  else if p.width ≠ 0 ∧ p.inputs = 0 then
    .error (.noInputs p.width)
  else if lengthLimit ≤ p.depth ∨ p.depth ≠ 0 ∧ lengthLimit ≤ p.width then
    .error (.stop (.fault .lengthLimit))
  else
    .ok ()

/-- Explore a random program with an engine of the given settings. -/
def ofSettings (s : Settings) (p : Program) (S : Cnf.Solver := .learning)
    (G : Generator := .xoshiro) : Except Problem (Exploration S G) := do
  let engine ← (Engine.ofSettings s false S G).mapError Problem.stop
  p.check
  let (inputs, engine) := engine.makeInputs #[] p.inputs
  let (conditions, engine) :=
    engine.randomConditions inputs p.width (G.ofSeed p.seed) #[] p.depth
  let (root, engine) := engine.make Oracle.makeTrue
  match explore conditions.toList root { engine } with
  | .ok () x      => return x
  | .error stop _ => throw (.stop stop)

end Exploration

end SatMemo
