import SatMemo.Bdd.Decider
import SatMemo.Cnf.Decider
import SatMemo.Library.Aig
import SatMemo.Library.Nary
import SatMemo.Oracle.Decide

/-! # Engines

    The two families of oracles behind one type, chosen by the settings. -/

namespace SatMemo

/-- N-ary formulas, decided by a solver for clauses. -/
abbrev ClausalOracle (S : Cnf.Solver := .learning) := Oracle Nary (Encoder S) Literal

/-- And-inverter graphs, decided by decision diagrams. -/
abbrev DiagramOracle (G : Generator := .xoshiro) := Oracle (Aig G) Bdd Edge

namespace Settings

/-- The settings, once they are known to be valid. -/
def checked (s : Settings) : Except Stop Settings :=
  match s.validate with
  | .ok ()       => .ok s
  | .error error => .error (.error error)

/-- An oracle over n-ary formulas. -/
def clausalOracle (s : Settings) (watched : Bool) (S : Cnf.Solver := .learning) :
    Except Stop (ClausalOracle S) := do
  let s ← s.checked
  let library ← (Nary.ofBits s.storageBits).mapError Stop.fault
  return .start library .start s watched Encoder.startEvents

/-- An oracle over and-inverter graphs. -/
def diagramOracle (s : Settings) (watched : Bool) (G : Generator := .xoshiro) :
    Except Stop (DiagramOracle G) := do
  let s ← s.checked
  let library ← (Aig.ofBits s.storageBits s.seed G).mapError Stop.fault
  let decider ← (Bdd.ofBits s.storageBits s.memoBits).mapError Stop.fault
  return .start library decider s watched []

end Settings

/-- An oracle of either family. -/
inductive Engine (S : Cnf.Solver := .learning) (G : Generator := .xoshiro) where
  | clausal (oracle : ClausalOracle S)
  | diagram (oracle : DiagramOracle G)

namespace Engine

variable {S : Cnf.Solver} {G : Generator}

/-- An engine of the family that the settings name. -/
def ofSettings (s : Settings) (watched : Bool) (S : Cnf.Solver := .learning)
    (G : Generator := .xoshiro) : Except Stop (Engine S G) :=
  match s.family with
  | .clausal => (s.clausalOracle watched S).map .clausal
  | .diagram => (s.diagramOracle watched G).map .diagram

/-- An engine of the family of a tag, with otherwise default settings. -/
def ofTag (tag : String) (watched : Bool) (S : Cnf.Solver := .learning)
    (G : Generator := .xoshiro) : Except Stop (Engine S G) := do
  let family ← (Family.ofTag tag).mapError Stop.error
  ofSettings { family } watched S G

def family : Engine S G → Family
  | .clausal _ => .clausal
  | .diagram _ => .diagram

/-- A reading of the oracle inside. -/
def read {α : Type} (e : Engine S G)
    (f : {ε σ τ : Type} → [Library ε] → [Decider σ τ] → Oracle ε σ τ → α) : α :=
  match e with
  | .clausal o => f o
  | .diagram o => f o

/-- Let the oracle inside make a formula. -/
def make (e : Engine S G)
    (f : {ε σ τ : Type} → [Library ε] → [Decider σ τ] → Oracle ε σ τ → NodeId × Oracle ε σ τ) :
    NodeId × Engine S G :=
  match e with
  | .clausal o =>
      match f o with
      | (n, o) => (n, .clausal o)
  | .diagram o =>
      match f o with
      | (n, o) => (n, .diagram o)

/-- A call on the oracle inside. -/
def call {α : Type}
    (f : {ε σ τ : Type} → [Library ε] → [Decider σ τ] → OracleM ε σ τ α) :
    EStateM Stop (Engine S G) α
  | .clausal o =>
      match f o with
      | .ok a o      => .ok a (.clausal o)
      | .error stop o => .error stop (.clausal o)
  | .diagram o =>
      match f o with
      | .ok a o      => .ok a (.diagram o)
      | .error stop o => .error stop (.diagram o)

def stats (e : Engine S G) : Stats :=
  e.read fun o => o.stats

def entryCount (e : Engine S G) : Nat :=
  e.read fun o => o.entries.size

/-- Is a formula satisfiable? -/
def isSatisfiable (n : NodeId) : EStateM Stop (Engine S G) Bool :=
  call (Oracle.isSatisfiable n)

end Engine

end SatMemo
