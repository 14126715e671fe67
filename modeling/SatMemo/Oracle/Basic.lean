import SatMemo.Decider.Failing
import SatMemo.Error
import SatMemo.Library.Basic
import SatMemo.Node
import SatMemo.Oracle.ClassMap
import SatMemo.Settings

/-! # The oracle

    An oracle joins a library of formulas with a decider and remembers, for every
    formula up to its structure, the decider's object and the verdict: that is
    the formula's entry.  Making formulas touches the library alone. -/

namespace SatMemo

/-! ## Entries -/

/-- Entries are numbered from 0, in the order in which they are made; there are no more of them
    than the library has handles. -/
structure Entry (τ : Type) where
  object : τ
  status : Status
deriving Repr, DecidableEq, Inhabited

namespace Entry

variable {τ : Type}

/-- How an index of an entry is shown. -/
def indexText (i : Nat) : String :=
  s!"e{i}"

/-- The entry once it has its verdict.  A satisfiable entry keeps its object, an
    unsatisfiable one gets the constant false in its place.  An entry takes one verdict
    only. -/
def decided (e : Entry τ) (satisfiable : Bool) (falsity : τ) : Except Fault (Entry τ) :=
  if e.status.isDecided then .error .decidedAgain
  else if satisfiable then .ok ⟨e.object, .sat⟩
  else .ok ⟨falsity, .unsat⟩

end Entry

/-! ## Oracles -/

/-- Counts of what the memory was good for. -/
structure Stats where
  /-- Requests for a formula that had an entry. -/
  hits      : Nat := 0
  /-- Entries made. -/
  misses    : Nat := 0
  /-- Queries that the decider answered. -/
  queries   : Nat := 0
  /-- Bounded checks that were run. -/
  checks    : Nat := 0
  /-- Queries answered by a bounded check. -/
  checkHits : Nat := 0
deriving Repr, DecidableEq, Inhabited

/-- An oracle over a library `ε` and a decider `σ` with objects `τ`. -/
structure Oracle (ε σ τ : Type) where
  library  : ε
  decider  : σ
  /-- Entry of each class that has one, by index. -/
  index    : ClassMap Nat
  entries  : Array (Entry τ)
  /-- Outcomes of the bounded checks that were run. -/
  checked  : ClassMap Status
  /-- Variables made so far. -/
  varCount : Nat
  settings : Settings
  stats    : Stats
  /-- Does somebody read the events about answered queries? -/
  watched  : Bool
  /-- Events not yet collected, in order. -/
  journal  : Array Event

/-- Calls on an oracle that may stop.  The oracle survives a stop as the call left it. -/
abbrev OracleM (ε σ τ : Type) := EStateM Stop (Oracle ε σ τ)

namespace Oracle

variable {ε σ τ : Type} [Library ε] [Decider σ τ]

/-! ## Setting up -/

/-- An oracle with an empty memory.  `setup` is what setting up its parts reported. -/
def start (library : ε) (decider : σ) (settings : Settings) (watched : Bool)
    (setup : List Event) : Oracle ε σ τ where
  library  := library
  decider  := decider
  index    := .empty
  entries  := #[]
  checked  := .empty
  varCount := 0
  settings := settings
  stats    := {}
  watched  := watched
  journal  := (setup ++ [Event.opened (Library.name ε) (Decider.name σ)]).toArray

/-- Take the events out of the journal. -/
def collect (o : Oracle ε σ τ) : List Event × Oracle ε σ τ :=
  (o.journal.toList, { o with journal := #[] })

/-! ## Making formulas -/

/-- Let the library make a node. -/
def grow (make : ε → Grown ε) : Oracle ε σ τ → NodeId × Oracle ε σ τ
  | ⟨library, decider, index, entries, checked, varCount, settings, stats, watched, journal⟩ =>
      match make library with
      | ⟨n, library, events⟩ =>
          (n, ⟨library, decider, index, entries, checked, varCount, settings, stats, watched,
            journal ++ events⟩)

def makeTrue (o : Oracle ε σ τ) : NodeId × Oracle ε σ τ :=
  o.grow Library.makeTrue

def makeFalse (o : Oracle ε σ τ) : NodeId × Oracle ε σ τ :=
  o.grow Library.makeFalse

/-- The name of a variable by its number. -/
def variableName (i : Nat) : String :=
  s!"x{i}"

/-- A new variable, named by how many were made before it. -/
def newVariable (o : Oracle ε σ τ) : NodeId × Oracle ε σ τ :=
  let name := variableName o.varCount
  { o with varCount := o.varCount + 1 }.grow fun lib => Library.makeVariable lib name

def makeNot (n : NodeId) (o : Oracle ε σ τ) : NodeId × Oracle ε σ τ :=
  o.grow fun lib => Library.makeNot lib n

/-- Conjunction of a list; of the empty list, true. -/
def makeAll (ns : List NodeId) (o : Oracle ε σ τ) : NodeId × Oracle ε σ τ :=
  o.grow fun lib => Library.makeAnd lib ns

/-- Disjunction of a list; of the empty list, false. -/
def makeAny (ns : List NodeId) (o : Oracle ε σ τ) : NodeId × Oracle ε σ τ :=
  o.grow fun lib => Library.makeOr lib ns

def makeAnd (m n : NodeId) (o : Oracle ε σ τ) : NodeId × Oracle ε σ τ :=
  o.makeAll [m, n]

def makeOr (m n : NodeId) (o : Oracle ε σ τ) : NodeId × Oracle ε σ τ :=
  o.makeAny [m, n]

/-! ## Steps of a call -/

/-- Add an event to the journal. -/
def report (e : Event) : OracleM ε σ τ Unit :=
  modify fun o => { o with journal := o.journal.push e }

/-- A value that may be a fault instead. -/
def orFault {α : Type} : Except Fault α → OracleM ε σ τ α
  | .ok a        => pure a
  | .error fault => throw (.fault fault)

/-- Ask the library. -/
def ask {α : Type} (question : ε → Except Fault α) : OracleM ε σ τ α := do
  orFault (question (← get).library)

/-- Call the decider, which may change. -/
def callDecider {α : Type} (call : σ → Reply σ α) : OracleM ε σ τ α
  | ⟨library, decider, index, entries, checked, varCount, settings, stats, watched, journal⟩ =>
      match call decider with
      | ⟨result, decider, events⟩ =>
          orFault result ⟨library, decider, index, entries, checked, varCount, settings, stats,
            watched, journal ++ events⟩

/-- Call the library's bounded check, which may change it. -/
def callLibrary {α : Type} (call : ε → Reply ε α) : OracleM ε σ τ α
  | ⟨library, decider, index, entries, checked, varCount, settings, stats, watched, journal⟩ =>
      match call library with
      | ⟨result, library, events⟩ =>
          orFault result ⟨library, decider, index, entries, checked, varCount, settings, stats,
            watched, journal ++ events⟩

/-- Does the library hold a node? -/
def holds (n : NodeId) : OracleM ε σ τ Bool := do
  return Library.contains (← get).library n

/-! ## Looking up -/

/-- The index of the entry of a formula, if it has one. -/
def indexOf? (n : NodeId) : OracleM ε σ τ (Option Nat) := do
  let o ← get
  orFault (o.index.find? o.library n)

/-- The entry of an index. -/
def entryAt (i : Nat) : OracleM ε σ τ (Entry τ) := do
  let o ← get
  match o.entries[i]? with
  | some e => return e
  | none   => throw (.fault (.outOfBounds o.entries.size i))

/-- The entry of a formula, if it was ever built. -/
def entryOf? (n : NodeId) : OracleM ε σ τ (Option (Entry τ)) := do
  match ← indexOf? n with
  | none   => return none
  | some i => return (← get).entries[i]?

/-- What is known of a formula, if it was ever built. -/
def status? (n : NodeId) : OracleM ε σ τ (Option Status) := do
  return (← entryOf? n).map Entry.status

end Oracle

end SatMemo
