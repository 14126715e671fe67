import SatMemo.Bdd.Edge
import SatMemo.Cnf.Basic
import SatMemo.Error
import SatMemo.Library.Signal
import SatMemo.Library.Term
import SatMemo.Node

/-! # Events and replies

    What the parts of the program report about their work.  Every event has a
    level, the part it comes from and a text; a filter selects the events that
    somebody wants to read.  No answer depends on an event.

    A reply is what a call on a stateful part came to: a value or a fault, the
    part as the call left it, and the events reported on the way.  A fault keeps
    the events reported before it. -/

namespace SatMemo

inductive Event where
  /-- An oracle was set up over a library and a decider. -/
  | opened (library decider : String)
  /-- A formula already had an entry. -/
  | reused (node : NodeId) (entry : Nat)
  /-- A node was lowered into a new entry. -/
  | lowered (node : NodeId) (entry : Nat) (kind : Kind) (status : Status)
  /-- The bounded check of a node was run. -/
  | checked (node : NodeId) (status : Status)
  /-- The decider was asked about a formula. -/
  | asked (formula : String) (answer : Bool)
  /-- The n-ary library stored a term. -/
  | termStored (index : Nat) (term : Term)
  /-- The and-inverter graph got an input. -/
  | inputStored (index : Nat) (name : String)
  /-- The and-inverter graph got a gate. -/
  | gateStored (index : Nat) (left right : Signal)
  /-- Simulation found a pattern that makes a signal true. -/
  | witnessed (root : Signal) (round : Nat)
  /-- A branch of if-then-else was completed. -/
  | joined (f g h result : Edge)
  /-- A conjunction got a variable of its own. -/
  | gateEncoded (output : Literal) (inputs : List Literal)
  /-- A clause was emitted. -/
  | clauseEmitted (literals : List Literal)
deriving Repr, DecidableEq

inductive Level where
  | info
  | debug
  | trace
deriving Repr, DecidableEq

namespace Level

def text : Level → String
  | .info  => "INFO"
  | .debug => "DEBUG"
  | .trace => "TRACE"

/-- Place in the order of importance, from 1 on. -/
def rank : Level → Nat
  | .info  => 1
  | .debug => 2
  | .trace => 3

end Level

namespace Event

def level : Event → Level
  | .opened ..        => .info
  | .reused ..        => .trace
  | .lowered ..       => .debug
  | .checked ..       => .debug
  | .asked ..         => .trace
  | .termStored ..    => .debug
  | .inputStored ..   => .debug
  | .gateStored ..    => .trace
  | .witnessed ..     => .debug
  | .joined ..        => .debug
  | .gateEncoded ..   => .debug
  | .clauseEmitted .. => .trace

/-- The part of the program an event comes from. -/
def source : Event → String
  | .opened .. | .reused .. | .lowered .. | .checked ..  => "satexpr::session"
  | .asked ..                                            => "satexpr::oracle"
  | .termStored ..                                       => "satexpr::expr::native"
  | .inputStored .. | .gateStored .. | .witnessed ..     => "satexpr::expr::aig"
  | .joined ..                                           => "satexpr::solver::bdd"
  | .gateEncoded .. | .clauseEmitted ..                  => "satexpr::solver::cadical"

/-- How a list of literals is shown. -/
def literalsText (literals : List Literal) : String :=
  "[" ++ ", ".intercalate (literals.map Literal.text) ++ "]"

def text : Event → String
  | .opened library decider => s!"new session: expressions={library}, solver={decider}"
  | .reused node entry => s!"build({node.text}) -> e{entry} (cached)"
  | .lowered node entry kind status =>
      s!"build({node.text}): new entry e{entry} [{kind.text}, {status.text}]"
  | .checked node status => s!"precheck({node.text}) = {status.text}"
  | .asked formula answer => s!"\t\tSAT ? [ {formula} ] :\t{answer}"
  | .termStored index term => s!"native: new node #{index} = {term.text}"
  | .inputStored index name => s!"aig: new input n{index} = {name}"
  | .gateStored index left right => s!"aig: new gate n{index} = {left.text} & {right.text}"
  | .witnessed root round => s!"aig: {root.text} satisfied by simulation in round {round}"
  | .joined f g h result => s!"ite({f.text}, {g.text}, {h.text}) = {result.text}"
  | .gateEncoded output inputs => s!"cadical: gate {output.text} = AND{literalsText inputs}"
  | .clauseEmitted literals => s!"cadical: clause {literalsText literals}"

/-- The whole line of an event. -/
def line (e : Event) : String :=
  s!"{e.level.text} {e.source}: {e.text}"

end Event

/-- Which events are read: all up to a level, or only the traces of answered queries. -/
inductive Filter where
  | off
  | upTo (level : Level)
  | queries
deriving Repr, DecidableEq

namespace Filter

def ofName? : String → Option Filter
  | "off"    => some .off
  | "info"   => some (.upTo .info)
  | "debug"  => some (.upTo .debug)
  | "trace"  => some (.upTo .trace)
  | "oracle" => some .queries
  | _        => none

/-- Does somebody read events of this level from this source? -/
def passes (f : Filter) (level : Level) (source : String) : Bool :=
  match f with
  | .off        => false
  | .upTo limit => level.rank ≤ limit.rank
  | .queries    => source == "satexpr::oracle"

/-- The lines of the events that are read, in order. -/
def lines (f : Filter) (events : List Event) : List String :=
  (events.filter fun e => f.passes e.level e.source).map Event.line

/-- Are answered queries read?  Only then is it worth printing their formulas. -/
def readsQueries (f : Filter) : Bool :=
  f.passes .trace "satexpr::oracle"

end Filter

/-! ## Replies -/

structure Reply (σ α : Type) where
  result : Except Fault α
  state  : σ
  events : List Event

namespace Reply

variable {σ τ α β : Type}

/-- A value, with nothing to report. -/
def ok (a : α) (s : σ) : Reply σ α :=
  ⟨.ok a, s, []⟩

/-- A fault. -/
def fail (f : Fault) (s : σ) : Reply σ α :=
  ⟨.error f, s, []⟩

/-- A reading that leaves the part as it is. -/
def ofExcept (r : Except Fault α) (s : σ) : Reply σ α :=
  ⟨r, s, []⟩

/-- Continue from the value of a call in the state that the call left. -/
def andThen (r : Reply σ α) (k : α → σ → Reply σ β) : Reply σ β :=
  match r with
  | ⟨.ok a, s, events⟩ =>
      match k a s with
      | ⟨b, s, later⟩ => ⟨b, s, events ++ later⟩
  | ⟨.error f, s, events⟩ => ⟨.error f, s, events⟩

def map (g : α → β) (r : Reply σ α) : Reply σ β :=
  ⟨r.result.map g, r.state, r.events⟩

/-- The same reply from a larger part that holds this one. -/
def within (wrap : σ → τ) (r : Reply σ α) : Reply τ α :=
  ⟨r.result, wrap r.state, r.events⟩

@[simp] theorem andThen_ok (a : α) (s : σ) (k : α → σ → Reply σ β) :
    (ok a s).andThen k = k a s := rfl

@[simp] theorem andThen_fail (f : Fault) (s : σ) (k : α → σ → Reply σ β) :
    (fail f s : Reply σ α).andThen k = fail f s := rfl

end Reply

end SatMemo
