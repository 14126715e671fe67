import SatMemo.Oracle.Basic

/-! # Lowering formulas

    A formula is lowered into decider objects from the bottom up, one entry for
    each structural class.  The nodes still to be lowered are kept in a list: a
    node is opened when it first comes to the front, which puts its operands
    before it, and lowered when it comes to the front again.  A node that has an
    entry by then is left alone. -/

namespace SatMemo

namespace Oracle

variable {ε σ τ : Type} [Library ε] [Decider σ τ]

/-! ## One node -/

/-- The decider's object for a node, from the objects of its operands, and what is known of
    it: the constants are decided from the start. -/
def objectFor (n : NodeId) (kind : Kind) (operands : List τ) : OracleM ε σ τ (Entry τ) := do
  match kind with
  | .constTrue  => return ⟨← callDecider Decider.makeTrue, .sat⟩
  | .constFalse => return ⟨← callDecider Decider.makeFalse, .unsat⟩
  | .var        =>
      let name ← ask fun lib => Library.label lib n
      return ⟨← callDecider fun d => Decider.makeVariable d name, .unknown⟩
  | .not        =>
      match operands with
      | []     => throw (.fault (.outOfBounds 0 0))
      | x :: _ => return ⟨← callDecider fun d => Decider.makeNot d x, .unknown⟩
  | .and        => return ⟨← callDecider fun d => Decider.makeAnd d operands, .unknown⟩
  | .or         => return ⟨← callDecider fun d => Decider.makeOr d operands, .unknown⟩

/-- The objects in the entries of the operands of a node. -/
def operandObjects : List NodeId → OracleM ε σ τ (List τ)
  | []      => return []
  | n :: ns => do
      match ← indexOf? n with
      | none   => throw (.error (.unknownNode n))
      | some i => return (← entryAt i).object :: (← operandObjects ns)

/-- Append an entry for the class of a node. -/
def append (n : NodeId) (kind : Kind) (e : Entry τ) : OracleM ε σ τ Unit := do
  let i := (← get).entries.size
  report (.lowered n i kind e.status)
  modify fun o => { o with entries := o.entries.push e }
  let o ← get
  let index ← orFault (o.index.insert o.library n i)
  modify fun o => { o with index, stats := { o.stats with misses := o.stats.misses + 1 } }

/-- Lower a node whose operands all have entries. -/
def lower (n : NodeId) : OracleM ε σ τ Unit := do
  let kind ← ask fun lib => Library.kind lib n
  let children ← ask fun lib => Library.children lib n
  append n kind (← objectFor n kind (← operandObjects children))

/-! ## The list of nodes -/

/-- A node still to be lowered. -/
structure Pending where
  node   : NodeId
  /-- Were its operands put in front of it? -/
  opened : Bool
deriving Repr, DecidableEq

/-- Put the operands of a node that have no entry in front of a list, the last one first. -/
def pushOperands : (lastFirst : List NodeId) → List Pending → OracleM ε σ τ (List Pending)
  | [], pending      => return pending
  | n :: ns, pending => do
      unless ← holds n do
        throw (.error (.unknownNode n))
      if (← indexOf? n).isSome then
        pushOperands ns pending
      else
        pushOperands ns (⟨n, false⟩ :: pending)

/-- Open a node: what to lower in its place.  Its number of operands must be one that its
    kind can have. -/
def openNode (n : NodeId) : OracleM ε σ τ (List Pending) := do
  let kind ← ask fun lib => Library.kind lib n
  let children ← ask fun lib => Library.children lib n
  unless kind.accepts children.length do
    throw (.error (.malformedNode n kind children.length))
  pushOperands children.reverse [⟨n, true⟩]

/-- Work off the nodes at the front that need no opening, up to the first one that does:
    that one, and the nodes behind it. -/
def settle : List Pending → OracleM ε σ τ (Option (NodeId × List Pending))
  | []                  => return none
  | ⟨n, opened⟩ :: rest => do
      if (← indexOf? n).isSome then
        settle rest
      else if opened then
        lower n
        settle rest
      else
        return some (n, rest)

/-- Work off all the nodes, opening `budget` of them at most. -/
def workOff : (budget : Nat) → List Pending → OracleM ε σ τ Unit
  | 0, pending => do
      match ← settle pending with
      | none   => return
      | some _ => throw (.fault .endlessDescent)
  | budget + 1, pending => do
      match ← settle pending with
      | none           => return
      | some (n, rest) => workOff budget ((← openNode n) ++ rest)

/-! ## A whole formula -/

/-- The index of the entry of a formula, which is lowered now if it was not before.  In an
    acyclic library no node is opened twice, and there are fewer nodes than the library's
    bound. -/
def build (n : NodeId) : OracleM ε σ τ Nat := do
  unless ← holds n do
    throw (.error (.unknownNode n))
  match ← indexOf? n with
  | some i =>
      modify fun o => { o with stats := { o.stats with hits := o.stats.hits + 1 } }
      report (.reused n i)
      return i
  | none =>
      workOff (Library.bound (← get).library) [⟨n, false⟩]
      match ← indexOf? n with
      | some i => return i
      | none   => throw (.error (.unknownNode n))

end Oracle

end SatMemo
