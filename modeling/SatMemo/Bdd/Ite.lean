import SatMemo.Bdd.Basic
import SatMemo.Worklist

/-! # If-then-else on a decision diagram

    `ite f g h` is `g` where `f` is true and `h` where it is false; every other
    operation is an instance of it.  One step either answers a triple outright or
    splits it at the greatest variable of its operands.  The splits are worked
    off from a list of tasks, the high half of a split before the low half, and
    finished triples are remembered in the diagram's memo table. -/

namespace SatMemo

namespace Bdd

/-! ## One step -/

/-- The answer where it can be read off the operands. -/
def immediate? (t : Triple) : Option Edge :=
  if t.f = .one ∨ t.g = t.h then some t.g
  else if t.f = .zero then some t.h
  else if t.g = .one ∧ t.h = .zero then some t.f
  else if t.g = .zero ∧ t.h = .one then some (-t.f)
  else none

/-- Inside the branches the condition is known: replace operands equal to it, or to its
    complement, by constants. -/
def substitute (t : Triple) : Triple where
  f := t.f
  g := if t.g = t.f then .one else if t.g = -t.f then .zero else t.g
  h := if t.h = t.f then .zero else if t.h = -t.f then .one else t.h

/-- The triple with an unmarked condition. -/
def plainCondition (t : Triple) : Triple :=
  if t.f.isNegated then ⟨-t.f, t.h, t.g⟩ else t

/-- The triple with an unmarked second operand, and whether its answer has to be
    complemented. -/
def plainBranch (t : Triple) : Triple × Bool :=
  if t.g.isNegated then (⟨t.f, -t.g, -t.h⟩, true) else (t, false)

/-- The two cofactors of an edge whose node is `d` with respect to `v`, low first. -/
def cofactors (e : Edge) (d : Decision) (v : Nat) : Edge × Edge :=
  if d.var = v then
    (d.low.negateIf e.isNegated, d.high.negateIf e.isNegated)
  else
    (e, e)

/-- What one step finds. -/
inductive Step where
  /-- The answer. -/
  | done (result : Edge)
  /-- The answer is the branch on `v` over the answers for `high` and `low`, to be
      remembered under `key` and then complemented if `flip` holds. -/
  | split (v : Nat) (key : Triple) (flip : Bool) (high low : Triple)
deriving Repr, DecidableEq

/-- The split of a normal triple at the greatest variable of its operands. -/
def splitAt (m : Bdd) (t : Triple) (flip : Bool) : Except Fault Step := do
  let df ← m.decision t.f
  let dg ← m.decision t.g
  let dh ← m.decision t.h
  let v := max (max df.var dg.var) dh.var
  let (f₀, f₁) := cofactors t.f df v
  let (g₀, g₁) := cofactors t.g dg v
  let (h₀, h₁) := cofactors t.h dh v
  return .split v t flip ⟨f₁, g₁, h₁⟩ ⟨f₀, g₀, h₀⟩

/-- Look a normal triple up, and split it if it is not remembered. -/
def lookup (m : Bdd) (t : Triple) (flip : Bool) : Except Fault Step × Bdd :=
  match m with
  | ⟨nodes, memo, varCount, names⟩ =>
      match memo.get t with
      | (some r, memo) => (.ok (.done (r.negateIf flip)), ⟨nodes, memo, varCount, names⟩)
      | (none, memo)   =>
          let m : Bdd := ⟨nodes, memo, varCount, names⟩
          (m.splitAt t flip, m)

/-- One step of if-then-else.  A constant put in for an operand can settle the triple, so
    the operands are looked at twice; a third look would find nothing new. -/
def step (m : Bdd) (t : Triple) : Except Fault Step × Bdd :=
  match immediate? t with
  | some r => (.ok (.done r), m)
  | none   =>
      let t := substitute t
      match immediate? t with
      | some r => (.ok (.done r), m)
      | none   =>
          let (t, flip) := plainBranch (plainCondition t)
          m.lookup t flip

/-- Remember the answer of a triple. -/
def remember (m : Bdd) (key : Triple) (r : Edge) : Bdd :=
  match m with
  | ⟨nodes, memo, varCount, names⟩ => ⟨nodes, memo.insert key r, varCount, names⟩

/-- Combine the answers for the two halves of a split and remember the outcome. -/
def join (m : Bdd) (v : Nat) (key : Triple) (low high : Edge) : Reply Bdd Edge :=
  match m.branch v low high with
  | ⟨.ok r, m, _⟩        => ⟨.ok r, m.remember key r, [.joined key.f key.g key.h r]⟩
  | ⟨.error fault, m, _⟩ => .fail fault m

/-! ## The list of tasks -/

/-- Work still to be done. -/
inductive Task where
  /-- Answer a triple, splitting at most `depth` levels deep. -/
  | call (depth : Nat) (t : Triple)
  /-- Combine the two latest answers. -/
  | join (v : Nat) (key : Triple) (flip : Bool)
deriving Repr, DecidableEq

/-- A bound on the tasks that a task can still give rise to. -/
def Task.weight : Task → Nat
  | .call depth _ => leafCount 3 (depth + 1)
  | .join ..      => 1

theorem Task.weight_pos (t : Task) : 0 < t.weight := by
  cases t with
  | call depth t => exact leafCount_pos (by decide) _
  | join v key flip => exact Nat.one_pos

/-- A split gives rise to less than it was. -/
theorem Task.weight_split (depth : Nat) (high low t : Triple) :
    (Task.call depth high).weight + (Task.call depth low).weight + 1
      < (Task.call (depth + 1) t).weight := by
  have h := Task.weight_pos (.call depth t)
  simp only [Task.weight, leafCount_succ] at h ⊢
  omega

/-- Work the tasks off.  `results` are the answers not yet combined, the latest first;
    `events` what was reported so far, also the latest first. -/
def runTasks (m : Bdd) (tasks : List Task) (results : List Edge) (events : List Event) :
    Reply Bdd Edge :=
  match tasks with
  | [] =>
      match results with
      | [r] => ⟨.ok r, m, events.reverse⟩
      | _   => ⟨.error .strayResults, m, events.reverse⟩
  | .call 0 _ :: _ => ⟨.error .endlessDescent, m, events.reverse⟩
  | .call (depth + 1) t :: rest =>
      match m.step t with
      | (.error fault, m)     => ⟨.error fault, m, events.reverse⟩
      | (.ok (.done r), m)    => runTasks m rest (r :: results) events
      | (.ok (.split v key flip high low), m) =>
          runTasks m (.call depth high :: .call depth low :: .join v key flip :: rest)
            results events
  | .join v key flip :: rest =>
      match results with
      | low :: high :: results =>
          match m.join v key low high with
          | ⟨.error fault, m, _⟩ => ⟨.error fault, m, events.reverse⟩
          | ⟨.ok r, m, joined⟩   =>
              runTasks m rest (r.negateIf flip :: results) (joined ++ events)
      | _ => ⟨.error .missingResult, m, events.reverse⟩
termination_by totalWeight Task.weight tasks
decreasing_by
  · simpa using Task.weight_pos (.call (depth + 1) t)
  · have := Task.weight_split depth high low t
    simp only [totalWeight_cons, Task.weight, Nat.succ_eq_add_one] at this ⊢
    omega
  · simpa using Task.weight_pos (.join v key flip)

/-- How deep a splitting can go: a split follows an edge of at least one operand, and no
    path of an acyclic diagram is longer than the diagram has nodes. -/
def splitDepth (m : Bdd) : Nat :=
  3 * (m.nodeCount + 1)

/-- The function that is `g` where `f` is true and `h` where it is false. -/
def ite (m : Bdd) (f g h : Edge) : Reply Bdd Edge :=
  m.runTasks [.call m.splitDepth ⟨f, g, h⟩] [] []

end Bdd

end SatMemo
