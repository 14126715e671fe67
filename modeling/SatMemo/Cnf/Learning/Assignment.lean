import SatMemo.Cnf.Basic

/-! # Partial assignments

    The variables that a search has given a value, in the order in which it did,
    and why.  Values given by free choice start a new level; to go back to a
    level is to forget the values given after it.

    The variables themselves are kept in a list, the most recently interesting
    last.  The next variable to choose a value for is the last one without a
    value; a cursor remembers a place behind which every variable has one. -/

namespace SatMemo

namespace Cnf

structure Assignment where
  /-- Literals that are true, by code. -/
  values  : Array Bool
  /-- Is the value that a variable had last true? -/
  phases  : Array Bool
  /-- Level at which a variable got its value. -/
  levels  : Array Nat
  /-- One more than the index of the clause that forced a value, 0 for a choice. -/
  reasons : Array Nat
  /-- True literals, the earliest first. -/
  trail   : Array Literal
  /-- Length of the trail where each level begins, from level 1 on. -/
  starts  : Array Nat
  /-- How much of the trail was propagated. -/
  head    : Nat

namespace Assignment

/-- No values, and room for the variables below `size`. -/
def empty (size : Nat) : Assignment where
  values  := Array.replicate (2 * size) false
  phases  := Array.replicate size false
  levels  := Array.replicate size 0
  reasons := Array.replicate size 0
  trail   := #[]
  starts  := #[]
  head    := 0

def level (a : Assignment) : Nat :=
  a.starts.size

def isTrue (a : Assignment) (l : Literal) : Bool :=
  a.values.getD l.code false

def isFalse (a : Assignment) (l : Literal) : Bool :=
  a.values.getD (-l).code false

def hasValue (a : Assignment) (v : Nat) : Bool :=
  a.isTrue (.pos v) || a.isFalse (.pos v)

/-- The literal that gives a variable the value it had last. -/
def lastTrue (a : Assignment) (v : Nat) : Literal :=
  .ofVar v (!a.phases.getD v false)

def levelOf (a : Assignment) (l : Literal) : Nat :=
  a.levels.getD l.var 0

def reasonOf (a : Assignment) (l : Literal) : Nat :=
  a.reasons.getD l.var 0

/-- Make `l` true. -/
def set (a : Assignment) (l : Literal) (reason : Nat) : Assignment :=
  match a with
  | ⟨values, phases, levels, reasons, trail, starts, head⟩ =>
      ⟨values.setIfInBounds l.code true, phases.setIfInBounds l.var (!l.isNegated),
        levels.setIfInBounds l.var starts.size, reasons.setIfInBounds l.var reason,
        trail.push l, starts, head⟩

/-- Start a level. -/
def openLevel (a : Assignment) : Assignment :=
  match a with
  | ⟨values, phases, levels, reasons, trail, starts, head⟩ =>
      ⟨values, phases, levels, reasons, trail, starts.push trail.size, head⟩

/-- The next literal to propagate. -/
def next? (a : Assignment) : Option Literal :=
  a.trail[a.head]?

def advance (a : Assignment) : Assignment :=
  match a with
  | ⟨values, phases, levels, reasons, trail, starts, head⟩ =>
      ⟨values, phases, levels, reasons, trail, starts, head + 1⟩

/-- Take back the last `count` values and put their variables in front of `undone`. -/
def pop (a : Assignment) (undone : List Nat) : (count : Nat) → Assignment × List Nat
  | 0         => (a, undone)
  | count + 1 =>
      match a with
      | ⟨values, phases, levels, reasons, trail, starts, head⟩ =>
          match trail.back? with
          | none   => (⟨values, phases, levels, reasons, trail, starts, head⟩, undone)
          | some l =>
              pop ⟨values.setIfInBounds l.code false, phases, levels, reasons, trail.pop, starts,
                head⟩ (l.var :: undone) count

/-- Go back to a level.  The second part are the variables that got a value beyond it. -/
def backTo (a : Assignment) (level : Nat) : Assignment × List Nat :=
  match a.starts[level]? with
  | none      => (a, [])
  | some keep =>
      match a.pop [] (a.trail.size - keep) with
      | (⟨values, phases, levels, reasons, trail, starts, _⟩, undone) =>
          (⟨values, phases, levels, reasons, trail, starts.take level, keep⟩, undone)

end Assignment

end Cnf

/-! ## The order of variables -/

namespace Cnf

/-- A doubly linked list of variables; 0 stands for the end on either side. -/
structure Order where
  before : Array Nat
  after  : Array Nat
  /-- When a variable was moved to the end. -/
  stamps : Array Nat
  last   : Nat
  clock  : Nat
  cursor : Nat

namespace Order

/-- Append a variable that is not in the list. -/
def append (o : Order) (v : Nat) : Order :=
  match o with
  | ⟨before, after, stamps, last, clock, cursor⟩ =>
      ⟨before.setIfInBounds v last, (after.setIfInBounds v 0).setIfInBounds last v,
        stamps.setIfInBounds v clock, v, clock + 1, cursor⟩

/-- The variables below `size` that `occurs` marks, in increasing order. -/
def ofSize (size : Nat) (occurs : Array Bool) : Order :=
  let none := Array.replicate size 0
  let o := Nat.fold size
    (fun v _ o => if v ≠ 0 ∧ occurs.getD v false then append o v else o)
    { before := none, after := none, stamps := none, last := 0, clock := 1, cursor := 0 }
  { o with cursor := o.last }

/-- A variable may have lost its value. -/
def release (o : Order) (v : Nat) : Order :=
  if o.stamps.getD o.cursor 0 < o.stamps.getD v 0 then { o with cursor := v } else o

/-- Move a variable to the end. -/
def bump (a : Assignment) (o : Order) (v : Nat) : Order :=
  if o.last = v then
    o
  else
    match o with
    | ⟨before, after, stamps, last, clock, cursor⟩ =>
        let p := before.getD v 0
        let n := after.getD v 0
        let cursor := if cursor = v then p else cursor
        let o : Order :=
          ⟨before.setIfInBounds n p, after.setIfInBounds p n, stamps, last, clock, cursor⟩
        let o := o.append v
        if a.hasValue v then o else o.release v

/-- Move variables to the end, the earliest in the list first. -/
def bumpAll (a : Assignment) (o : Order) (vs : List Nat) : Order :=
  let stamps := o.stamps
  let vs := vs.mergeSort fun v w => stamps.getD v 0 ≤ stamps.getD w 0
  vs.foldl (bump a) o

/-- The last variable at or before `v` without a value, looking at `count` of them. -/
def free? (a : Assignment) (o : Order) : (count : Nat) → (v : Nat) → Option Nat
  | 0, _         => none
  | count + 1, v =>
      if v = 0 then none
      else if a.hasValue v then free? a o count (o.before.getD v 0)
      else some v

/-- The variable to choose a value for, if one is left. -/
def next? (a : Assignment) (o : Order) : Option Nat :=
  o.free? a (o.before.size + 1) o.cursor

end Order

end Cnf

end SatMemo
