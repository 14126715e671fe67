import SatMemo.Cnf.Consequence
import SatMemo.Cnf.Learning.Assignment

/-! # Search by learning clauses

    The search chooses values, propagates what they force, and, where a clause
    turns false, derives a new clause that explains it, goes back to where that
    clause would have forced another value, and continues.  What it learns are
    consequences, proofs included, so that nothing else about it matters for its
    answers: it may answer that it gives up, but not wrongly. -/

namespace SatMemo

namespace Cnf

variable {F : List Clause}

/-! ## Answers -/

/-- An answer about clauses, with what proves it. -/
inductive Answer (F : List Clause) where
  | model (α : Nat → Bool) (h : eval α F = true)
  | refuted (h : Entails F [])

namespace Answer

def verdict : Answer F → Bool
  | .model _ _ => true
  | .refuted _ => false

theorem verdict_iff (a : Answer F) : a.verdict = true ↔ ∃ α, eval α F = true := by
  cases a with
  | model α h => simpa [verdict] using ⟨α, h⟩
  | refuted h => simpa [verdict] using entails_nil_iff.1 h

end Answer

/-- A contradiction without assumptions is a refutation. -/
def Known.Outcome.answer? : Known.Outcome F [] → Option (Answer F)
  | .contradiction _ h =>
      some (.refuted (entails_nil_iff.2 fun α => Bool.eq_false_iff.2 fun hα => h α hα (by simp)))
  | .known _           => none

/-! ## Watching

    Two literals of each clause are watched: while neither is false, or one is
    true, the clause forces nothing. -/

structure Watching where
  first    : Array Literal
  second   : Array Literal
  /-- Clauses that watch a literal, by code. -/
  watchers : Array (Array Nat)

namespace Watching

/-- No clauses yet, and room for the literals whose codes are below `size`. -/
def empty (size : Nat) : Watching :=
  ⟨#[], #[], Array.replicate size #[]⟩

/-- Let the next clause watch `k` and `l`.  A clause with a single literal, given twice,
    watches nothing. -/
def add (w : Watching) (k l : Literal) : Watching :=
  match w with
  | ⟨first, second, watchers⟩ =>
      let i := first.size
      ⟨first.push k, second.push l,
        if k = l then watchers
        else (watchers.modify k.code (·.push i)).modify l.code (·.push i)⟩

/-- Visit the clauses from place `i` of `watching` on, which watch `l`, after `l` became
    false.  `kept` are those visited before that still watch it.  The answer is a clause
    that is false, if any. -/
def visit (clauses : Array (Consequence F)) (l : Literal) (watching : Array Nat) (i : Nat)
    (kept : Array Nat) (w : Watching) (a : Assignment) : Option Nat × Watching × Assignment :=
  match w with
  | ⟨first, second, watchers⟩ =>
      if _h : i < watching.size then
        let c := watching[i]
        let isFirst := first.getD c l = l
        let other := if isFirst then second.getD c l else first.getD c l
        if a.isTrue other then
          visit clauses l watching (i + 1) (kept.push c) ⟨first, second, watchers⟩ a
        else
          let replacement? := (clauses[c]?).bind fun c =>
            c.literals.find? fun k => k.code != other.code && !a.isFalse k
          match replacement? with
          | some k =>
              let watchers := watchers.modify k.code (·.push c)
              if isFirst then
                visit clauses l watching (i + 1) kept
                  ⟨first.setIfInBounds c k, second, watchers⟩ a
              else
                visit clauses l watching (i + 1) kept
                  ⟨first, second.setIfInBounds c k, watchers⟩ a
          | none =>
              if a.isFalse other then
                let kept := kept ++ watching.extract i watching.size
                (some c, ⟨first, second, watchers.setIfInBounds l.code kept⟩, a)
              else
                visit clauses l watching (i + 1) (kept.push c) ⟨first, second, watchers⟩
                  (a.set other (c + 1))
      else
        (none, ⟨first, second, watchers.setIfInBounds l.code kept⟩, a)
termination_by watching.size - i

/-- Propagate the values not yet propagated, at most `count` of them. -/
def propagate (clauses : Array (Consequence F)) :
    (count : Nat) → Watching → Assignment → Option Nat × Watching × Assignment
  | 0, w, a         => (none, w, a)
  | count + 1, w, a =>
      match a.next? with
      | none   => (none, w, a)
      | some l =>
          match w with
          | ⟨first, second, watchers⟩ =>
              let watching := watchers.getD (-l).code #[]
              let watchers := watchers.setIfInBounds (-l).code #[]
              match visit clauses (-l) watching 0 #[] ⟨first, second, watchers⟩ a.advance with
              | (some c, w, a) => (some c, w, a)
              | (none, w, a)   => propagate clauses count w a

end Watching

/-! ## Searches in progress -/

structure Learner (F : List Clause) where
  clauses    : Array (Consequence F)
  watching   : Watching
  assignment : Assignment
  order      : Order
  /-- Number of the last conflict whose explanation met a variable. -/
  seen       : Array Nat
  /-- Literals that follow from `F`. -/
  facts      : Known F []
  /-- How much of the trail is among the facts. -/
  settled    : Nat
  /-- Number of clauses given, which are never forgotten. -/
  given      : Nat
  conflicts  : Nat

namespace Learner

/-- A search with no clauses yet, for clauses whose variables are below `size`. -/
def start (F : List Clause) (size : Nat) : Learner F :=
  let mark os (c : Clause) := c.foldl (fun os l => os.setIfInBounds l.var true) os
  let occurs := F.foldl mark (Array.replicate size false)
  { clauses    := #[]
    watching   := .empty (2 * size)
    assignment := .empty size
    order      := .ofSize size occurs
    seen       := Array.replicate size 0
    facts      := .empty F (2 * size)
    settled    := 0
    given      := F.length
    conflicts  := 0 }

/-- Add a clause that watches `k` and `l`. -/
def attach (s : Learner F) (c : Consequence F) (k l : Literal) : Learner F :=
  match s with
  | ⟨clauses, watching, a, order, seen, facts, settled, given, n⟩ =>
      ⟨clauses.push c, watching.add k l, a, order, seen, facts, settled, given, n⟩

/-- Make `l` true. -/
def set (s : Learner F) (l : Literal) (reason : Nat) : Learner F :=
  match s with
  | ⟨clauses, watching, a, order, seen, facts, settled, given, n⟩ =>
      ⟨clauses, watching, a.set l reason, order, seen, facts, settled, given, n⟩

/-- Propagate all values.  The answer is a clause that is false, if any. -/
def propagate (s : Learner F) : Option Nat × Learner F :=
  match s with
  | ⟨clauses, watching, a, order, seen, facts, settled, given, n⟩ =>
      match watching.propagate clauses (seen.size + 1) a with
      | (c?, watching, a) =>
          (c?, ⟨clauses, watching, a, order, seen, facts, settled, given, n⟩)

/-- Go back to a level. -/
def backTo (s : Learner F) (level : Nat) : Learner F :=
  match s with
  | ⟨clauses, watching, a, order, seen, facts, settled, given, n⟩ =>
      match a.backTo level with
      | (a, undone) =>
          ⟨clauses, watching, a, undone.foldl Order.release order, seen, facts, settled, given, n⟩

/-- Give a variable without a value the value it had last. -/
def choose (s : Learner F) (v : Nat) : Learner F :=
  match s with
  | ⟨clauses, watching, a, order, seen, facts, settled, given, n⟩ =>
      let l := a.lastTrue v
      ⟨clauses, watching, a.openLevel.set l 0, { order with cursor := v }, seen, facts, settled,
        given, n⟩

/-- The answer where every variable has a value. -/
def model? (s : Learner F) : Option (Answer F) :=
  let values := s.assignment.values
  let α v := values.getD (2 * v) false
  if h : eval α F = true then some (.model α h) else none

/-! ## Facts -/

/-- Look at the clauses that forced the values from place `i` of the trail on. -/
def settleFrom (clauses : Array (Consequence F)) (a : Assignment) (i : Nat) (facts : Known F []) :
    Known F [] :=
  if _h : i < a.trail.size then
    match clauses[a.reasonOf a.trail[i] - 1]? with
    | none   => settleFrom clauses a (i + 1) facts
    | some c =>
        match facts.use c with
        | .known facts           => settleFrom clauses a (i + 1) facts
        | .contradiction facts _ => facts
  else
    facts
termination_by a.trail.size - i

/-- Mark as facts what was forced so far, which must be before any choice. -/
def settle (s : Learner F) : Learner F :=
  match s with
  | ⟨clauses, watching, a, order, seen, facts, settled, given, n⟩ =>
      let facts := settleFrom clauses a settled facts
      ⟨clauses, watching, a, order, seen, facts, a.trail.size, given, n⟩

/-- The refutation in a clause that is false before any choice. -/
def refute? (s : Learner F) (c : Consequence F) : Option (Answer F) :=
  (s.settle.facts.use c).answer?

/-! ## Explaining a conflict -/

/-- An explanation under construction. -/
structure Explanation (F : List Clause) where
  /-- Number of the last conflict whose explanation met a variable. -/
  seen    : Array Nat
  /-- Variables met. -/
  met     : List Nat
  /-- Literals of earlier levels, all false. -/
  earlier : List Literal
  /-- Number of literals of the present level that are still to be explained. -/
  pending : Nat
  /-- Clauses used, in the order in which they have to be looked at. -/
  hints   : List (Consequence F)

namespace Explanation

/-- Take a literal into account.  What is false before any choice needs no explanation. -/
def meet (a : Assignment) (number : Nat) (e : Explanation F) (l : Literal) : Explanation F :=
  let v := l.var
  if e.seen.getD v number = number || !a.isFalse l || a.levelOf l = 0 then
    e
  else
    match e with
    | ⟨seen, met, earlier, pending, hints⟩ =>
        let seen := seen.setIfInBounds v number
        if a.levelOf l = a.level then
          ⟨seen, v :: met, earlier, pending + 1, hints⟩
        else
          ⟨seen, v :: met, l :: earlier, pending, hints⟩

/-- Take the literals of a clause into account. -/
def use (a : Assignment) (number : Nat) (e : Explanation F) (c : Consequence F) :
    Explanation F :=
  match e with
  | ⟨seen, met, earlier, pending, hints⟩ =>
      c.literals.foldl (meet a number) ⟨seen, met, earlier, pending, c :: hints⟩

/-- Go down the trail from below place `i`, putting the clause that forced a value in its
    place, until one literal of the present level is left. -/
def complete (clauses : Array (Consequence F)) (a : Assignment) (number : Nat)
    (e : Explanation F) : (i : Nat) → Option Literal × Explanation F
  | 0     => (none, e)
  | i + 1 =>
      match a.trail[i]? with
      | none   => (none, e)
      | some l =>
          if e.seen.getD l.var 0 ≠ number then
            complete clauses a number e i
          else if e.pending ≤ 1 then
            (some l, e)
          else
            match clauses[a.reasonOf l - 1]? with
            | none   => (none, e)
            | some c =>
                match e with
                | ⟨seen, met, earlier, pending, hints⟩ =>
                    complete clauses a number
                      (use a number ⟨seen, met, earlier, pending - 1, hints⟩ c) i

end Explanation

/-- The literal of the highest level, and that level. -/
def highest (a : Assignment) (ls : List Literal) : Option Literal × Nat :=
  ls.foldl
    (fun best l => if best.2 < a.levelOf l then (some l, a.levelOf l) else best)
    (none, 0)

/-- Learn from a clause that is false: derive a clause that explains it, go back to where
    that clause forces a value, and give it that value. -/
def learn (s : Learner F) (c : Consequence F) : Option (Learner F) :=
  match s with
  | ⟨clauses, watching, a, order, seen, facts, settled, given, n⟩ =>
      let number := n + 1
      let e := Explanation.use a number ⟨seen, [], [], 0, []⟩ c
      match e.complete clauses a number a.trail.size with
      | (none, _) => none
      | (some l, ⟨seen, met, earlier, _, hints⟩) =>
          match derive? facts (-l :: earlier).toArray hints with
          | (none, _)             => none
          | (some learned, facts) =>
              let (other?, level) := highest a earlier
              match backTo ⟨clauses, watching, a, order, seen, facts, settled, given, number⟩
                level with
              | ⟨clauses, watching, a, order, seen, facts, settled, given, n⟩ =>
                  let reason := clauses.size + 1
                  let order := order.bumpAll a met
                  let s : Learner F :=
                    ⟨clauses, watching, a, order, seen, facts, settled, given, n⟩
                  some ((s.attach learned (-l) (other?.getD (-l))).set (-l) reason)

/-! ## Forgetting -/

/-- Go back before all choices and forget the older half of the longer clauses learned. -/
def forget (s : Learner F) : Learner F :=
  match (s.backTo 0).settle with
  | ⟨clauses, watching, a, order, seen, facts, settled, given, n⟩ =>
      let recent := given + (clauses.size - given) / 2
      let isKept (c : Consequence F) (i : Nat) := i < given || recent ≤ i || c.literals.size ≤ 8
      let s : Learner F :=
        ⟨#[], .empty watching.watchers.size, a, order, seen, facts, settled, given, n⟩
      let places := (clauses.zip (watching.first.zip watching.second)).zipIdx
      places.foldl (fun s ((c, k, l), i) => if isKept c i then s.attach c k l else s) s

/-- Number of conflicts from one forgetting to the next. -/
def forgettingPeriod : Nat :=
  5000

/-! ## Setting up -/

/-- Two different literals of a clause, as far as it has them. -/
def watchable (literals : Array Literal) : Option Literal × Option Literal :=
  match literals[0]? with
  | none   => (none, none)
  | some l => (some l, literals.find? (· ≠ l))

/-- Take in a given clause, before any choice. -/
def add (s : Learner F) (c : Consequence F) : Except (Option (Answer F)) (Learner F) :=
  match watchable c.literals with
  | (none, _)        => .error (s.refute? c)
  | (some k, some l) => .ok (s.attach c k l)
  | (some k, none)   =>
      if s.assignment.isFalse k then
        .error (s.refute? c)
      else if s.assignment.isTrue k then
        .ok (s.attach c k k)
      else
        let reason := s.clauses.size + 1
        .ok ((s.attach c k k).set k reason)

/-- Take in given clauses. -/
def addAll (s : Learner F) : (cs : List Clause) → (∀ c ∈ cs, c ∈ F) →
    Except (Option (Answer F)) (Learner F)
  | [], _      => .ok s
  | c :: cs, h =>
      match s.add ⟨c.toArray, by simpa using entails_of_mem (h c (by simp))⟩ with
      | .error answer? => .error answer?
      | .ok s          => s.addAll cs fun c' hc' => h c' (List.mem_cons_of_mem _ hc')

/-! ## The search -/

/-- Search on, for at most `steps` conflicts and choices and at most `limit` conflicts. -/
def run (limit : Nat) : (steps : Nat) → Learner F → Option (Answer F)
  | 0, _         => none
  | steps + 1, s =>
      match s.propagate with
      | (some c, s) =>
          match s.clauses[c]? with
          | none   => none
          | some c =>
              if s.assignment.level = 0 then
                s.refute? c
              else if limit ≤ s.conflicts then
                none
              else
                match s.learn c with
                | none   => none
                | some s =>
                    if s.conflicts % forgettingPeriod = 0 then run limit steps s.forget
                    else run limit steps s
      | (none, s) =>
          let s := if s.assignment.level = 0 then s.settle else s
          match s.order.next? s.assignment with
          | some v => run limit steps (s.choose v)
          | none   => s.model?

end Learner

/-- Search for an answer, for at most `limit` conflicts. -/
def search (F : List Clause) (limit : Nat) : Option (Answer F) :=
  let size := 1 + F.foldl (fun m c => c.foldl (fun m l => max m l.var) m) 0
  match (Learner.start F size).addAll F fun _ h => h with
  | .ok s          => s.run limit (1 <<< 60)
  | .error answer? => answer?

end Cnf

end SatMemo
