import Std.Data.TreeSet
import SatMemo.Cnf.Branching
import SatMemo.Cnf.Learning.Basic

/-! # Solvers

    A solver is asked whether clauses can be true together with one more literal,
    which it is to assume for this question alone.  How it finds out is its own
    affair, so an encoder has its solver as a parameter.  What is proved about the
    encoder's queries rests on the answers being right (`Solver.Sound`) and, where
    an answer is promised, on there being one (`Solver.Exact`).

    `Solver.learning` is a solver that runs. -/

namespace SatMemo

namespace Cnf

/-- Can the clauses be true together with the literal? -/
def Satisfiable (clauses : List Clause) (l : Literal) : Prop :=
  ∃ α, eval α clauses = true ∧ l.eval α = true

/-- What becomes of a query: an answer, or none if the search was interrupted.  A solver may
    remember what it did before, so its answers may depend on the number of the query. -/
structure Solver where
  solve : (number : Nat) → List Clause → Literal → Option Bool

namespace Solver

/-- What is answered is right. -/
def Sound (S : Solver) : Prop :=
  ∀ ⦃number clauses l b⦄, S.solve number clauses l = some b →
    (b = true ↔ Satisfiable clauses l)

/-- Every query is answered, and rightly. -/
structure Exact (S : Solver) : Prop where
  sound   : S.Sound
  answers : ∀ number clauses l, ∃ b, S.solve number clauses l = some b

/-- Two solvers that are right give the same answer where both give one. -/
theorem Sound.eq {S S' : Solver} (hS : S.Sound) (hS' : S'.Sound) {number number' : Nat}
    {clauses : List Clause} {l : Literal} {b b' : Bool}
    (h : S.solve number clauses l = some b) (h' : S'.solve number' clauses l = some b') :
    b = b' := by
  rw [Bool.eq_iff_iff, hS h, hS' h']

/-- An exact solver gives the answer that is right. -/
theorem Exact.solve_eq {S S' : Solver} (hS : S.Exact) (hS' : S'.Sound) {number : Nat}
    {clauses : List Clause} {l : Literal} {b : Bool} (h : S'.solve number clauses l = some b) :
    S.solve number clauses l = some b := by
  obtain ⟨b', h'⟩ := hS.answers number clauses l
  rw [h', hS.sound.eq hS' h' h]

end Solver

/-! ## Searching all clauses

    Learning answers nearly always; where it gives up, branching decides. -/

/-- Can all the clauses be made true at once? -/
def satisfiable (clauses : List Clause) : Bool :=
  match search clauses (1 <<< 40) with
  | some a => a.verdict
  | none   => branch clauses

theorem satisfiable_iff (clauses : List Clause) :
    satisfiable clauses = true ↔ ∃ α, eval α clauses = true := by
  unfold satisfiable
  split
  · exact Answer.verdict_iff _
  · exact branch_iff clauses

/-! ## Searching few clauses

    Clauses of gates say what their highest variable is in terms of lower ones.
    Those that are not about the variables of a query are best left out of the
    search: a refutation of the others is one of all clauses, and a model of the
    others is completed by reading the highest variables off.  Clauses of another
    kind may spoil the completion, which is therefore checked. -/

/-- The highest variable of a clause. -/
def top (c : Clause) : Nat :=
  c.foldl (fun v l => max v l.var) 0

/-- The clauses that say what the variables in `needed` are, in front of `found`, the earliest
    first, from a list that has the latest first. -/
def focus (needed : Std.TreeSet Nat) (found : List Clause) : List Clause → List Clause
  | []      => found
  | c :: cs =>
      if needed.contains (top c) then
        focus (c.foldl (fun vs l => vs.insert l.var) needed) (c :: found) cs
      else
        focus needed found cs

/-- Change the highest variable of a clause that is false. -/
def repair (values : Array Bool) (c : Clause) : Array Bool :=
  if c.any (Literal.eval fun v => values.getD v false) then values
  else values.modify (top c) (!·)

/-- Values for the variables of all clauses, from a model of those in `found`. -/
def complete (α : Nat → Bool) (found clauses : List Clause) : Array Bool :=
  let size := 1 + clauses.foldl (fun v c => max v (top c)) 0
  let copy values (l : Literal) := values.setIfInBounds l.var (α l.var)
  let values := found.foldl (fun values c => c.foldl copy values) (Array.replicate size true)
  clauses.reverse.foldl repair values

/-- Can the clauses, the latest first, be true together with the literal? -/
def decideWith (clauses : List Clause) (l : Literal) : Bool :=
  let all := [l] :: clauses
  let found := focus (.ofList [l.var]) [] all
  match search found (1 <<< 40) with
  | none               => satisfiable all
  | some (.refuted _)  => false
  | some (.model α _)  =>
      let values := complete α found all
      eval (fun v => values.getD v false) all || satisfiable all

theorem mem_of_mem_focus {needed : Std.TreeSet Nat} {found clauses : List Clause} {c : Clause}
    (h : c ∈ focus needed found clauses) : c ∈ found ∨ c ∈ clauses := by
  induction clauses generalizing needed found with
  | nil => exact .inl h
  | cons d cs ih =>
    rw [focus] at h
    by_cases hneeded : needed.contains (top d)
    · rw [if_pos hneeded] at h
      rcases ih h with hmem | hmem
      · rcases List.mem_cons.1 hmem with rfl | hmem
        · exact .inr (List.mem_cons_self ..)
        · exact .inl hmem
      · exact .inr (List.mem_cons_of_mem _ hmem)
    · rw [if_neg hneeded] at h
      exact (ih h).imp id (List.mem_cons_of_mem _)

theorem decideWith_iff (clauses : List Clause) (l : Literal) :
    decideWith clauses l = true ↔ Satisfiable clauses l := by
  have hall : (∃ α, eval α ([l] :: clauses) = true) ↔ Satisfiable clauses l := by
    simp [eval, Satisfiable, and_comm]
  rw [← hall]
  unfold decideWith
  dsimp only
  split
  · exact satisfiable_iff _
  · -- What refutes some of the clauses refutes all of them.
    rename_i hrefuted _
    simp only [Bool.false_eq_true, false_iff, not_exists]
    intro α hα
    have hfound : eval α (focus (.ofList [l.var]) [] ([l] :: clauses)) = true := by
      rw [eval_eq_true_iff] at hα ⊢
      intro c hc
      exact hα c ((mem_of_mem_focus hc).resolve_left List.not_mem_nil)
    rw [entails_nil_iff.1 hrefuted] at hfound
    exact Bool.false_ne_true hfound
  · rw [Bool.or_eq_true, satisfiable_iff]
    exact ⟨fun h => h.elim (fun h => ⟨_, h⟩) id, .inr⟩

namespace Solver

/-- The solver that learns clauses.  It always answers, whatever was asked before. -/
def learning : Solver where
  solve _ clauses l := some (decideWith clauses l)

theorem exact_learning : learning.Exact where
  sound := by
    intro number clauses l b h
    obtain rfl := Option.some.inj h
    exact decideWith_iff clauses l
  answers := fun _ clauses l => ⟨decideWith clauses l, rfl⟩

end Solver

end Cnf

end SatMemo
