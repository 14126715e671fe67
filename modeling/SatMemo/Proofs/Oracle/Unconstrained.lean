import SatMemo.Proofs.Cnf.Exact
import SatMemo.Proofs.Oracle.Answering
import SatMemo.Proofs.Oracle.Exactness

/-! # New variables are unconstrained

    A function that was made before a variable does not look at it, so the
    variable can be given either value without touching the function.  Conjunction
    with the variable, or with its complement, is then no constraint: it can be
    true exactly if the function can.

    Which functions the handles of a script are for is a matter of the script
    alone, and every question is answered by it.  So the verdicts are tied
    together wherever the questions stand. -/

namespace SatMemo

namespace Oracle

open Library (Lawful)

namespace Reading

variable {r : Reading} {c : Call Nat} {script : Script} {k : Nat}

/-! ## What handles are for -/

/-- No handle is for a function of variables that were not made. -/
def Bounded (r : Reading) : Prop :=
  ∀ F ∈ r.handles, F.Below r.varCount

theorem Bounded.handle (h : r.Bounded) (k : Nat) : (r.handle k).Below r.varCount := by
  unfold Reading.handle
  rw [List.getD_eq_getElem?_getD]
  cases hk : r.handles[k]? with
  | none => exact BoolFn.below_const false
  | some F => exact h F (List.mem_of_getElem? hk)

theorem Bounded.returned (h : r.Bounded) {F : BoolFn} (hF : F.Below r.varCount) :
    (r.returned F).Bounded := by
  intro G hG
  rcases List.mem_append.1 hG with hG | hG
  · exact h G hG
  · rw [List.mem_singleton.1 hG]
    exact hF

/-- One call makes one variable at most, and no function of a later one. -/
theorem Bounded.after (h : r.Bounded) (c : Call Nat) : (r.after c).Bounded := by
  have hmap : ∀ ks : List Nat, ∀ F ∈ ks.map r.handle, F.Below r.varCount := by
    intro ks F hF
    obtain ⟨k, -, rfl⟩ := List.mem_map.1 hF
    exact h.handle k
  cases c with
  | makeTrue => exact h.returned (BoolFn.below_const true)
  | makeFalse => exact h.returned (BoolFn.below_const false)
  | newVariable =>
    have hmore : { r with varCount := r.varCount + 1 }.Bounded :=
      fun F hF => (h F hF).mono (Nat.le_succ _)
    exact hmore.returned (BoolFn.below_var (Nat.lt_succ_self _))
  | makeNot k => exact h.returned (h.handle k).not
  | makeAnd j k => exact h.returned (BoolFn.below_all (hmap [j, k]))
  | makeOr j k => exact h.returned (BoolFn.below_any (hmap [j, k]))
  | makeAll ks => exact h.returned (BoolFn.below_all (hmap ks))
  | makeAny ks => exact h.returned (BoolFn.below_any (hmap ks))
  | build k => exact h
  | isSatisfiable k => exact h

theorem Bounded.run (h : r.Bounded) (script : Script) : (r.run script).Bounded := by
  induction script generalizing r with
  | nil => exact h
  | cons c script ih => exact ih (h.after c)

end Reading

/-- How many handles a script returns. -/
def handleCount (script : Script) : Nat :=
  (Reading.empty.run script).handles.length

/-- The handle is the one that the call `c` of the script returned. -/
def ReturnedBy (script : Script) (h : Nat) (c : Call Nat) : Prop :=
  ∃ before, before ++ [c] <+: script ∧ handleCount before = h

section ReturnedBy

variable {script : Script} {h j k : Nat} {c : Call Nat}

/-- What a call returns is still there at the end. -/
theorem handle_of_stands {before : Script} (hbefore : before ++ [c] <+: script) {F : BoolFn}
    (hF : ((Reading.empty.run before).after c).handles
      = (Reading.empty.run before).handles ++ [F]) :
    (Reading.empty.run script).handle (handleCount before) = F := by
  obtain ⟨later, rfl⟩ := hbefore
  have hlast : ((Reading.empty.run before).after c).handles[handleCount before]? = some F := by
    rw [hF]
    exact List.getElem?_concat_length ..
  have hlt : handleCount before < ((Reading.empty.run before).after c).handles.length :=
    (List.getElem?_eq_some_iff.1 hlast).1
  rw [Reading.run_append, Reading.run_append]
  refine (Reading.handle_run hlt).trans ?_
  show ((Reading.empty.run before).after c).handles.getD _ _ = F
  rw [List.getD_eq_getElem?_getD, hlast, Option.getD_some]

variable (hscript : Reading.empty.Admits script)
include hscript

/-- Where a call of the script stands, its operands were returned, and they are what they are
    at the end. -/
theorem operand_of_stands {before : Script} (hbefore : before ++ [c] <+: script)
    (hk : k ∈ c.operands) :
    (Reading.empty.run script).handle k = (Reading.empty.run before).handle k := by
  obtain ⟨later, rfl⟩ := hbefore
  rw [Reading.admits_append, Reading.admits_append] at hscript
  rw [Reading.run_append, Reading.run_append, ← Reading.run_append]
  exact Reading.handle_run (hscript.1.2.1 k hk)

theorem ReturnedBy.handle_not (hreturned : ReturnedBy script h (.makeNot k)) :
    (Reading.empty.run script).handle h = ((Reading.empty.run script).handle k).not := by
  obtain ⟨before, hbefore, rfl⟩ := hreturned
  rw [operand_of_stands hscript hbefore (List.mem_singleton.2 rfl)]
  exact handle_of_stands hbefore rfl

theorem ReturnedBy.handle_and (hreturned : ReturnedBy script h (.makeAnd j k)) :
    (Reading.empty.run script).handle h
      = .all [(Reading.empty.run script).handle j, (Reading.empty.run script).handle k] := by
  obtain ⟨before, hbefore, rfl⟩ := hreturned
  rw [operand_of_stands hscript hbefore (k := j) (List.mem_cons_self ..),
    operand_of_stands hscript hbefore (k := k) (List.mem_cons_of_mem _ (List.mem_cons_self ..))]
  exact handle_of_stands hbefore rfl

end ReturnedBy

/-! ## A new variable -/

/-- Every question about the handle `k`, or about its conjunction with `x` or with a complement
    of `x`, is answered with `b`; `x` and its complements can be true. -/
structure Unconstrained (script : Script) (k x : Nat) (b : Bool) (answers : List Answer) :
    Prop where
  conjunction : ∀ ⦃j h : Nat⦄, script[j]? = some (.isSatisfiable h) →
    (h = k ∨ ReturnedBy script h (.makeAnd k x) ∨
      ∃ y, ReturnedBy script y (.makeNot x) ∧ ReturnedBy script h (.makeAnd k y)) →
    answers[j]? = some (.verdict b)
  free        : ∀ ⦃j h : Nat⦄, script[j]? = some (.isSatisfiable h) →
    h = x ∨ ReturnedBy script h (.makeNot x) → answers[j]? = some (.verdict true)

/-- Right answers leave a new variable unconstrained. -/
theorem Replies.unconstrained {before later : Script} {k : Nat} (hk : k < handleCount before)
    (hscript : Reading.empty.Admits (before ++ .newVariable :: later)) {answers : List Answer}
    (hreplies : Replies (Reading.empty.run (before ++ .newVariable :: later))
      (before ++ .newVariable :: later) answers) :
    Unconstrained (before ++ .newVariable :: later) k (handleCount before)
      ((Reading.empty.run before).verdict k) answers := by
  let script : Script := before ++ .newVariable :: later
  let R : Reading := Reading.empty.run script
  let v : Nat := (Reading.empty.run before).varCount
  have hx : R.handle (handleCount before) = .var v :=
    handle_of_stands (c := .newVariable) ⟨later, List.append_assoc ..⟩ rfl
  have hbelow : (R.handle k).Below v := by
    have hkeep : R.handle k = (Reading.empty.run before).handle k := by
      show (Reading.empty.run (before ++ _)).handle k = _
      rw [Reading.run_append]
      exact Reading.handle_run hk
    rw [hkeep]
    exact Reading.Bounded.handle (Reading.Bounded.run (r := .empty) nofun before) k
  have hverdict : (Reading.empty.run before).verdict k = R.verdict k := by
    show _ = (Reading.empty.run (before ++ _)).verdict k
    rw [Reading.run_append]
    exact (Reading.verdict_run hk).symm
  -- Conjunction with a literal over the variable has the verdict of the handle.
  have hliteral : ∀ {h y : Nat} (b : Bool), (∀ α, α v = b → R.handle y α = true) →
      ReturnedBy script h (.makeAnd k y) → R.verdict h = R.verdict k := by
    intro h y b hy hreturned
    rw [Bool.eq_iff_iff, Reading.verdict_iff, Reading.verdict_iff,
      hreturned.handle_and hscript]
    exact hbelow.satisfiable_and b hy
  constructor
  case conjunction =>
    intro j h hj hcase
    rw [hreplies.verdicts hj, hverdict]
    rcases hcase with rfl | hand | ⟨y, hnot, hand⟩
    · rfl
    · have hy : ∀ α, α v = true → R.handle (handleCount before) α = true := by
        intro α hα
        rw [hx]
        exact hα
      exact congrArg (some ∘ Answer.verdict) (hliteral true hy hand)
    · have hy : ∀ α, α v = false → R.handle y α = true := by
        intro α hα
        rw [hnot.handle_not hscript, hx, BoolFn.not_apply, BoolFn.var_apply, hα]
        rfl
      exact congrArg (some ∘ Answer.verdict) (hliteral false hy hand)
  case free =>
    intro j h hj hcase
    rw [hreplies.verdicts hj]
    have hsat : (R.handle h).Satisfiable := by
      rcases hcase with rfl | hnot
      · rw [hx]
        exact BoolFn.satisfiable_var v
      · rw [hnot.handle_not hscript, hx]
        exact BoolFn.satisfiable_not_var v
    exact congrArg (some ∘ Answer.verdict) (Reading.verdict_iff.2 hsat)

/-- **New variables are unconstrained.**  Let the solver behind the encoder be exact, `k` a
    handle that a script has returned, and `x` the variable that is made next.  There is one
    verdict that every later script, over either family of oracles, gets to all its questions
    about `k`, about `k` and `x`, and about `k` and not `x`; and all its questions about `x`
    and not `x` are answered with yes. -/
theorem newVariable_unconstrained (S : Cnf.Solver) (hS : S.Exact) (G : Generator) (s : Settings)
    (hs : s.validate = .ok ()) (watched : Bool) (before : Script) {k : Nat}
    (hk : k < handleCount before) :
    ∃ (o₀ : ClausalOracle S) (o₀' : DiagramOracle G) (b : Bool),
      s.clausalOracle watched S = .ok o₀ ∧ s.diagramOracle watched G = .ok o₀' ∧
      ∀ later, Reading.empty.Admits (before ++ .newVariable :: later) →
        (∃ answers o, play (before ++ .newVariable :: later) [] o₀ = .ok answers o ∧
          Unconstrained (before ++ .newVariable :: later) k (handleCount before) b answers) ∧
        ∃ answers o, play (before ++ .newVariable :: later) [] o₀' = .ok answers o ∧
          Unconstrained (before ++ .newVariable :: later) k (handleCount before) b answers := by
  obtain ⟨bdd, hexact, hnew⟩ := Settings.exists_diagramOracle (G := G) hs watched
  have hnary : Lawful.Wf (Nary.mk (.empty s.storageBits)) := Nary.wf_empty _
  have haig : Lawful.Wf (Aig.mk (.empty s.storageBits) 0 (G.ofSeed s.seed)) := Aig.wf_empty _ _
  refine ⟨_, _, (Reading.empty.run before).verdict k, Settings.clausalOracle_eq hs watched,
    hnew s.precheck s.patterns s.seed, ?_⟩
  intro later hscript
  constructor
  · obtain ⟨answers, o, hplay, hreplies⟩ := exists_replies (Encoder.exact_start hS) hnary s
      watched Encoder.startEvents hscript
    exact ⟨answers, o, hplay, hreplies.unconstrained hk hscript⟩
  · obtain ⟨answers, o, hplay, hreplies⟩ := exists_replies hexact haig s watched [] hscript
    exact ⟨answers, o, hplay, hreplies.unconstrained hk hscript⟩

/-- A variable, then a new one and what the two are joined to. -/
theorem newVariable_unconstrained_variables :
    ∃ (o₀ : ClausalOracle) (answers : List Answer) (o : ClausalOracle) (b : Bool),
      ({} : Settings).clausalOracle false = .ok o₀ ∧
      play [.newVariable, .newVariable, .makeNot 1, .makeAnd 0 1, .makeAnd 0 2,
        .isSatisfiable 4, .isSatisfiable 0, .isSatisfiable 3, .isSatisfiable 2] [] o₀
        = .ok answers o ∧
      answers[5]? = some (.verdict b) ∧ answers[6]? = some (.verdict b) ∧
      answers[7]? = some (.verdict b) ∧ answers[8]? = some (.verdict true) := by
  obtain ⟨o₀, o₀', b, hnew, -, hlater⟩ :=
    newVariable_unconstrained .learning Cnf.Solver.exact_learning .xoshiro {} rfl false
      [.newVariable] (k := 0) (by decide)
  let questions : Script := [.isSatisfiable 4, .isSatisfiable 0, .isSatisfiable 3, .isSatisfiable 2]
  let later : Script := [.makeNot 1, .makeAnd 0 1, .makeAnd 0 2] ++ questions
  let script : Script := [.newVariable] ++ .newVariable :: later
  obtain ⟨⟨answers, o, hplay, hconj, hfree⟩, -⟩ := hlater later
    (by simp [later, questions, Reading.Admits, Reading.after, Reading.returned, Call.operands,
      Reading.empty])
  have hnot : ReturnedBy script 2 (.makeNot 1) := ⟨script.take 2, ⟨later.drop 1, rfl⟩, rfl⟩
  have hand : ReturnedBy script 3 (.makeAnd 0 1) := ⟨script.take 3, ⟨later.drop 2, rfl⟩, rfl⟩
  have hand' : ReturnedBy script 4 (.makeAnd 0 2) := ⟨script.take 4, ⟨questions, rfl⟩, rfl⟩
  refine ⟨o₀, answers, o, b, hnew, hplay, ?_, ?_, ?_, ?_⟩
  · exact hconj (h := 4) rfl (.inr (.inr ⟨2, hnot, hand'⟩))
  · exact hconj (h := 0) rfl (.inl rfl)
  · exact hconj (h := 3) rfl (.inr (.inl hand))
  · exact hfree (h := 2) rfl (.inr hnot)

end Oracle

end SatMemo
