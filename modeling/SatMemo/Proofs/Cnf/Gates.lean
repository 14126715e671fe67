import SatMemo.Cnf.Decider
import SatMemo.Proofs.BoolFn

/-! # Gates and their clauses

    Under an assignment a gate either holds, its output being the conjunction of
    its inputs, or one of its clauses is false.  In a list of gates in which every
    output is greater than the inputs of its gate and than all outputs before it,
    the values of the outputs are determined by the other variables, and every
    choice of those can be completed. -/

namespace SatMemo

/-! ## Sets of literals -/

namespace Literal

theorem mem_sortedSet {l : Literal} {ls : List Literal} : l ∈ sortedSet ls ↔ l ∈ ls := by
  unfold sortedSet
  rw [Std.TreeSet.mem_toList, Std.TreeSet.mem_ofList, List.contains_iff_mem]

/-- Complements that are found are there. -/
theorem exists_of_hasComplements {ls : List Literal} (h : hasComplements ls = true) :
    ∃ l ∈ ls, -l ∈ ls := by
  induction ls with
  | nil => cases h
  | cons k rest ih =>
    cases rest with
    | nil => cases h
    | cons l rest =>
      simp only [hasComplements, Bool.or_eq_true, decide_eq_true_eq] at h
      rcases h with rfl | h
      · exact ⟨k, List.mem_cons_self .., List.mem_cons_of_mem _ (List.mem_cons_self ..)⟩
      · obtain ⟨l', hl, hn⟩ := ih h
        exact ⟨l', List.mem_cons_of_mem _ hl, List.mem_cons_of_mem _ hn⟩

theorem eval_congr {α β : Nat → Bool} {l : Literal} (h : α l.var = β l.var) :
    l.eval α = l.eval β := by
  unfold eval
  rw [h]

@[simp] theorem eval_pos (α : Nat → Bool) (v : Nat) : (pos v).eval α = α v := by
  simp [pos, eval]

@[simp] theorem var_pos (v : Nat) : (pos v).var = v :=
  var_ofVar v false

end Literal

namespace Gate

/-! ## One gate -/

/-- The output is the conjunction of the inputs. -/
def Holds (α : Nat → Bool) (g : Gate) : Prop :=
  α g.output = g.inputs.all (Literal.eval α)

/-- The clauses of a gate say that it holds. -/
theorem eval_clauses_iff {α : Nat → Bool} {g : Gate} :
    Cnf.eval α g.clauses = true ↔ g.Holds α := by
  have hlast : (g.inputs.any fun l => !l.eval α) = !g.inputs.all (Literal.eval α) := by
    rw [List.not_all_eq_any_not]
  unfold Cnf.eval clauses Holds
  rw [List.all_append, List.all_map, Bool.and_eq_true]
  simp only [Function.comp_def, List.all_cons, List.all_nil, Bool.and_true, List.any_append,
    List.any_cons, List.any_nil, Bool.or_false, List.any_map, Literal.eval_neg,
    Literal.eval_pos, hlast]
  cases hα : α g.output with
  | true => simp only [Bool.not_true, Bool.false_or, Bool.or_true, and_true, eq_comm]
  | false => simp

/-- Whether a gate holds depends on its own variables. -/
theorem holds_congr {α β : Nat → Bool} {g : Gate} (ho : α g.output = β g.output)
    (hi : ∀ l ∈ g.inputs, α l.var = β l.var) : g.Holds α ↔ g.Holds β := by
  have hall : g.inputs.all (Literal.eval α) = g.inputs.all (Literal.eval β) :=
    BoolFn.list_all_congr fun l hl => Literal.eval_congr (hi l hl)
  unfold Holds
  rw [ho, hall]

/-! ## Lists of gates, the latest first -/

/-- Every output is greater than the inputs of its gate and than the outputs before it. -/
def Layered : List Gate → Prop
  | []      => True
  | g :: gs =>
      (∀ l ∈ g.inputs, 1 ≤ l.var ∧ l.var < g.output) ∧ (∀ g' ∈ gs, g'.output < g.output) ∧
        Layered gs

theorem Layered.inputs_lt {gs : List Gate} (h : Layered gs) :
    ∀ g ∈ gs, ∀ l ∈ g.inputs, 1 ≤ l.var ∧ l.var < g.output := by
  induction gs with
  | nil =>
    intro g hg
    cases hg
  | cons g gs ih =>
    obtain ⟨hi, _, hl⟩ := h
    intro g' hg'
    rcases List.mem_cons.1 hg' with rfl | hg'
    · exact hi
    · exact ih hl g' hg'

/-- Assignments that respect the gates and agree on all other variables below a bound agree
    on the outputs below it as well. -/
theorem Layered.eq_of_holds {gs : List Gate} (h : Layered gs) {α β : Nat → Bool} {n : Nat}
    (hα : ∀ g ∈ gs, g.Holds α) (hβ : ∀ g ∈ gs, g.Holds β)
    (hfree : ∀ v, 1 ≤ v → v ≤ n → (∀ g ∈ gs, g.output ≠ v) → α v = β v) :
    ∀ v, 1 ≤ v → v ≤ n → α v = β v := by
  intro v
  -- By strong induction on the variable: the inputs of a gate lie below its output.
  induction v using Nat.strongRecOn with
  | ind v ih =>
    intro hpos hv
    by_cases hout : ∃ g ∈ gs, g.output = v
    · obtain ⟨g, hg, rfl⟩ := hout
      have hall : g.inputs.all (Literal.eval α) = g.inputs.all (Literal.eval β) := by
        apply BoolFn.list_all_congr
        intro l hl
        have hlt := h.inputs_lt g hg l hl
        exact Literal.eval_congr (ih l.var hlt.2 hlt.1 (by omega))
      rw [hα g hg, hβ g hg, hall]
    · exact hfree v hpos hv fun g hg ho => hout ⟨g, hg, ho⟩

/-- Whatever values the other variables have, the outputs can be given theirs. -/
theorem Layered.exists_holds {gs : List Gate} (h : Layered gs) (α : Nat → Bool) :
    ∃ β, (∀ g ∈ gs, g.Holds β) ∧ ∀ v, (∀ g ∈ gs, g.output ≠ v) → β v = α v := by
  -- By induction: the earlier gates do not look at the output of the latest one.
  induction gs with
  | nil => exact ⟨α, by simp, fun v _ => rfl⟩
  | cons g gs ih =>
    obtain ⟨hi, ho, hl⟩ := h
    obtain ⟨β, hβ, hfree⟩ := ih hl
    let β' : Nat → Bool := fun v =>
      if v = g.output then g.inputs.all (Literal.eval β) else β v
    have hout : β' g.output = g.inputs.all (Literal.eval β) := if_pos rfl
    have hne : ∀ v, v ≠ g.output → β' v = β v := fun v hv => if_neg hv
    have hin : ∀ l ∈ g.inputs, l.eval β' = l.eval β := by
      intro l hl
      have := hi l hl
      exact Literal.eval_congr (hne _ (by omega))
    refine ⟨β', ?_, ?_⟩
    · intro g' hg'
      rcases List.mem_cons.1 hg' with rfl | hg'
      · show β' g'.output = g'.inputs.all (Literal.eval β')
        rw [hout, BoolFn.list_all_congr hin]
      · have hlt := ho g' hg'
        refine (Gate.holds_congr (hne _ (by omega)) fun l hl' => hne _ ?_).2 (hβ g' hg')
        have := hl.inputs_lt g' hg' l hl'
        omega
    · intro v hv
      rw [hne v fun h => hv g (List.mem_cons_self ..) h.symm]
      exact hfree v fun g' hg' => hv g' (List.mem_cons_of_mem _ hg')

end Gate

namespace Encoder

/-! ## Folding -/

theorem eval_truth (α : Nat → Bool) : truth.eval α = α 1 :=
  Literal.eval_pos α 1

theorem eval_falsity (α : Nat → Bool) : falsity.eval α = !α 1 := by
  rw [falsity, Literal.eval_neg, eval_truth]

/-- What a list of inputs comes down to has the value of their conjunction. -/
def Folded.Sound (ls : List Literal) : Folded → Prop
  | .known l  => (l = truth ∨ l = falsity ∨ l ∈ ls) ∧
      ∀ α : Nat → Bool, α 1 = true → l.eval α = ls.all (Literal.eval α)
  | .gate key => (∀ l ∈ key, l ∈ ls) ∧
      ∀ α : Nat → Bool, α 1 = true → key.all (Literal.eval α) = ls.all (Literal.eval α)

/-- The inputs that are not true anyway. -/
theorem all_sortedSet_filter (ls : List Literal) {α : Nat → Bool} (hα : α 1 = true) :
    (Literal.sortedSet (ls.filter fun l => l ≠ truth)).all (Literal.eval α)
      = ls.all (Literal.eval α) := by
  rw [Bool.eq_iff_iff, List.all_eq_true, List.all_eq_true]
  simp only [Literal.mem_sortedSet, List.mem_filter, decide_eq_true_eq, and_imp]
  constructor
  · intro h l hl
    by_cases ht : l = truth
    · rw [ht, eval_truth, hα]
    · exact h l hl ht
  · intro h l hl _
    exact h l hl

theorem fold_sound (ls : List Literal) : (fold ls).Sound ls := by
  have hfalse : ∀ (α : Nat → Bool) (l : Literal), l ∈ ls → l.eval α = false →
      ls.all (Literal.eval α) = false := by
    intro α l hl h
    rw [List.all_eq_false]
    exact ⟨l, hl, by rw [h]; exact Bool.false_ne_true⟩
  unfold fold
  split
  · refine ⟨.inr (.inl rfl), fun α hα => ?_⟩
    have hf : falsity.eval α = false := by rw [eval_falsity, hα]; rfl
    rw [hfalse α falsity ‹_› hf, hf]
  · have hmem : ∀ l ∈ Literal.sortedSet (ls.filter fun l => l ≠ truth), l ∈ ls :=
      fun l hl => (List.mem_filter.1 (Literal.mem_sortedSet.1 hl)).1
    have hall := fun (α : Nat → Bool) (hα : α 1 = true) => all_sortedSet_filter ls hα
    generalize Literal.sortedSet (ls.filter fun l => l ≠ truth) = key at hmem hall
    dsimp only
    split
    · -- A literal and its complement are never true together.
      obtain ⟨l, hl, hn⟩ := Literal.exists_of_hasComplements ‹_›
      refine ⟨.inr (.inl rfl), fun α hα => ?_⟩
      rw [eval_falsity, hα]
      cases hv : l.eval α with
      | true => exact (hfalse α _ (hmem _ hn) (by rw [Literal.eval_neg, hv]; rfl)).symm
      | false => exact (hfalse α l (hmem l hl) hv).symm
    · split
      · refine ⟨.inl rfl, fun α hα => ?_⟩
        rw [← hall α hα, eval_truth, hα]
        rfl
      · refine ⟨.inr (.inr (hmem _ (List.mem_cons_self ..))), fun α hα => ?_⟩
        rw [← hall α hα, List.all_cons, List.all_nil, Bool.and_true]
      · exact ⟨hmem, hall⟩

end Encoder

end SatMemo
