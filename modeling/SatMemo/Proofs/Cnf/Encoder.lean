import SatMemo.Proofs.Cnf.Gates

/-! # Encoders

    An encoder's clauses say that the constant is true and that every gate holds.
    All its variables but the constant are either outputs of gates or were made
    as variables, never both, so that values for the latter determine everything
    and can be chosen freely.  A query is answered as well as the solver answers
    it: rightly if the solver is right, and at all if the solver always answers. -/

namespace SatMemo

namespace Encoder

variable {S : Cnf.Solver}

/-! ## The invariant -/

/-- A literal of a variable that the encoder has. -/
def Has (e : Encoder S) (l : Literal) : Prop :=
  1 ≤ l.var ∧ l.var ≤ e.varCount

/-- An encoder whose variables were made as `vars`, the earliest first. -/
structure Wf (e : Encoder S) (vars : List Literal) : Prop where
  clauses   : ∀ {α}, Cnf.eval α e.clauses = true ↔ α 1 = true ∧ ∀ g ∈ e.gates, g.Holds α
  positive  : 1 ≤ e.varCount
  layered   : Gate.Layered e.gates
  bounded   : ∀ g ∈ e.gates, 2 ≤ g.output ∧ g.output ≤ e.varCount
  /-- The table of outputs speaks of the gates that are there. -/
  outputs   : ∀ {key o}, e.outputs[key]? = some o → ⟨o, key⟩ ∈ e.gates
  /-- Variables are no outputs. -/
  numbered  : ∀ l ∈ vars, ∃ v, l = .pos v ∧ 2 ≤ v ∧ v ≤ e.varCount ∧ ∀ g ∈ e.gates, g.output ≠ v
  distinct  : vars.Nodup
  /-- There is nothing else. -/
  covered   : ∀ v, 2 ≤ v → v ≤ e.varCount → .pos v ∈ vars ∨ ∃ g ∈ e.gates, g.output = v

theorem wf_start : (start : Encoder S).Wf [] where
  clauses := by
    intro α
    simp [start, Cnf.eval, eval_truth]
  positive := Nat.le_refl 1
  layered := trivial
  bounded := by
    intro g hg
    cases hg
  outputs := by
    intro key o h
    simp [start] at h
  numbered := by
    intro l hl
    cases hl
  distinct := List.nodup_nil
  covered := by
    intro v h₂ h₁
    have : v ≤ 1 := h₁
    omega

theorem Wf.has_truth {e : Encoder S} {vars : List Literal} (h : e.Wf vars) : e.Has truth :=
  ⟨Nat.le_refl 1, h.positive⟩

theorem Wf.has_falsity {e : Encoder S} {vars : List Literal} (h : e.Wf vars) : e.Has falsity :=
  ⟨Nat.le_refl 1, h.positive⟩

theorem Has.neg {e : Encoder S} {l : Literal} (h : e.Has l) : e.Has (-l) := by
  unfold Has
  rwa [Literal.var_neg]

theorem Has.mono {e e' : Encoder S} (hle : e.varCount ≤ e'.varCount) {l : Literal} (h : e.Has l) :
    e'.Has l :=
  ⟨h.1, Nat.le_trans h.2 hle⟩

/-! ## Assignments of the variables -/

/-- Under `α` the variables have the values `γ`, the earliest `γ 0`. -/
def Fixes (vars : List Literal) (γ α : Nat → Bool) : Prop :=
  ∀ {i l}, vars[i]? = some l → l.eval α = γ i

theorem Fixes.of_append {vars more : List Literal} {γ α : Nat → Bool}
    (h : Fixes (vars ++ more) γ α) : Fixes vars γ α := by
  intro i l hl
  apply h
  have hi := (List.getElem?_eq_some_iff.1 hl).1
  rwa [List.getElem?_append_left hi]

/-- Whatever values the variables have, the outputs can be given theirs. -/
theorem Wf.exists_completion {e : Encoder S} {vars : List Literal} (h : e.Wf vars)
    {α : Nat → Bool} (hα : α 1 = true) :
    ∃ β, Cnf.eval β e.clauses = true ∧ ∀ v, (∀ g ∈ e.gates, g.output ≠ v) → β v = α v := by
  obtain ⟨β, hβ, hfree⟩ := h.layered.exists_holds α
  have h₁ : ∀ g ∈ e.gates, g.output ≠ 1 := by
    intro g hg
    have := (h.bounded g hg).1
    omega
  exact ⟨β, h.clauses.2 ⟨(hfree 1 h₁).trans hα, hβ⟩, hfree⟩

/-- Every choice of values for the variables extends to an assignment that makes all
    clauses true. -/
theorem Wf.exists_fixes {e : Encoder S} {vars : List Literal} (h : e.Wf vars) (γ : Nat → Bool) :
    ∃ β, Fixes vars γ β ∧ Cnf.eval β e.clauses = true := by
  -- Each variable gets the value of its place, and the constant is true.
  obtain ⟨β, hβ, hfree⟩ := h.exists_completion (α := fun v =>
    decide (v = 1) || γ (vars.idxOf (.pos v))) rfl
  refine ⟨β, ?_, hβ⟩
  intro i l hl
  obtain ⟨hi, hget⟩ := List.getElem?_eq_some_iff.1 hl
  obtain ⟨v, rfl, h₂, _, hout⟩ := h.numbered l (List.mem_of_getElem? hl)
  have hv : v ≠ 1 := by omega
  rw [Literal.eval_pos, hfree v hout, decide_eq_false hv, Bool.false_or, ← hget,
    h.distinct.idxOf_getElem i hi]

/-- The values of the variables determine those of all other variables. -/
theorem Wf.eq_of_fixes {e : Encoder S} {vars : List Literal} (h : e.Wf vars) {γ β β' : Nat → Bool}
    (hγ : Fixes vars γ β) (hγ' : Fixes vars γ β') (hβ : Cnf.eval β e.clauses = true)
    (hβ' : Cnf.eval β' e.clauses = true) : ∀ v, 1 ≤ v → v ≤ e.varCount → β v = β' v := by
  obtain ⟨h₁, hg⟩ := h.clauses.1 hβ
  obtain ⟨h₁', hg'⟩ := h.clauses.1 hβ'
  refine h.layered.eq_of_holds hg hg' fun v hpos hv hout => ?_
  -- A variable that is no output is the constant or was made as a variable.
  by_cases hv₁ : v = 1
  · rw [hv₁, h₁, h₁']
  · rcases h.covered v (by omega) hv with hmem | ⟨g, hg, ho⟩
    · obtain ⟨i, hi⟩ := List.mem_iff_getElem?.1 hmem
      have he := hγ hi
      rw [← hγ' hi] at he
      rwa [Literal.eval_pos, Literal.eval_pos] at he
    · exact absurd ho (hout g hg)

/-! ## Queries -/

/-- A query is about a constant, or it is the solver's answer. -/
theorem isSatisfiable_cases (e : Encoder S) (l : Literal) :
    l = truth ∧ e.isSatisfiable l = (.ok true, e) ∨
    l = falsity ∧ e.isSatisfiable l = (.ok false, e) ∨
    (∃ b, S.solve e.queries e.clauses l = some b ∧
      e.isSatisfiable l = (.ok b, { e with queries := e.queries + 1 })) ∨
    S.solve e.queries e.clauses l = none ∧
      e.isSatisfiable l = (.error .interrupted, { e with queries := e.queries + 1 }) := by
  unfold isSatisfiable
  by_cases ht : l = truth
  · exact .inl ⟨ht, if_pos ht⟩
  · by_cases hf : l = falsity
    · exact .inr (.inl ⟨hf, by rw [if_neg ht, if_pos hf]⟩)
    · rw [if_neg ht, if_neg hf]
      cases hsolve : S.solve e.queries e.clauses l with
      | some b => exact .inr (.inr (.inl ⟨b, rfl, rfl⟩))
      | none => exact .inr (.inr (.inr ⟨rfl, rfl⟩))

/-- The constants are what they are called, as far as the clauses go. -/
theorem Wf.satisfiable_truth {e : Encoder S} {vars : List Literal} (h : e.Wf vars) :
    Cnf.Satisfiable e.clauses truth := by
  obtain ⟨β, hβ, _⟩ := h.exists_completion (α := fun _ => true) rfl
  refine ⟨β, hβ, ?_⟩
  rw [eval_truth]
  exact (h.clauses.1 hβ).1

theorem Wf.not_satisfiable_falsity {e : Encoder S} {vars : List Literal} (h : e.Wf vars) :
    ¬ Cnf.Satisfiable e.clauses falsity := by
  rintro ⟨β, hβ, hl⟩
  rw [eval_falsity, (h.clauses.1 hβ).1] at hl
  exact Bool.false_ne_true hl

/-- With a solver that is right, an answer tells whether all clauses can be true together with
    the literal. -/
theorem Wf.isSatisfiable_iff (hS : S.Sound) {e : Encoder S} {vars : List Literal} (h : e.Wf vars)
    {l : Literal} {b : Bool} (hb : (e.isSatisfiable l).1 = .ok b) :
    b = true ↔ Cnf.Satisfiable e.clauses l := by
  obtain ⟨rfl, heq⟩ | ⟨rfl, heq⟩ | ⟨b', hsolve, heq⟩ | ⟨_, heq⟩ := isSatisfiable_cases e l
  · rw [heq] at hb
    cases hb
    exact iff_of_true rfl h.satisfiable_truth
  · rw [heq] at hb
    cases hb
    exact iff_of_false Bool.false_ne_true h.not_satisfiable_falsity
  · rw [heq] at hb
    cases hb
    exact hS hsolve
  · rw [heq] at hb
    cases hb

/-- With a solver that always answers, every query is answered. -/
theorem exists_isSatisfiable_eq_ok (hS : S.Exact) (e : Encoder S) (l : Literal) :
    ∃ b, (e.isSatisfiable l).1 = .ok b := by
  obtain ⟨_, heq⟩ | ⟨_, heq⟩ | ⟨b, _, heq⟩ | ⟨hnone, _⟩ := isSatisfiable_cases e l
  · exact ⟨true, congrArg Prod.fst heq⟩
  · exact ⟨false, congrArg Prod.fst heq⟩
  · exact ⟨b, congrArg Prod.fst heq⟩
  · obtain ⟨b, hb⟩ := hS.answers e.queries e.clauses l
    cases hnone.symm.trans hb

/-- A query changes nothing but the count of queries. -/
theorem isSatisfiable_encoder (e : Encoder S) (l : Literal) :
    ∃ queries, (e.isSatisfiable l).2 = { e with queries } := by
  obtain ⟨_, heq⟩ | ⟨_, heq⟩ | ⟨_, _, heq⟩ | ⟨_, heq⟩ := isSatisfiable_cases e l
  all_goals exact ⟨_, congrArg Prod.snd heq⟩

theorem Wf.with_queries {e : Encoder S} {vars : List Literal} (h : e.Wf vars) (queries : Nat) :
    Wf (S := S) { e with queries } vars :=
  ⟨h.clauses, h.positive, h.layered, h.bounded, h.outputs, h.numbered, h.distinct, h.covered⟩

/-! ## New variables -/

theorem Wf.newVariable {e : Encoder S} {vars : List Literal} (h : e.Wf vars) (name : String) :
    (e.newVariable name).2.Wf (vars ++ [(e.newVariable name).1]) where
  clauses := h.clauses
  positive := Nat.le_add_left 1 _
  layered := h.layered
  bounded := by
    intro g hg
    have := h.bounded g hg
    exact ⟨this.1, Nat.le_succ_of_le this.2⟩
  outputs := h.outputs
  numbered := by
    intro l hl
    rcases List.mem_append.1 hl with hl | hl
    · obtain ⟨v, hv, h₂, hle, hout⟩ := h.numbered l hl
      exact ⟨v, hv, h₂, Nat.le_succ_of_le hle, hout⟩
    · rw [List.mem_singleton] at hl
      have := h.positive
      refine ⟨e.varCount + 1, hl, by omega, Nat.le_refl _, ?_⟩
      intro g hg
      have := (h.bounded g hg).2
      omega
  distinct := by
    rw [List.nodup_append]
    refine ⟨h.distinct, List.pairwise_singleton _ _, ?_⟩
    intro l hl l' hl' heq
    obtain ⟨v, rfl, _, hle, _⟩ := h.numbered l hl
    rw [List.mem_singleton] at hl'
    have := congrArg Literal.var (heq.trans hl')
    rw [Literal.var_pos] at this
    change v = (Literal.pos (e.varCount + 1)).var at this
    rw [Literal.var_pos] at this
    omega
  covered := by
    intro v h₂ hv
    by_cases hlast : v = e.varCount + 1
    · left
      rw [hlast]
      exact List.mem_append_right _ (List.mem_cons_self ..)
    · have hle : v ≤ e.varCount := by
        have : v ≤ e.varCount + 1 := hv
        omega
      rcases h.covered v h₂ hle with hmem | hout
      · exact .inl (List.mem_append_left _ hmem)
      · exact .inr hout

/-! ## New gates -/

theorem Wf.addGate {e : Encoder S} {vars : List Literal} (h : e.Wf vars) {key : List Literal}
    (hkey : ∀ l ∈ key, e.Has l) : (e.addGate key).2.Wf vars where
  clauses := by
    intro α
    show Cnf.eval α ((Gate.clauses ⟨e.varCount + 1, key⟩).reverse ++ e.clauses) = true ↔
      α 1 = true ∧ ∀ g ∈ ⟨e.varCount + 1, key⟩ :: e.gates, g.Holds α
    rw [List.forall_mem_cons, ← Gate.eval_clauses_iff, Cnf.eval, List.all_append,
      List.all_reverse, Bool.and_eq_true]
    change _ ∧ Cnf.eval α e.clauses = true ↔ _
    rw [h.clauses]
    exact and_left_comm
  positive := Nat.le_add_left 1 _
  layered := by
    refine ⟨?_, ?_, h.layered⟩
    · intro l hl
      exact ⟨(hkey l hl).1, Nat.lt_succ_of_le (hkey l hl).2⟩
    · intro g hg
      exact Nat.lt_succ_of_le (h.bounded g hg).2
  bounded := by
    have := h.positive
    intro g hg
    rcases List.mem_cons.1 hg with rfl | hg
    · exact ⟨by show 2 ≤ e.varCount + 1; omega, Nat.le_refl _⟩
    · exact ⟨(h.bounded g hg).1, Nat.le_succ_of_le (h.bounded g hg).2⟩
  outputs := by
    intro key' o ho
    change (e.outputs.insert key (e.varCount + 1))[key']? = some o at ho
    rw [Std.TreeMap.getElem?_insert] at ho
    split at ho
    · have hk := Std.LawfulEqCmp.compare_eq_iff_eq.1 ‹_›
      rw [← Option.some.inj ho, ← hk]
      exact List.mem_cons_self ..
    · exact List.mem_cons_of_mem _ (h.outputs ho)
  numbered := by
    intro l hl
    obtain ⟨v, hv, h₂, hle, hout⟩ := h.numbered l hl
    refine ⟨v, hv, h₂, Nat.le_succ_of_le hle, ?_⟩
    intro g hg
    rcases List.mem_cons.1 hg with rfl | hg
    · show e.varCount + 1 ≠ v
      omega
    · exact hout g hg
  distinct := h.distinct
  covered := by
    intro v h₂ hv
    by_cases hlast : v = e.varCount + 1
    · exact .inr ⟨_, List.mem_cons_self .., hlast.symm⟩
    · have hle : v ≤ e.varCount := by
        have : v ≤ e.varCount + 1 := hv
        omega
      rcases h.covered v h₂ hle with hmem | ⟨g, hg, ho⟩
      · exact .inl hmem
      · exact .inr ⟨g, List.mem_cons_of_mem _ hg, ho⟩

/-- What an encoding of `F` comes to. -/
structure Encodes (e : Encoder S) (vars : List Literal) (F : (Nat → Bool) → Bool) (r : Encoded S) :
    Prop where
  wf      : r.encoder.Wf vars
  grown   : e.varCount ≤ r.encoder.varCount
  has     : r.encoder.Has r.literal
  /-- Clauses are only added. -/
  clauses : ∀ {β}, Cnf.eval β r.encoder.clauses = true → Cnf.eval β e.clauses = true
  eval    : ∀ {β}, Cnf.eval β r.encoder.clauses = true → r.literal.eval β = F β

theorem Wf.encodes_conjunction {e : Encoder S} {vars : List Literal} (h : e.Wf vars)
    {ls : List Literal} (hls : ∀ l ∈ ls, e.Has l) :
    e.Encodes vars (fun β => ls.all (Literal.eval β)) (e.conjunction ls) := by
  have hfold := fold_sound ls
  unfold conjunction
  split
  · -- The conjunction comes down to a literal that is there.
    rename_i l hl
    rw [hl] at hfold
    obtain ⟨hmem, heval⟩ := hfold
    refine ⟨h, Nat.le_refl _, ?_, id, fun hβ => heval _ (h.clauses.1 hβ).1⟩
    rcases hmem with rfl | rfl | hmem
    · exact h.has_truth
    · exact h.has_falsity
    · exact hls l hmem
  · rename_i key hkey
    rw [hkey] at hfold
    obtain ⟨hmem, heval⟩ := hfold
    have hhas : ∀ l ∈ key, e.Has l := fun l hl => hls l (hmem l hl)
    split
    · -- There is a gate for these inputs already.
      rename_i g hg
      unfold gate? at hg
      obtain ⟨o, ho, rfl⟩ := Option.map_eq_some_iff.1 hg
      have hgate := h.outputs ho
      have hbound := h.bounded _ hgate
      refine ⟨h, Nat.le_refl _, ?_, id, ?_⟩
      · show 1 ≤ (Literal.pos o).var ∧ (Literal.pos o).var ≤ e.varCount
        rw [Literal.var_pos]
        exact ⟨by have := hbound.1; dsimp only at this; omega, hbound.2⟩
      · intro β hβ
        obtain ⟨h₁, hholds⟩ := h.clauses.1 hβ
        show (Literal.pos o).eval β = _
        rw [Literal.eval_pos, ← heval β h₁]
        exact hholds _ hgate
    · -- A gate is made, and its output is new.
      have hwf := h.addGate hhas
      refine ⟨hwf, Nat.le_succ _, ?_, ?_, ?_⟩
      · show 1 ≤ (Literal.pos (e.varCount + 1)).var ∧
          (Literal.pos (e.varCount + 1)).var ≤ e.varCount + 1
        rw [Literal.var_pos]
        exact ⟨Nat.le_add_left 1 _, Nat.le_refl _⟩
      · intro β hβ
        obtain ⟨h₁, hholds⟩ := hwf.clauses.1 hβ
        exact h.clauses.2 ⟨h₁, fun g hg => hholds g (List.mem_cons_of_mem _ hg)⟩
      · intro β hβ
        obtain ⟨h₁, hholds⟩ := hwf.clauses.1 hβ
        show (Literal.pos (e.varCount + 1)).eval β = _
        rw [Literal.eval_pos, ← heval β h₁]
        exact hholds ⟨e.varCount + 1, key⟩ (List.mem_cons_self ..)

/-- A disjunction is the complement of the conjunction of the complements. -/
theorem Wf.encodes_disjunction {e : Encoder S} {vars : List Literal} (h : e.Wf vars)
    {ls : List Literal} (hls : ∀ l ∈ ls, e.Has l) :
    e.Encodes vars (fun β => ls.any (Literal.eval β)) (e.disjunction ls) := by
  have hneg : ∀ l ∈ ls.map fun l => -l, e.Has l := by
    intro l hl
    obtain ⟨k, hk, rfl⟩ := List.mem_map.1 hl
    exact (hls k hk).neg
  have hc := h.encodes_conjunction hneg
  refine ⟨hc.wf, hc.grown, hc.has.neg, hc.clauses, fun {β} hβ => ?_⟩
  have heval := hc.eval hβ
  show (-(e.conjunction (ls.map fun l => -l)).literal).eval β = _
  rw [Literal.eval_neg, heval, List.all_map, List.not_all_eq_any_not]
  simp

end Encoder

end SatMemo
