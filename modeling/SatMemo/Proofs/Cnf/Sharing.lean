import SatMemo.Proofs.Cnf.Exact
import SatMemo.Worklist

/-! # Gates are shared

    The inputs of a conjunction come down to a set: the constant true is dropped,
    the others are sorted by code, each kept once.  Two lists with the same set
    come down to the same, so that the second one finds the gate of the first,
    however many gates were added in between, since none is ever taken out.

    `Tidy` says what the gates look like at any time and how many variables and
    clauses there are.  A key is strictly ascending, which puts the two literals
    of a variable next to each other; that is why looking at neighbours finds
    every complementary pair. -/

namespace SatMemo

/-! ## Ascending lists -/

namespace Literal

/-- Strictly sorted by code. -/
def Ascending (ls : List Literal) : Prop :=
  ls.Pairwise fun k l => k.code < l.code

theorem ascending_sortedSet (ls : List Literal) : Ascending (sortedSet ls) := by
  refine (Std.TreeSet.ordered_toList (t := Std.TreeSet.ofList ls)).imp ?_
  intro k l (h : compare k.code l.code = .lt)
  exact Nat.compare_eq_lt.1 h

/-- A set has one ascending list. -/
theorem sortedSet_congr {ks ls : List Literal} (h : ∀ l, l ∈ ks ↔ l ∈ ls) :
    sortedSet ks = sortedSet ls := by
  refine (Std.TreeSet.Equiv.of_forall_mem_iff fun l => ?_).toList_eq
  simp only [Std.TreeSet.mem_ofList, List.contains_iff_mem]
  exact h l

theorem code_neg (l : Literal) :
    (-l).code = if l.code % 2 = 0 then l.code + 1 else l.code - 1 := rfl

theorem neg_ne (l : Literal) : -l ≠ l := by
  intro h
  have hc := congrArg code h
  rw [code_neg] at hc
  split at hc <;> omega

/-- In an ascending list the complement of the first literal can only be the second one. -/
theorem Ascending.eq_neg_of_mem {k l : Literal} {rest : List Literal}
    (h : Ascending (k :: l :: rest)) (hk : -k ∈ l :: rest) : l = -k := by
  obtain ⟨hfirst, hrest⟩ := List.pairwise_cons.1 h
  rcases List.mem_cons.1 hk with hk | hk
  · exact hk.symm
  · -- The codes of `k`, of `l` and of the complement ascend, but the first and the last
    -- differ by one.
    have hkl : k.code < l.code := hfirst l List.mem_cons_self
    have hlk : l.code < (-k).code := (List.pairwise_cons.1 hrest).1 _ hk
    rw [code_neg] at hlk
    split at hlk <;> omega

/-- Complements that are there are found. -/
theorem Ascending.hasComplements {ls : List Literal} (h : Ascending ls) {l : Literal}
    (hl : l ∈ ls) (hn : -l ∈ ls) : Literal.hasComplements ls = true := by
  induction ls with
  | nil => cases hl
  | cons k rest ih =>
    cases rest with
    | nil =>
      rw [List.mem_singleton] at hl hn
      exact absurd (hn.trans hl.symm) (neg_ne l)
    | cons k' rest =>
      unfold Literal.hasComplements
      by_cases hk : k' = -k
      · simp [hk]
      · -- Neither of the two is the first literal, so both come behind it.
        have hfirst : -k ∉ k' :: rest := fun hmem => hk (h.eq_neg_of_mem hmem)
        have hl' : l ∈ k' :: rest := by
          rcases List.mem_cons.1 hl with rfl | hl
          · exact absurd ((List.mem_cons.1 hn).resolve_left (neg_ne l)) hfirst
          · exact hl
        have hn' : -l ∈ k' :: rest := by
          rcases List.mem_cons.1 hn with rfl | hn
          · rw [neg_neg] at hfirst
            exact absurd hl' hfirst
          · exact hn
        rw [ih (List.pairwise_cons.1 h).2 hl' hn', Bool.or_true]

end Literal

theorem Gate.length_clauses (g : Gate) : g.clauses.length = g.inputs.length + 1 := by
  simp [Gate.clauses]

namespace Encoder

variable {S : Cnf.Solver}

/-! ## Sets of inputs -/

/-- The same literals, the constant true apart. -/
def SameInputs (ks ls : List Literal) : Prop :=
  ∀ l, l ≠ truth → (l ∈ ks ↔ l ∈ ls)

/-- Order, repetitions and the constant true make no difference. -/
theorem fold_congr {ks ls : List Literal} (h : SameInputs ks ls) : fold ks = fold ls := by
  have hfalse : falsity ∈ ks ↔ falsity ∈ ls := h falsity (by decide)
  have hkey : Literal.sortedSet (ks.filter fun l => l ≠ truth)
      = Literal.sortedSet (ls.filter fun l => l ≠ truth) := by
    refine Literal.sortedSet_congr fun l => ?_
    simp only [List.mem_filter, decide_eq_true_eq]
    exact and_congr_left (h l)
  unfold fold
  simp only [hfalse, hkey]

/-- What the inputs of a gate look like. -/
structure Normal (key : List Literal) : Prop where
  ascending : Literal.Ascending key
  two       : 2 ≤ key.length
  truth     : truth ∉ key
  falsity   : falsity ∉ key
  /-- There is no complementary pair. -/
  plain     : ∀ l ∈ key, -l ∉ key

theorem normal_of_fold {ls key : List Literal} (h : fold ls = .gate key) : Normal key := by
  have hasc := Literal.ascending_sortedSet (ls.filter fun l => l ≠ truth)
  have hmem : ∀ l, l ∈ Literal.sortedSet (ls.filter fun l => l ≠ truth) → l ∈ ls ∧ l ≠ truth := by
    intro l hl
    simpa [Literal.mem_sortedSet] using hl
  unfold fold at h
  split at h
  · cases h
  · rename_i hfalse
    generalize Literal.sortedSet (ls.filter fun l => l ≠ truth) = key' at h hasc hmem
    dsimp only at h
    split at h
    · cases h
    · rename_i hplain
      split at h
      · cases h
      · cases h
      · rename_i hnil hone
        cases h
        refine ⟨hasc, ?_, fun ht => (hmem _ ht).2 rfl, fun hf => hfalse (hmem _ hf).1,
          fun l hl hn => hplain (hasc.hasComplements hl hn)⟩
        match key, hnil, hone with
        | [], hnil, _           => exact absurd rfl hnil
        | [l], _, hone          => exact absurd rfl (hone l)
        | k :: l :: rest, _, _  => simp

/-! ## Gates are kept -/

/-- The gate of every set of inputs is still there. -/
def Keeps (e e' : Encoder S) : Prop :=
  ∀ ⦃key : List Literal⦄ ⦃o : Nat⦄, e.outputs[key]? = some o → e'.outputs[key]? = some o

theorem Keeps.refl (e : Encoder S) : e.Keeps e :=
  fun _ _ h => h

theorem Keeps.trans {e₁ e₂ e₃ : Encoder S} (h : e₁.Keeps e₂) (h' : e₂.Keeps e₃) : e₁.Keeps e₃ :=
  fun _ _ ho => h' (h ho)

theorem gate?_eq_none_iff {e : Encoder S} {key : List Literal} :
    e.gate? key = none ↔ e.outputs[key]? = none :=
  Option.map_eq_none_iff

theorem getElem?_addGate (e : Encoder S) (key key' : List Literal) :
    (e.addGate key).2.outputs[key']?
      = if key = key' then some (e.varCount + 1) else e.outputs[key']? := by
  show (e.outputs.insert key (e.varCount + 1))[key']? = _
  simp only [Std.TreeMap.getElem?_insert, Std.LawfulEqCmp.compare_eq_iff_eq]

theorem keeps_addGate {e : Encoder S} {key : List Literal} (hnew : e.outputs[key]? = none) :
    e.Keeps (e.addGate key).2 := by
  intro key' o ho
  rw [getElem?_addGate, if_neg]
  · exact ho
  · rintro rfl
    rw [hnew] at ho
    cases ho

theorem keeps_conjunction (e : Encoder S) (ls : List Literal) :
    e.Keeps (e.conjunction ls).encoder := by
  unfold conjunction
  split
  · exact .refl e
  · split
    · exact .refl e
    · exact keeps_addGate (gate?_eq_none_iff.1 ‹_›)

/-- No call takes a gate out. -/
theorem keeps_run {e e' : Encoder S} {q : Maker Literal} {l : Literal} {events : List Event}
    (h : q.run e = ⟨.ok l, e', events⟩) : e.Keeps e' := by
  cases q with
  | constTrue | constFalse | complement x | newVariable name =>
    cases h
    exact fun _ _ ho => ho
  | conjunction xs =>
    cases h
    exact keeps_conjunction e xs
  | disjunction xs =>
    cases h
    exact keeps_conjunction e (xs.map fun l => -l)

theorem Keeps.later {t t' : Talk (Encoder S) Literal} (h : t.Later t') :
    t.state.Keeps t'.state := by
  induction h with
  | refl => exact .refl _
  | make _ _ hrun ih => exact ih.trans (keeps_run hrun)
  | @query t' x _ e _ _ _ hrun ih =>
    obtain ⟨queries, he⟩ := isSatisfiable_encoder t'.state x.1
    have hstate : (t'.state.isSatisfiable x.1).2 = e := congrArg Reply.state hrun
    rw [he] at hstate
    subst hstate
    exact fun _ _ ho => ih ho

/-- A conjunction that was made once is found again. -/
theorem conjunction_again {e e' : Encoder S} {ks ls : List Literal}
    (hk : (e.conjunction ks).encoder.Keeps e') (h : SameInputs ks ls) :
    e'.conjunction ls = ⟨(e.conjunction ks).literal, e', []⟩ := by
  unfold conjunction at hk ⊢
  rw [← fold_congr h]
  cases hfold : fold ks with
  | known l => rfl
  | gate key =>
    simp only [hfold] at hk ⊢
    cases hgate : e.gate? key with
    | some g =>
      obtain ⟨o, ho, rfl⟩ := Option.map_eq_some_iff.1 hgate
      simp only [hgate] at hk ⊢
      simp only [gate?, hk ho, Option.map_some]
    | none =>
      simp only [hgate] at hk ⊢
      have ho := hk ((getElem?_addGate e key key).trans (if_pos rfl))
      simp only [gate?, ho, Option.map_some]
      rfl

/-! ## Gates, variables and clauses -/

/-- The gates of an encoder with `count` variables that were made as such. -/
structure Tidy (e : Encoder S) (count : Nat) : Prop where
  keys     : ∀ g ∈ e.gates, Normal g.inputs
  layered  : ∀ g ∈ e.gates, ∀ l ∈ g.inputs, l.var < g.output
  /-- Different gates have different inputs and different outputs. -/
  distinct : e.gates.Pairwise fun g g' => g.inputs ≠ g'.inputs ∧ g.output ≠ g'.output
  /-- The table of outputs holds the gates and nothing else. -/
  table    : ∀ (key : List Literal) (o : Nat), e.outputs[key]? = some o ↔ ⟨o, key⟩ ∈ e.gates
  size     : e.outputs.size = e.gates.length
  varCount : e.varCount = 1 + count + e.gates.length
  clauses  : e.clauses.length = 1 + totalWeight (fun g => g.inputs.length + 1) e.gates

theorem tidy_start : (start : Encoder S).Tidy 0 where
  keys := fun g hg => absurd hg List.not_mem_nil
  layered := fun g hg => absurd hg List.not_mem_nil
  distinct := .nil
  table := by simp [start]
  size := rfl
  varCount := rfl
  clauses := rfl

theorem Tidy.addGate {e : Encoder S} {count : Nat} {vars : List Literal} (h : e.Tidy count)
    (hw : e.Wf vars) {key : List Literal} (hkey : Normal key) (hhas : ∀ l ∈ key, e.Has l)
    (hnew : e.outputs[key]? = none) : (e.addGate key).2.Tidy count where
  keys := List.forall_mem_cons.2 ⟨hkey, h.keys⟩
  layered := List.forall_mem_cons.2 ⟨fun l hl => Nat.lt_succ_of_le (hhas l hl).2, h.layered⟩
  distinct := by
    refine List.pairwise_cons.2 ⟨fun g hg => ⟨?_, ?_⟩, h.distinct⟩
    · -- A gate with these inputs would be in the table.
      rintro rfl
      have ho := (h.table g.inputs g.output).2 hg
      rw [hnew] at ho
      cases ho
    · have hle := (hw.bounded g hg).2
      show e.varCount + 1 ≠ g.output
      omega
  table := by
    intro key' o
    show _ ↔ _ ∈ ⟨e.varCount + 1, key⟩ :: e.gates
    rw [getElem?_addGate, List.mem_cons, Gate.mk.injEq, ← h.table]
    split
    · rename_i heq
      subst heq
      simp [hnew, eq_comm]
    · rename_i hne
      simp [Ne.symm hne]
  size := by
    have hout : e.outputs.contains key = false := by
      rw [Std.TreeMap.contains_eq_isSome_getElem?, hnew]
      rfl
    show (e.outputs.insert key (e.varCount + 1)).size = e.gates.length + 1
    rw [Std.TreeMap.size_insert, hout, h.size]
    rfl
  varCount := by
    have hcount := h.varCount
    show e.varCount + 1 = 1 + count + (e.gates.length + 1)
    omega
  clauses := by
    have hcount := h.clauses
    show ((Gate.clauses ⟨e.varCount + 1, key⟩).reverse ++ e.clauses).length
      = 1 + (key.length + 1 + totalWeight (fun g => g.inputs.length + 1) e.gates)
    rw [List.length_append, List.length_reverse, Gate.length_clauses, hcount]
    dsimp only
    omega

theorem Tidy.newVariable {e : Encoder S} {count : Nat} (h : e.Tidy count) (name : String) :
    (e.newVariable name).2.Tidy (count + 1) where
  keys := h.keys
  layered := h.layered
  distinct := h.distinct
  table := h.table
  size := h.size
  varCount := by
    have hcount := h.varCount
    show e.varCount + 1 = 1 + (count + 1) + e.gates.length
    omega
  clauses := h.clauses

theorem Tidy.conjunction {e : Encoder S} {count : Nat} {vars : List Literal} (h : e.Tidy count)
    (hw : e.Wf vars) {ls : List Literal} (hls : ∀ l ∈ ls, e.Has l) :
    (e.conjunction ls).encoder.Tidy count := by
  unfold Encoder.conjunction
  split
  · exact h
  · rename_i key hfold
    split
    · exact h
    · have hhas : ∀ l ∈ key, e.Has l := by
        have hsound := fold_sound ls
        rw [hfold] at hsound
        exact fun l hl => hls l (hsound.1 l hl)
      exact h.addGate hw (normal_of_fold hfold) hhas (gate?_eq_none_iff.1 ‹_›)

/-- Every call that is answered keeps the gates tidy. -/
theorem Tidy.made {t : Talk (Encoder S) Literal} (h : t.state.Tidy t.vars.length) (ht : Truthful t)
    {q : Maker (Literal × BoolFn)} (hq : t.Knows q) {l : Literal} {e : Encoder S}
    {events : List Event} (hrun : (q.map Prod.fst).run t.state = ⟨.ok l, e, events⟩) :
    e.Tidy (t.made q l e).vars.length := by
  have hhas : ∀ k ∈ (q.map Prod.fst).operands, t.state.Has k := by
    intro k hk
    rw [Maker.operands_map] at hk
    obtain ⟨x, hx, rfl⟩ := List.mem_map.1 hk
    exact ht.has x (hq x hx)
  cases q with
  | constTrue | constFalse | complement x =>
    cases hrun
    exact h
  | newVariable name =>
    cases hrun
    show Tidy _ (t.vars ++ [_]).length
    rw [List.length_append]
    exact h.newVariable name
  | conjunction xs =>
    cases hrun
    exact h.conjunction ht.wf hhas
  | disjunction xs =>
    cases hrun
    refine h.conjunction ht.wf fun k hk => ?_
    obtain ⟨l, hl, rfl⟩ := List.mem_map.1 hk
    exact (hhas l hl).neg

theorem tidy_of_reached {t : Talk (Encoder S) Literal} (ht : Talk.Reached start t) :
    t.state.Tidy t.vars.length := by
  induction ht with
  | start => exact tidy_start
  | make ht hq hrun ih => exact ih.made (truthful_of_reached ht) hq hrun
  | @query t x _ e _ _ _ hrun ih =>
    obtain ⟨queries, he⟩ := isSatisfiable_encoder t.state x.1
    have hstate : (t.state.isSatisfiable x.1).2 = e := congrArg Reply.state hrun
    rw [he] at hstate
    subst hstate
    exact ⟨ih.keys, ih.layered, ih.distinct, ih.table, ih.size, ih.varCount, ih.clauses⟩

/-! ## Sharing -/

/-- The conjunction of `ks` is there, as `l`: whoever asks for it, or for the disjunction that
    it is the complement of, gets it, and nothing is added. -/
structure Shares (e : Encoder S) (ks : List Literal) (l : Literal) : Prop where
  conjunction : ∀ ls, SameInputs ks ls → Decider.makeAnd e ls = .ok l e
  disjunction : ∀ ls, SameInputs ks (ls.map fun k => -k) → Decider.makeOr e ls = .ok (-l) e

theorem Keeps.shares {e e' : Encoder S} {ks : List Literal}
    (hk : (e.conjunction ks).encoder.Keeps e') : e'.Shares ks (e.conjunction ks).literal where
  conjunction := by
    intro ls hls
    show (e'.conjunction ls).reply = _
    rw [conjunction_again hk hls]
    rfl
  disjunction := by
    intro ls hls
    show (e'.disjunction ls).reply = _
    unfold Encoder.disjunction
    rw [conjunction_again hk hls]
    rfl

/-- **Gates are shared.** Whatever was asked of an encoder before, and whatever its solver is:

    - the conjunction of literals returned before is answered, and with the same literal at any
      later time, for any list with the same literals, the constant true apart;
    - their disjunction is the complement of the conjunction of the complements, and shares its
      gate;
    - the gates are tidy. -/
theorem gates_shared {t : Talk (Encoder S) Literal} (ht : Talk.Reached start t) :
    (∀ xs, t.Knows (.conjunction xs) → ∃ l e events,
      Decider.makeAnd t.state (xs.map Prod.fst) = ⟨.ok l, e, events⟩ ∧
      ∀ t', (t.made (.conjunction xs) l e).Later t' → t'.state.Shares (xs.map Prod.fst) l) ∧
    (∀ xs, t.Knows (.disjunction xs) → ∃ l e events,
      Decider.makeOr t.state (xs.map Prod.fst) = ⟨.ok l, e, events⟩ ∧
      Decider.makeAnd t.state ((xs.map Prod.fst).map fun k => -k) = ⟨.ok (-l), e, events⟩ ∧
      ∀ t', (t.made (.disjunction xs) l e).Later t' →
        t'.state.Shares ((xs.map Prod.fst).map fun k => -k) (-l)) ∧
    t.state.Tidy t.vars.length := by
  refine ⟨fun xs _ => ?_, fun xs _ => ?_, tidy_of_reached ht⟩
  · refine ⟨_, _, _, rfl, fun t' hl => Keeps.shares ?_⟩
    exact Keeps.later hl
  · have hneg : -(t.state.disjunction (xs.map Prod.fst)).literal
        = (t.state.conjunction ((xs.map Prod.fst).map fun k => -k)).literal := Literal.neg_neg _
    refine ⟨_, _, _, rfl, ?_, fun t' hl => ?_⟩
    · rw [hneg]
      rfl
    · rw [hneg]
      refine Keeps.shares ?_
      exact Keeps.later hl

/-- The conjunction of two variables is found again after a third one was made. -/
theorem gates_shared_permuted :
    ∃ (t : Talk Encoder Literal) (l : Literal), Talk.Reached start t ∧ t.vars.length = 3 ∧
      (l, BoolFn.all [.var 0, .var 1]) ∈ t.given ∧
      Decider.makeAnd t.state [.pos 3, .pos 2, truth, .pos 3] = .ok l t.state := by
  obtain ⟨t, ht, hvars, hgiven⟩ : ∃ t : Talk Encoder Literal, Talk.Reached start t ∧
      t.vars.length = 2 ∧ t.given = [(.pos 3, .var 1), (.pos 2, .var 0)] := by
    have h₀ : Talk.Reached start (Talk.start (start : Encoder)) := Talk.Reached.start
    have h₁ := h₀.make (q := .newVariable "x") (Talk.knows_newVariable _ _) rfl
    exact ⟨_, h₁.make (q := .newVariable "y") (Talk.knows_newVariable _ _) rfl, rfl, rfl⟩
  let xs : List (Literal × BoolFn) := [(.pos 2, .var 0), (.pos 3, .var 1)]
  have hq : t.Knows (.conjunction xs) := by
    intro x hx
    rw [hgiven]
    simpa [xs, Maker.operands, or_comm] using hx
  obtain ⟨l, e, events, hrun, hshares⟩ := (gates_shared ht).1 xs hq
  have ht' := (ht.make hq hrun).make (q := .newVariable "z") (Talk.knows_newVariable _ _) rfl
  have hlater := (Talk.Later.refl (t := t.made (.conjunction xs) l e)).make
    (q := .newVariable "z") (Talk.knows_newVariable _ _) rfl
  have hsame : SameInputs (xs.map Prod.fst) [.pos 3, .pos 2, truth, .pos 3] := by
    intro k hk
    simp only [xs, List.map_cons, List.map_nil, List.mem_cons, List.not_mem_nil, or_false, hk,
      false_or]
    grind
  refine ⟨_, l, ht', ?_, List.mem_cons_of_mem _ List.mem_cons_self,
    (hshares _ hlater).conjunction _ hsame⟩
  show (t.vars ++ [_]).length = 3
  rw [List.length_append, hvars]
  rfl

end Encoder

end SatMemo
