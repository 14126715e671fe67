import SatMemo.Proofs.Library.Simulation

/-! # Tidy graphs

    Signals are evaluated on the stored nodes (`evaluate`), and that is the value
    a reader gets who knows the graph by kinds, operands and names only
    (`Wf.evaluate_eq`).

    A graph is `Tidy` if every gate stands behind two different nodes, neither of
    them the constant, with the smaller signal first, and if the inputs are
    counted.  The rules that save a gate keep the other gates out, so making a
    signal keeps a graph tidy. -/

namespace SatMemo

namespace Aig

variable {G : Generator} {a : Aig G} {s l r : Signal} {ρ : String → Bool}

/-! ## Values on the stored nodes -/

/-- The value of a signal whose node is numbered below `depth`. -/
def evaluateAt (a : Aig G) (ρ : String → Bool) : (depth : Nat) → Signal → Bool
  | 0, _         => false
  | depth + 1, s =>
      s.isNegated ^^ match a.node s.index with
        | .ok none               => false
        | .ok (some (.input x))  => ρ x
        | .ok (some (.and l r))  => evaluateAt a ρ depth l && evaluateAt a ρ depth r
        | .error _               => false

/-- The value of a signal, from the values of the inputs by name. -/
def evaluate (a : Aig G) (ρ : String → Bool) (s : Signal) : Bool :=
  evaluateAt a ρ (a.nodes.size + 1) s

/-- Complementing a signal complements its value. -/
theorem evaluateAt_negate (depth i : Nat) :
    a.evaluateAt ρ (depth + 1) (Signal.ofIndex i).negate
      = !a.evaluateAt ρ (depth + 1) (Signal.ofIndex i) := by
  unfold evaluateAt
  rw [Signal.index_negate, Signal.isNegated_negate_ofIndex, Signal.isNegated_ofIndex,
    Bool.true_xor, Bool.false_xor]

/-- A plain signal has the value of its node. -/
theorem evaluateAt_ofIndex {i : Nat} {v : Node} (depth : Nat) (hv : a.nodes.value i = .ok v) :
    a.evaluateAt ρ (depth + 1) (.ofIndex i) = match v with
      | .input x => ρ x
      | .and l r => a.evaluateAt ρ depth l && a.evaluateAt ρ depth r := by
  rw [evaluateAt, Signal.isNegated_ofIndex, Bool.false_xor, Signal.index_ofIndex,
    node_of_value hv]
  cases v with
  | input x => rfl
  | and l r => rfl

/-- At any depth that is enough, the value on the stored nodes is the value that kinds, operands
    and names give. -/
theorem Wf.evaluateAt_eq (h : a.Wf) {depth : Nat} (hs : a.Has s) (hdepth : s.index < depth) :
    a.evaluateAt ρ depth s = a.eval ρ s := by
  induction depth generalizing s with
  | zero => exact absurd hdepth (Nat.not_lt_zero _)
  | succ depth ih =>
    have hplain : ∀ {i v}, a.nodes.value i = .ok v → i < depth + 1 →
        a.evaluateAt ρ (depth + 1) (.ofIndex i) = a.eval ρ (.ofIndex i) := by
      intro i v hv hi
      rw [evaluateAt_ofIndex depth hv]
      cases v with
      | input x => exact (h.eval_form (.input hv)).symm
      | and l r =>
        obtain ⟨hl, hr⟩ := h.below hv
        rw [h.eval_gate hv]
        show (_ && _) = _
        rw [ih (has_of_lt hv hl) (Nat.lt_of_lt_of_le hl (Nat.le_of_lt_succ hi)),
          ih (has_of_lt hv hr) (Nat.lt_of_lt_of_le hr (Nat.le_of_lt_succ hi))]
    obtain ⟨t, hform⟩ := hs.exists_form
    cases hform with
    | zero => exact h.eval_zero.symm
    | one => exact h.eval_one.symm
    | input hv => exact hplain hv (by rwa [Signal.index_ofIndex] at hdepth)
    | gate hv => exact hplain hv (by rwa [Signal.index_ofIndex] at hdepth)
    | @negated i v hv =>
      rw [Signal.index_negate, Signal.index_ofIndex] at hdepth
      have hhas : a.Has (.ofIndex i) := .inr ⟨v, by rw [Signal.index_ofIndex]; exact hv⟩
      rw [evaluateAt_negate, hplain hv hdepth, h.eval_negate hhas]

theorem Wf.evaluate_eq (h : a.Wf) (hs : a.Has s) : a.evaluate ρ s = a.eval ρ s :=
  h.evaluateAt_eq hs hs.lt_succ_size

/-! ## What is stored -/

/-- What may be stored as a gate at index `i`. -/
structure Normal (i : Nat) (l r : Signal) : Prop where
  /-- The inputs are in order. -/
  ordered   : l.raw < r.raw
  /-- Neither input is a constant. -/
  left_pos  : l.index ≠ 0
  right_pos : r.index ≠ 0
  /-- The inputs are on different nodes. -/
  apart     : l.index ≠ r.index
  /-- The inputs come before the gate. -/
  left_lt   : l.index < i
  right_lt  : r.index < i

def Node.isInput : Node → Bool
  | .input _ => true
  | .and _ _ => false

def Node.isGate : Node → Bool
  | .input _ => false
  | .and _ _ => true

/-- Gates are normal, and inputs are counted. -/
structure Tidy (a : Aig G) : Prop extends a.Wf where
  normal : ∀ {i l r}, a.nodes.value i = .ok (.and l r) → Normal i l r
  inputs : a.inputCount = a.nodes.toList.countP Node.isInput

/-- What is no input is a gate. -/
theorem Tidy.gates (h : a.Tidy) : a.gateCount = a.nodes.toList.countP Node.isGate := by
  have hgate : ∀ v : Node, (¬ v.isInput = true) ↔ v.isGate = true := by
    intro v
    cases v <;> simp [Node.isInput, Node.isGate]
  have hcount := a.nodes.toList.length_eq_countP_add_countP Node.isInput
  rw [Arena.length_toList, ← h.inputs] at hcount
  have hcongr : a.nodes.toList.countP (fun v => decide ¬ v.isInput = true)
      = a.nodes.toList.countP Node.isGate :=
    List.countP_congr fun v _ => by simp [hgate]
  rw [hcongr] at hcount
  unfold gateCount
  omega

/-- Two signals for which a gate is needed are on different nodes, neither of them the
    constant. -/
theorem apart_of_trivialAnd? (h : trivialAnd? l r = none) :
    l.index ≠ 0 ∧ r.index ≠ 0 ∧ l.index ≠ r.index := by
  unfold trivialAnd? at h
  split at h
  · cases h
  rename_i hzero
  split at h
  · cases h
  rename_i hleft
  split at h
  · cases h
  rename_i hright
  split at h
  · cases h
  rename_i hsame
  split at h
  · cases h
  rename_i hopposite
  rw [not_or] at hzero
  refine ⟨fun hl => ?_, fun hr => ?_, fun hlr => ?_⟩
  · rcases Signal.eq_zero_or_one hl with hl | hl
    · exact hzero.1 hl
    · exact hleft hl
  · rcases Signal.eq_zero_or_one hr with hr | hr
    · exact hzero.2 hr
    · exact hright hr
  · -- Signals of one node are equal or complements of each other.
    rcases Signal.eq_ofIndex l with hl | hl <;> rcases Signal.eq_ofIndex r with hr | hr
    · exact hsame (hl.trans (hlr ▸ hr.symm))
    · refine hopposite (hl.trans ?_)
      rw [hr, Signal.negate_negate, hlr]
    · refine hopposite (hl.trans ?_)
      rw [hr, hlr]
    · exact hsame (hl.trans (hlr ▸ hr.symm))

theorem trivialAnd?_comm (l r : Signal) : trivialAnd? r l = trivialAnd? l r := by
  have hopposite : r = l.negate ↔ l = r.negate := by
    constructor
    · rintro rfl
      exact (Signal.negate_negate l).symm
    · rintro rfl
      exact (Signal.negate_negate r).symm
  unfold trivialAnd?
  grind

/-- The order of the inputs does not matter. -/
theorem and_comm (a : Aig G) (l r : Signal) : a.and r l = a.and l r := by
  unfold Aig.and
  rw [trivialAnd?_comm]
  cases htrivial : trivialAnd? l r with
  | some s => rfl
  | none =>
    obtain ⟨-, -, hlr⟩ := apart_of_trivialAnd? htrivial
    have hne : l.raw ≠ r.raw := fun he => hlr (by unfold Signal.index; rw [he])
    dsimp only
    by_cases hlt : l.raw < r.raw
    · rw [if_pos hlt, if_neg (by omega)]
    · rw [if_neg hlt, if_pos (by omega)]

/-! ## Making signals keeps a graph tidy -/

/-- Storing a node that may be stored, and counting it if it is an input. -/
theorem Tidy.insert {nodes : Arena Node} {count : Nat} {source : G.State}
    (h : (Aig.mk nodes count source).Tidy) {v : Node} {i : Nat} {fresh : Bool}
    {nodes' : Arena Node} (he : nodes.insert v = ⟨i, fresh, nodes'⟩)
    (hv : ∀ l r, v = .and l r → Normal (nodes.size + 1) l r)
    (hhas : ∀ l r, v = .and l r → Has ⟨nodes, count, source⟩ l ∧ Has ⟨nodes, count, source⟩ r) :
    (Aig.mk nodes' (if fresh && v.isInput then count + 1 else count) source).Tidy := by
  have hwf := fun count' => (h.toWf.insert hhas count' source he).1
  rcases h.arena.insert_cases v with ⟨k, hk, he'⟩ | ⟨_, nodes₁, he', hlist, _⟩
  · -- The node was there, and nothing changes.
    rw [he] at he'
    cases he'
    exact h
  · rw [he] at he'
    cases he'
    refine ⟨hwf _, ?_, ?_⟩
    · intro j l r hj
      rcases Arena.value_concat hlist hj with hj | ⟨rfl, hlr⟩
      · exact h.normal hj
      · exact hv l r hlr.symm
    · have hinputs : count = nodes.toList.countP Node.isInput := h.inputs
      show (if _ then _ else _) = _
      rw [hlist, List.countP_append, List.countP_singleton, ← hinputs]
      cases v.isInput <;> rfl

theorem Tidy.input (h : a.Tidy) (name : String) : (a.input name).graph.Tidy := by
  obtain ⟨nodes, count, source⟩ := a
  rcases he : nodes.insert (.input name) with ⟨i, fresh, nodes'⟩
  have htidy := h.insert he nofun nofun
  unfold Aig.input
  simp only [he]
  cases fresh with
  | true => exact htidy
  | false => exact htidy

theorem Tidy.gate (h : a.Tidy) (hl : a.Has l) (hr : a.Has r) (hlt : l.raw < r.raw)
    (hapart : l.index ≠ 0 ∧ r.index ≠ 0 ∧ l.index ≠ r.index) : (a.gate l r).graph.Tidy := by
  obtain ⟨nodes, count, source⟩ := a
  rcases he : nodes.insert (.and l r) with ⟨i, fresh, nodes'⟩
  have htidy := h.insert he
    (by
      rintro _ _ ⟨⟩
      exact ⟨hlt, hapart.1, hapart.2.1, hapart.2.2, hl.lt_succ_size, hr.lt_succ_size⟩)
    (by
      rintro _ _ ⟨⟩
      exact ⟨hl, hr⟩)
  rw [Node.isInput, Bool.and_false, if_neg Bool.false_ne_true] at htidy
  unfold Aig.gate
  simp only [he]
  exact htidy

theorem Tidy.and (h : a.Tidy) (hl : a.Has l) (hr : a.Has r) : (a.and l r).graph.Tidy := by
  unfold Aig.and
  cases htrivial : trivialAnd? l r with
  | some s => exact h
  | none =>
    obtain ⟨hl₀, hr₀, hlr⟩ := apart_of_trivialAnd? htrivial
    dsimp only
    split
    · rename_i hlt
      exact h.gate hl hr hlt ⟨hl₀, hr₀, hlr⟩
    · rename_i hlt
      have hne : l.raw ≠ r.raw := fun he => hlr (by unfold Signal.index; rw [he])
      exact h.gate hr hl (by omega) ⟨hr₀, hl₀, Ne.symm hlr⟩

theorem Tidy.or (h : a.Tidy) (hl : a.Has l) (hr : a.Has r) : (a.or l r).graph.Tidy :=
  h.and hl.negate hr.negate

theorem Tidy.conjoin (h : a.Tidy) {acc : Signal} (hacc : a.Has acc) {ss : List Signal}
    (hss : ∀ s ∈ ss, a.Has s) : (a.conjoin acc ss).graph.Tidy := by
  induction ss generalizing a acc with
  | nil => exact h
  | cons s ss ih =>
    have hs : a.Has s := hss s List.mem_cons_self
    have hand := h.toWf.makes_and hacc hs
    exact ih (h.and hacc hs) hand.has fun x hx =>
      hand.has_of_has h.toWf (hss x (List.mem_cons_of_mem _ hx))

theorem Tidy.disjoin (h : a.Tidy) {acc : Signal} (hacc : a.Has acc) {ss : List Signal}
    (hss : ∀ s ∈ ss, a.Has s) : (a.disjoin acc ss).graph.Tidy := by
  rw [disjoin_eq]
  exact h.conjoin hacc.negate (has_of_mem_map_negate hss)

end Aig

end SatMemo
