import SatMemo.Library.Aig
import SatMemo.Proofs.Library.Spelling
import SatMemo.Proofs.Store.Arena

/-! # And-inverter graphs as formulas

    A signal reads as a constant, a name, the negation of the plain signal of its
    node or a conjunction of two signals, and `Form` says as which.  The rules
    that save a gate are laws of the values, and a gate is stored behind its
    inputs, so a new signal has the value that was asked for. -/

namespace SatMemo

namespace Signal

/-! ## Plain and complemented signals -/

theorem negate_ofIndex (i : Nat) : (ofIndex i).negate = ⟨2 * i + 1⟩ := by
  unfold negate ofIndex
  simp

theorem isNegated_ofIndex (i : Nat) : (ofIndex i).isNegated = false := by
  unfold isNegated ofIndex
  rw [Nat.mul_mod_right]
  rfl

theorem isNegated_negate_ofIndex (i : Nat) : (ofIndex i).negate.isNegated = true := by
  rw [negate_ofIndex]
  unfold isNegated
  rw [Nat.mul_add_mod]
  rfl

/-- A signal is the plain one of its node or the complement of that. -/
theorem eq_ofIndex (s : Signal) : s = ofIndex s.index ∨ s = (ofIndex s.index).negate := by
  rw [negate_ofIndex]
  cases s with
  | mk raw =>
    simp only [ofIndex, index, mk.injEq]
    omega

theorem eq_zero_or_one {s : Signal} (h : s.index = 0) : s = zero ∨ s = one := by
  have hs := eq_ofIndex s
  rw [h, negate_ofIndex] at hs
  exact hs

/-- A signal of an earlier node comes before the signals of a later one. -/
theorem raw_lt {s : Signal} {i : Nat} (h : s.index < i) : s.raw < 2 * i := by
  unfold index at h
  omega

end Signal

namespace Aig

open Library (term? value)

variable {G : Generator} {a : Aig G} {s l r : Signal} {n : NodeId} {i : Nat} {t : Term}

/-- Gates are stored behind their inputs. -/
structure Wf (a : Aig G) : Prop where
  arena : a.nodes.Wf
  below : ∀ {i l r}, a.nodes.value i = .ok (.and l r) → l.index < i ∧ r.index < i

/-! ## Reading signals -/

/-- The graph has the node of a signal. -/
def Has (a : Aig G) (s : Signal) : Prop :=
  s.index = 0 ∨ ∃ v, a.nodes.value s.index = .ok v

theorem contains_iff : a.contains n = true ↔ a.Has (.ofNode n) := by
  unfold contains Has
  rw [Bool.or_eq_true, beq_iff_eq, Arena.contains_iff]

theorem has_zero : a.Has .zero :=
  .inl rfl

theorem has_one : a.Has .one :=
  .inl rfl

theorem Has.negate (h : a.Has s) : a.Has s.negate := by
  unfold Has
  rw [Signal.index_negate]
  exact h

/-- As what a signal reads. -/
inductive Form (a : Aig G) : Signal → Term → Prop where
  | zero : Form a .zero .constFalse
  | one : Form a .one .constTrue
  | input {i : Nat} {name : String} : a.nodes.value i = .ok (.input name) →
      Form a (.ofIndex i) (.var name)
  | gate {i : Nat} {l r : Signal} : a.nodes.value i = .ok (.and l r) →
      Form a (.ofIndex i) (.and [l.toNode, r.toNode])
  | negated {i : Nat} {v : Node} : a.nodes.value i = .ok v →
      Form a (Signal.ofIndex i).negate (.not (Signal.ofIndex i).toNode)

theorem Form.exists_input {name : String} (h : Form a s (.var name)) :
    ∃ i, s = .ofIndex i ∧ a.nodes.value i = .ok (.input name) := by
  cases h with
  | input hv => exact ⟨_, rfl, hv⟩

theorem Form.exists_gate (h : Form a s (.and [l.toNode, r.toNode])) :
    ∃ i, s = .ofIndex i ∧ a.nodes.value i = .ok (.and l r) := by
  generalize ht : Term.and [l.toNode, r.toNode] = t at h
  cases h with
  | zero => cases ht
  | one => cases ht
  | input hv => cases ht
  | negated hv => cases ht
  | @gate i l' r' hv =>
    obtain ⟨hl, hr⟩ : l.toNode = l'.toNode ∧ r.toNode = r'.toNode := by simpa using ht
    obtain rfl : l = l' := congrArg Signal.ofNode hl
    obtain rfl : r = r' := congrArg Signal.ofNode hr
    exact ⟨i, rfl, hv⟩

/-- A negated signal is the complement of the signal below it. -/
theorem Form.eq_negate {n : NodeId} (h : Form a s (.not n)) : s = (Signal.ofNode n).negate := by
  cases h with
  | negated hv => rfl

theorem Has.exists_form (h : a.Has s) : ∃ t, Form a s t := by
  rcases h with h | ⟨v, hv⟩
  · rcases Signal.eq_zero_or_one h with rfl | rfl
    · exact ⟨_, .zero⟩
    · exact ⟨_, .one⟩
  · -- A plain signal reads as its node does, a complement as the negation of that.
    rcases Signal.eq_ofIndex s with hs | hs
    · rw [hs]
      cases v with
      | input name => exact ⟨_, .input hv⟩
      | and l r => exact ⟨_, .gate hv⟩
    · rw [hs]
      exact ⟨_, .negated hv⟩

theorem Form.has (h : Form a s t) : a.Has s := by
  cases h with
  | zero => exact has_zero
  | one => exact has_one
  | input hv => exact .inr ⟨_, by rw [Signal.index_ofIndex]; exact hv⟩
  | gate hv => exact .inr ⟨_, by rw [Signal.index_ofIndex]; exact hv⟩
  | negated hv => exact Has.negate (.inr ⟨_, by rw [Signal.index_ofIndex]; exact hv⟩)

theorem ne_zero_of_value {v : Node} (hv : a.nodes.value i = .ok v) : i ≠ 0 := by
  have := (Arena.le_size_of_value hv).1
  omega

theorem node_of_value {i : Nat} {v : Node} (hv : a.nodes.value i = .ok v) :
    a.node i = .ok (some v) := by
  unfold node
  rw [if_neg (ne_zero_of_value hv), hv]
  rfl

theorem has_of_lt {v : Node} (hv : a.nodes.value i = .ok v) (h : s.index < i) : a.Has s := by
  have hle := (Arena.le_size_of_value hv).2
  rcases Nat.eq_zero_or_pos s.index with hzero | hpos
  · exact .inl hzero
  · exact .inr (Arena.exists_value_iff.2 ⟨hpos, Nat.le_trans (Nat.le_of_lt h) hle⟩)

/-- The nodes of the graph are numbered up to its size. -/
theorem Has.lt_succ_size (h : a.Has s) : s.index < a.nodes.size + 1 := by
  rcases h with hzero | ⟨v, hv⟩
  · rw [hzero]
    exact Nat.succ_pos _
  · exact Nat.lt_succ_of_le (Arena.le_size_of_value hv).2

/-- A plain signal is no constant and not complemented. -/
theorem plain_of_value {v : Node} (hv : a.nodes.value i = .ok v) :
    Signal.ofIndex i ≠ .zero ∧ Signal.ofIndex i ≠ .one ∧
      (Signal.ofIndex i).isNegated = false ∧ (Signal.ofIndex i).isConst = false := by
  have hi := ne_zero_of_value hv
  simp only [Signal.ofIndex, Signal.zero, Signal.one, Signal.isNegated, Signal.isConst,
    Signal.index, ne_eq, Signal.mk.injEq, beq_eq_false_iff_ne]
  omega

theorem negated_of_value {v : Node} (hv : a.nodes.value i = .ok v) :
    (Signal.ofIndex i).negate ≠ .zero ∧ (Signal.ofIndex i).negate ≠ .one ∧
      (Signal.ofIndex i).negate.isNegated = true ∧ (Signal.ofIndex i).negate.isConst = false ∧
      (Signal.ofIndex i).negate.regular = Signal.ofIndex i := by
  have hi := ne_zero_of_value hv
  rw [Signal.negate_ofIndex]
  simp only [Signal.ofIndex, Signal.zero, Signal.one, Signal.isNegated, Signal.isConst,
    Signal.index, Signal.regular, ne_eq, Signal.mk.injEq, beq_eq_false_iff_ne, beq_iff_eq]
  omega

theorem Form.kind_eq (h : Form a s t) : a.kind s.toNode = .ok t.kind := by
  unfold kind
  rw [Signal.ofNode_toNode]
  cases h with
  | zero => rfl
  | one => rfl
  | input hv =>
    obtain ⟨hzero, hone, hneg, -⟩ := plain_of_value hv
    rw [if_neg hzero, if_neg hone, hneg, Signal.index_ofIndex, hv]
    rfl
  | gate hv =>
    obtain ⟨hzero, hone, hneg, -⟩ := plain_of_value hv
    rw [if_neg hzero, if_neg hone, hneg, Signal.index_ofIndex, hv]
    rfl
  | negated hv =>
    obtain ⟨hzero, hone, hneg, -, -⟩ := negated_of_value hv
    rw [if_neg hzero, if_neg hone, hneg]
    rfl

theorem Form.children_eq (h : Form a s t) : a.children s.toNode = .ok t.children := by
  unfold children
  rw [Signal.ofNode_toNode]
  cases h with
  | zero => rfl
  | one => rfl
  | input hv =>
    obtain ⟨-, -, hneg, hconst⟩ := plain_of_value hv
    simp only [hconst, hneg, Signal.index_ofIndex, hv]
    rfl
  | gate hv =>
    obtain ⟨-, -, hneg, hconst⟩ := plain_of_value hv
    simp only [hconst, hneg, Signal.index_ofIndex, hv]
    rfl
  | negated hv =>
    obtain ⟨-, -, hneg, hconst, hregular⟩ := negated_of_value hv
    simp only [hconst, hneg, hregular]
    rfl

theorem Form.label_eq {name : String} (h : Form a s (.var name)) :
    a.label s.toNode = .ok name := by
  cases h with
  | @input i _ hv =>
    obtain ⟨-, -, hneg, -⟩ := plain_of_value hv
    unfold label
    simp only [Signal.ofNode_toNode, Signal.index_ofIndex, node_of_value hv, bind, Except.bind,
      hneg]
    rfl

theorem Form.term?_eq (h : Form a s t) : term? a s.toNode = some t := by
  apply Library.term?_eq
  · exact contains_iff.2 h.has
  · exact h.kind_eq
  · exact h.children_eq
  · rintro name rfl
    exact h.label_eq
  · cases h <;> rfl

theorem form_of_term? (ht : term? a s.toNode = some t) : Form a s t := by
  have hhas : a.Has s := contains_iff.1 (Library.contains_of_term? ht)
  obtain ⟨t', h⟩ := hhas.exists_form
  rw [h.term?_eq] at ht
  rwa [Option.some.inj ht] at h

theorem Wf.founded (h : a.Wf) : Library.Founded a where
  exists_term := by
    intro n hn
    obtain ⟨t, ht⟩ := (contains_iff.1 hn).exists_form
    exact ⟨t, ht.term?_eq⟩
  operand := by
    intro n t m ht hm
    have hform : Form a (.ofNode n) t := form_of_term? ht
    generalize hs : Signal.ofNode n = s at hform
    have hraw : n.raw = s.raw := congrArg Signal.raw hs
    cases hform with
    | zero => cases hm
    | one => cases hm
    | input hv => cases hm
    | @gate i l r hv =>
      have hbelow := h.below hv
      have hraw : n.raw = 2 * i := hraw
      rcases List.mem_cons.1 hm with rfl | hm
      · -- Signals of smaller nodes have smaller numbers.
        exact ⟨by rw [hraw]; exact Signal.raw_lt hbelow.1, contains_iff.2 (has_of_lt hv hbelow.1)⟩
      · rw [List.mem_singleton.1 hm]
        exact ⟨by rw [hraw]; exact Signal.raw_lt hbelow.2, contains_iff.2 (has_of_lt hv hbelow.2)⟩
    | @negated i v hv =>
      rw [Signal.negate_ofIndex] at hraw
      have hraw : n.raw = 2 * i + 1 := hraw
      rw [List.mem_singleton.1 hm]
      -- The complement is numbered right after the plain signal.
      refine ⟨by rw [hraw]; exact Nat.lt_succ_self _, contains_iff.2 (.inr ⟨v, ?_⟩)⟩
      rw [Signal.ofNode_toNode, Signal.index_ofIndex]
      exact hv
  lt_bound := by
    intro n hn
    exact Signal.raw_lt (contains_iff.1 hn).lt_succ_size

/-- A name belongs to one node. -/
theorem Wf.eq_of_input (h : a.Wf) {m : NodeId} {name : String}
    (hm : term? a m = some (.var name)) (hn : term? a n = some (.var name)) : m = n := by
  have hform : ∀ {k}, term? a k = some (.var name) →
      ∃ i, k.raw = 2 * i ∧ a.nodes.value i = .ok (.input name) := by
    intro k hk
    have hform : Form a (.ofNode k) (.var name) := form_of_term? hk
    generalize hs : Signal.ofNode k = s at hform
    cases hform with
    | @input i _ hv => exact ⟨i, congrArg Signal.raw hs, hv⟩
  obtain ⟨i, hi, hvi⟩ := hform hm
  obtain ⟨j, hj, hvj⟩ := hform hn
  have hij : i = j := h.arena.distinct hvi hvj
  apply NodeId.eq_of_raw_eq
  rw [hi, hj, hij]

/-! ## Values of signals -/

/-- The value of a signal. -/
def eval (a : Aig G) (ρ : String → Bool) (s : Signal) : Bool :=
  value a ρ s.toNode

variable {ρ : String → Bool}

theorem Wf.eval_form (h : a.Wf) (hs : Form a s t) : a.eval ρ s = t.value ρ (value a ρ) :=
  h.founded.value_eq hs.term?_eq

theorem Wf.eval_zero (h : a.Wf) : a.eval ρ .zero = false :=
  h.eval_form .zero

theorem Wf.eval_one (h : a.Wf) : a.eval ρ .one = true :=
  h.eval_form .one

theorem Wf.eval_gate (h : a.Wf) (hv : a.nodes.value i = .ok (.and l r)) :
    a.eval ρ (.ofIndex i) = (a.eval ρ l && a.eval ρ r) := by
  rw [h.eval_form (.gate hv)]
  show (a.eval ρ l && (a.eval ρ r && true)) = _
  rw [Bool.and_true]

/-- The complement has the opposite value. -/
theorem Wf.eval_negate (h : a.Wf) (hs : a.Has s) : a.eval ρ s.negate = !a.eval ρ s := by
  obtain ⟨t, hform⟩ := hs.exists_form
  cases hform with
  | zero =>
    rw [h.eval_zero]
    exact h.eval_one
  | one =>
    rw [h.eval_one]
    exact h.eval_zero
  | input hv => exact h.eval_form (.negated hv)
  | gate hv => exact h.eval_form (.negated hv)
  | @negated i v hv =>
    have hneg : a.eval ρ (Signal.ofIndex i).negate = !a.eval ρ (.ofIndex i) :=
      h.eval_form (.negated hv)
    -- The complement of a complement is the plain signal again.
    rw [hneg, Signal.negate_negate, Bool.not_not]

/-! ## Graphs with more nodes -/

section Extends

variable {b : Aig G} (he : Library.Extends a b)
include he

theorem Wf.has_of_extends (h : a.Wf) (hs : a.Has s) : b.Has s :=
  contains_iff.1 (h.founded.contains_of_extends he (n := s.toNode) (contains_iff.2 hs))

theorem Wf.eval_of_extends (h : a.Wf) (hb : b.Wf) (hs : a.Has s) : b.eval ρ s = a.eval ρ s :=
  h.founded.value_of_extends hb.founded he (n := s.toNode) (contains_iff.2 hs)

end Extends

/-! ## Storing nodes -/

/-- A graph with more nodes has the forms that it had. -/
theorem Form.mono {a' : Aig G} (h : Form a s t)
    (hkeep : ∀ {i v}, a.nodes.value i = .ok v → a'.nodes.value i = .ok v) : Form a' s t := by
  cases h with
  | zero => exact .zero
  | one => exact .one
  | input hv => exact .input (hkeep hv)
  | gate hv => exact .gate (hkeep hv)
  | negated hv => exact .negated (hkeep hv)

theorem extends_of_values {a' : Aig G}
    (hkeep : ∀ {i v}, a.nodes.value i = .ok v → a'.nodes.value i = .ok v) :
    Library.Extends a a' := by
  intro n t ht
  have hform : Form a (.ofNode n) t := form_of_term? ht
  exact (hform.mono hkeep).term?_eq

/-- Storing a node over signals that are there. -/
theorem Wf.insert (h : a.Wf) {v : Node} (hv : ∀ l r, v = .and l r → a.Has l ∧ a.Has r)
    (inputCount : Nat) (source : G.State) {i : Nat} {fresh : Bool} {nodes : Arena Node}
    (he : a.nodes.insert v = ⟨i, fresh, nodes⟩) :
    (Aig.mk nodes inputCount source).Wf ∧ Library.Extends a ⟨nodes, inputCount, source⟩ ∧
      nodes.value i = .ok v := by
  have hkeep : ∀ {i w}, a.nodes.value i = .ok w → nodes.value i = .ok w := by
    intro j w hw
    have := h.arena.value_insert_of_value v hw
    rwa [he] at this
  have hnew : nodes.value i = .ok v := by
    have := h.arena.value_insert v
    rwa [he] at this
  refine ⟨⟨?_, ?_⟩, extends_of_values hkeep, hnew⟩
  · have := h.arena.insert v
    rwa [he] at this
  · intro j l r hj
    rcases h.arena.insert_cases v with ⟨k, hk, he'⟩ | ⟨_, nodes', he', hlist, _⟩
    · -- The node was there, and nothing changes.
      rw [he] at he'
      cases he'
      exact h.below hj
    · rw [he] at he'
      cases he'
      rcases Arena.value_concat hlist hj with hj | ⟨rfl, hlr⟩
      · exact h.below hj
      · obtain ⟨hl, hr⟩ := hv l r hlr.symm
        exact ⟨hl.lt_succ_size, hr.lt_succ_size⟩

/-! ## Making signals -/

/-- A signal just made: the graph still has all that it had, and the signal has the value
    `F`. -/
def Makes (a : Aig G) (m : Made G) (F : (String → Bool) → Bool) : Prop :=
  Library.Grows Wf a m.grown F

theorem Makes.has {m : Made G} {F : (String → Bool) → Bool} (h : a.Makes m F) :
    m.graph.Has m.signal :=
  contains_iff.1 h.held

/-- A signal that is there already. -/
theorem Wf.makes_of_has (h : a.Wf) (hs : a.Has s) {F : (String → Bool) → Bool}
    (hF : ∀ ρ, a.eval ρ s = F ρ) : a.Makes ⟨s, a, []⟩ F :=
  ⟨h, .refl a, contains_iff.2 hs, hF⟩

theorem Wf.makes_input (h : a.Wf) (name : String) : a.Makes (a.input name) fun ρ => ρ name := by
  cases a with
  | mk nodes inputCount source =>
    obtain ⟨i, fresh, nodes', he⟩ : ∃ i fresh nodes',
        nodes.insert (.input name) = ⟨i, fresh, nodes'⟩ := ⟨_, _, _, rfl⟩
    -- The count of inputs depends on whether the input is new; the rest does not.
    have hinsert := fun count => h.insert (v := .input name) nofun count source he
    have hmakes : ∀ count events, Makes ⟨nodes, inputCount, source⟩
        ⟨.ofIndex i, ⟨nodes', count, source⟩, events⟩ fun ρ => ρ name := by
      intro count events
      obtain ⟨h', hlater, hnew⟩ := hinsert count
      have hform : Form ⟨nodes', count, source⟩ (.ofIndex i) (.var name) := .input hnew
      exact ⟨h', hlater, contains_iff.2 hform.has, fun ρ => h'.eval_form hform⟩
    unfold input
    simp only [he]
    split
    · exact hmakes _ _
    · exact hmakes _ _

theorem Wf.makes_gate (h : a.Wf) (hl : a.Has l) (hr : a.Has r) :
    a.Makes (a.gate l r) fun ρ => a.eval ρ l && a.eval ρ r := by
  cases a with
  | mk nodes inputCount source =>
    obtain ⟨i, fresh, nodes', he⟩ : ∃ i fresh nodes',
        nodes.insert (.and l r) = ⟨i, fresh, nodes'⟩ := ⟨_, _, _, rfl⟩
    have hops : ∀ l' r', Node.and l r = .and l' r' →
        Has ⟨nodes, inputCount, source⟩ l' ∧ Has ⟨nodes, inputCount, source⟩ r' := by
      rintro _ _ ⟨⟩
      exact ⟨hl, hr⟩
    obtain ⟨h', hlater, hnew⟩ := h.insert hops inputCount source he
    have hform : Form ⟨nodes', inputCount, source⟩ (.ofIndex i) (.and [l.toNode, r.toNode]) :=
      .gate hnew
    unfold gate
    simp only [he]
    refine ⟨h', hlater, contains_iff.2 hform.has, fun ρ => ?_⟩
    -- The values of the inputs are those of the graph before the gate.
    have hold : ∀ s, Has ⟨nodes, inputCount, source⟩ s →
        eval ⟨nodes', inputCount, source⟩ ρ s = eval ⟨nodes, inputCount, source⟩ ρ s :=
      fun s hs => h.founded.value_of_extends h'.founded hlater (contains_iff.2 hs)
    rw [← hold l hl, ← hold r hr]
    exact h'.eval_gate hnew

/-- Where no gate is needed, none is missing. -/
theorem Wf.trivialAnd_sound (h : a.Wf) (hl : a.Has l) (hr : a.Has r)
    (hs : trivialAnd? l r = some s) :
    a.Has s ∧ ∀ ρ, a.eval ρ s = (a.eval ρ l && a.eval ρ r) := by
  unfold trivialAnd? at hs
  split at hs
  · rename_i hzero
    cases hs
    refine ⟨has_zero, fun ρ => ?_⟩
    -- One input is false.
    rcases hzero with rfl | rfl
    · rw [h.eval_zero, Bool.false_and]
    · rw [h.eval_zero, Bool.and_false]
  split at hs
  · -- The first input is true.
    rename_i hone
    cases hs
    exact ⟨hr, fun ρ => by rw [hone, h.eval_one, Bool.true_and]⟩
  split at hs
  · -- The second input is true.
    rename_i hone
    cases hs
    exact ⟨hl, fun ρ => by rw [hone, h.eval_one, Bool.and_true]⟩
  split at hs
  · -- The inputs are the same.
    rename_i heq
    cases hs
    exact ⟨hl, fun ρ => by rw [← heq, Bool.and_self]⟩
  split at hs
  · -- They are complements of each other.
    rename_i heq
    cases hs
    exact ⟨has_zero, fun ρ => by rw [heq, h.eval_zero, h.eval_negate hr, Bool.not_and_self]⟩
  · cases hs

theorem Wf.makes_and (h : a.Wf) (hl : a.Has l) (hr : a.Has r) :
    a.Makes (a.and l r) fun ρ => a.eval ρ l && a.eval ρ r := by
  unfold Aig.and
  cases htrivial : trivialAnd? l r with
  | some s =>
    obtain ⟨hs, heval⟩ := h.trivialAnd_sound hl hr htrivial
    exact h.makes_of_has hs heval
  | none =>
    dsimp only
    split
    · exact h.makes_gate hl hr
    · -- A gate is stored with its inputs in order.
      have hcomm : (fun ρ => a.eval ρ l && a.eval ρ r) = fun ρ => a.eval ρ r && a.eval ρ l :=
        funext fun ρ => Bool.and_comm _ _
      rw [hcomm]
      exact h.makes_gate hr hl

/-- The complement of a signal just made. -/
def Made.negated (m : Made G) : Made G :=
  ⟨m.signal.negate, m.graph, m.events⟩

theorem Makes.negated {m : Made G} {F : (String → Bool) → Bool} (h : a.Makes m F) :
    a.Makes m.negated fun ρ => !F ρ := by
  refine ⟨h.wf, h.later, contains_iff.2 h.has.negate, fun ρ => ?_⟩
  have hwf : m.graph.Wf := h.wf
  have hvalue : m.graph.eval ρ m.signal = F ρ := h.value ρ
  show m.graph.eval ρ m.signal.negate = _
  rw [hwf.eval_negate h.has, hvalue]

theorem or_eq (a : Aig G) (l r : Signal) : a.or l r = (a.and l.negate r.negate).negated := rfl

/-- Disjunctions of lists are complements of conjunctions, as those of two signals are. -/
theorem disjoin_eq (a : Aig G) (acc : Signal) (ss : List Signal) :
    a.disjoin acc ss = (a.conjoin acc.negate (ss.map .negate)).negated := by
  induction ss generalizing a acc with
  | nil =>
    show Made.mk acc a [] = ⟨acc.negate.negate, a, []⟩
    rw [Signal.negate_negate]
  | cons s ss ih =>
    rw [disjoin, List.map_cons, conjoin, or_eq]
    dsimp only [Made.negated]
    rw [ih, Signal.negate_negate]
    rfl

theorem Wf.makes_or (h : a.Wf) (hl : a.Has l) (hr : a.Has r) :
    a.Makes (a.or l r) fun ρ => a.eval ρ l || a.eval ρ r := by
  have hvalue : (fun ρ => a.eval ρ l || a.eval ρ r)
      = fun ρ => !(a.eval ρ l.negate && a.eval ρ r.negate) := by
    funext ρ
    rw [h.eval_negate hl, h.eval_negate hr, Bool.not_and, Bool.not_not, Bool.not_not]
  rw [hvalue, or_eq]
  exact (h.makes_and hl.negate hr.negate).negated

theorem Makes.has_of_has {m : Made G} {F : (String → Bool) → Bool} (h : a.Makes m F) (ha : a.Wf)
    (hs : a.Has s) : m.graph.Has s :=
  ha.has_of_extends h.later hs

/-- A signal that was there keeps its value. -/
theorem Makes.eval_eq {m : Made G} {F : (String → Bool) → Bool} (h : a.Makes m F) (ha : a.Wf)
    (hs : a.Has s) : m.graph.eval ρ s = a.eval ρ s :=
  ha.eval_of_extends h.later h.wf hs

/-- What is made from there on is made from here. -/
theorem Makes.trans {m m' : Made G} {F F' : (String → Bool) → Bool} (h : a.Makes m F)
    (h' : m.graph.Makes m' F') (events : List Event) :
    a.Makes ⟨m'.signal, m'.graph, events⟩ F' :=
  ⟨h'.wf, fun _ _ ht => h'.later (h.later ht), h'.held, h'.value⟩

theorem Wf.makes_conjoin (h : a.Wf) {acc : Signal} (hacc : a.Has acc) {ss : List Signal}
    (hss : ∀ s ∈ ss, a.Has s) :
    a.Makes (a.conjoin acc ss) fun ρ => a.eval ρ acc && ss.all (a.eval ρ) := by
  induction ss generalizing a acc with
  | nil => exact h.makes_of_has hacc fun ρ => (Bool.and_true _).symm
  | cons s ss ih =>
    have hs : a.Has s := hss s (List.mem_cons_self ..)
    have hrest : ∀ s' ∈ ss, a.Has s' := fun s' hs' => hss s' (List.mem_cons_of_mem _ hs')
    have hand := h.makes_and hacc hs
    have hlater := ih hand.wf hand.has fun s' hs' => hand.has_of_has h (hrest s' hs')
    have hvalue : (fun ρ => a.eval ρ acc && (s :: ss).all (a.eval ρ)) = fun ρ =>
        (a.and acc s).graph.eval ρ (a.and acc s).signal
          && ss.all ((a.and acc s).graph.eval ρ) := by
      funext ρ
      have hsignal : (a.and acc s).graph.eval ρ (a.and acc s).signal
          = (a.eval ρ acc && a.eval ρ s) := hand.value ρ
      have hss : ss.all ((a.and acc s).graph.eval ρ) = ss.all (a.eval ρ) :=
        BoolFn.list_all_congr fun s' hs' => hand.eval_eq h (hrest s' hs')
      rw [hsignal, hss, List.all_cons, Bool.and_assoc]
    rw [hvalue]
    exact hand.trans hlater _

theorem has_of_mem_map_negate {ss : List Signal} (hss : ∀ s ∈ ss, a.Has s) :
    ∀ s ∈ ss.map Signal.negate, a.Has s := by
  intro s' hs'
  obtain ⟨s, hs, rfl⟩ := List.mem_map.1 hs'
  exact (hss s hs).negate

theorem Wf.makes_disjoin (h : a.Wf) {acc : Signal} (hacc : a.Has acc) {ss : List Signal}
    (hss : ∀ s ∈ ss, a.Has s) :
    a.Makes (a.disjoin acc ss) fun ρ => a.eval ρ acc || ss.any (a.eval ρ) := by
  have hvalue : (fun ρ => a.eval ρ acc || ss.any (a.eval ρ))
      = fun ρ => !(a.eval ρ acc.negate && (ss.map .negate).all (a.eval ρ)) := by
    funext ρ
    have hall : (ss.map Signal.negate).all (a.eval ρ) = !ss.any (a.eval ρ) := by
      rw [List.all_map, List.not_any_eq_all_not]
      exact BoolFn.list_all_congr fun s hs => h.eval_negate (hss s hs)
    rw [hall, h.eval_negate hacc, Bool.not_and, Bool.not_not, Bool.not_not]
  rw [hvalue, disjoin_eq]
  exact (h.makes_conjoin hacc.negate (has_of_mem_map_negate hss)).negated

/-- The signals of nodes that the graph has are there. -/
theorem has_of_mem_map {ns : List NodeId} (hns : ∀ n ∈ ns, a.contains n = true) :
    ∀ s ∈ ns.map Signal.ofNode, a.Has s := by
  intro s hs
  obtain ⟨n, hn, rfl⟩ := List.mem_map.1 hs
  exact contains_iff.1 (hns n hn)

theorem Wf.makes_all (h : a.Wf) {ns : List NodeId} (hns : ∀ n ∈ ns, a.contains n = true) :
    a.Makes (a.conjoin .one (ns.map .ofNode)) fun ν => ns.all (Library.value a ν) := by
  have hvalue : (fun ν => a.eval ν .one && (ns.map Signal.ofNode).all (a.eval ν)) =
      fun ν => ns.all (Library.value a ν) := by
    funext ν
    rw [h.eval_one, Bool.true_and, List.all_map]
    rfl
  rw [← hvalue]
  exact h.makes_conjoin has_one (has_of_mem_map hns)

theorem Wf.makes_any (h : a.Wf) {ns : List NodeId} (hns : ∀ n ∈ ns, a.contains n = true) :
    a.Makes (a.disjoin .zero (ns.map .ofNode)) fun ν => ns.any (Library.value a ν) := by
  have hvalue : (fun ν => a.eval ν .zero || (ns.map Signal.ofNode).any (a.eval ν)) =
      fun ν => ns.any (Library.value a ν) := by
    funext ν
    rw [h.eval_zero, Bool.false_or, List.any_map]
    rfl
  rw [← hvalue]
  exact h.makes_disjoin has_zero (has_of_mem_map hns)

/-! ## Printing -/

/-- The text that a piece comes to. -/
def Piece.spell (a : Aig G) : Piece → String
  | .text s     => s
  | .signal _ s => Library.spell a s.toNode

theorem Wf.spell_form (h : a.Wf) (hs : Form a s t) :
    Library.spell a s.toNode = t.spell (Library.spell a) :=
  h.founded.spell_eq hs.term?_eq

theorem Wf.spell_const (h : a.Wf) (hs : s.isConst = true) :
    Library.spell a s.toNode = if s.isNegated then "true" else "false" := by
  rcases Signal.eq_zero_or_one (beq_iff_eq.1 hs) with rfl | rfl
  · exact h.spell_form .zero
  · exact h.spell_form .one

/-- A complement has a mark in front of the text of its node. -/
theorem Wf.spell_mark (h : a.Wf) {v : Node} (hv : a.nodes.value s.index = .ok v) :
    Library.spell a s.toNode = mark s ++ Library.spell a (Signal.ofIndex s.index).toNode := by
  rcases Signal.eq_ofIndex s with hs | hs
  · have hneg : s.isNegated = false := by
      rw [hs]
      exact Signal.isNegated_ofIndex _
    rw [← hs, mark, hneg]
    exact String.empty_append.symm
  · have hneg : s.isNegated = true := by
      rw [hs]
      exact Signal.isNegated_negate_ofIndex _
    have hform : Form a s (.not (Signal.ofIndex s.index).toNode) := by
      rw [hs, Signal.index_negate, Signal.index_ofIndex]
      exact .negated hv
    rw [h.spell_form hform, mark, hneg]
    rfl

/-- The list of pieces comes to the texts of its pieces, if every signal in it is there and no
    deeper than its piece says. -/
theorem Wf.write_eq (h : a.Wf) (pieces : List Piece) (out : String)
    (hpieces : ∀ depth s, Piece.signal depth s ∈ pieces → s.index < depth ∧ a.Has s) :
    a.write pieces out = .ok (out ++ String.join (pieces.map (Piece.spell a))) := by
  fun_induction a.write pieces out with
  | case1 out => exact congrArg Except.ok String.append_empty.symm
  | case2 out s rest ih =>
    rw [ih fun depth s hs => hpieces depth s (List.mem_cons_of_mem _ hs), List.map_cons,
      String.join_cons, ← String.append_assoc]
    rfl
  | case3 out s rest =>
    have hlt := (hpieces 0 s (List.mem_cons_self ..)).1
    exact absurd hlt (Nat.not_lt_zero _)
  | case4 out depth s rest hconst ih =>
    refine (ih fun depth s hs => hpieces depth s (List.mem_cons_of_mem _ hs)).trans ?_
    rw [List.map_cons, String.join_cons, ← String.append_assoc, Piece.spell,
      h.spell_const hconst]
    rfl
  | case5 out depth s rest hconst fault hv =>
    -- A signal that is there and no constant has a node.
    rcases (hpieces _ s (List.mem_cons_self ..)).2 with hzero | ⟨v, hv'⟩
    · exact absurd (beq_iff_eq.2 hzero) hconst
    · rw [hv] at hv'
      cases hv'
  | case6 out depth s rest hconst name hv ih =>
    have hname : Library.spell a (Signal.ofIndex s.index).toNode = name := h.spell_form (.input hv)
    rw [ih fun depth s hs => hpieces depth s (List.mem_cons_of_mem _ hs), List.map_cons,
      String.join_cons, Piece.spell, h.spell_mark hv, hname]
    simp only [String.append_assoc]
  | case7 out depth s rest hconst l r hv ih =>
    have hdepth : s.index < depth + 1 := (hpieces _ s (List.mem_cons_self ..)).1
    have hbelow := h.below hv
    have hinput : ∀ x, x.index < s.index → x.index < depth ∧ a.Has x := fun x hx =>
      ⟨Nat.lt_of_lt_of_le hx (Nat.le_of_lt_succ hdepth), has_of_lt hv hx⟩
    have hgate : Library.spell a (Signal.ofIndex s.index).toNode
        = "(" ++ (Library.spell a l.toNode ++ " & " ++ Library.spell a r.toNode) ++ ")" := by
      rw [h.spell_form (.gate hv), Term.spell, List.map_cons, List.map_cons, List.map_nil,
        String.intercalate_cons_cons, String.intercalate_singleton]
    rw [ih]
    · simp only [List.map_cons, String.join_cons, Piece.spell, h.spell_mark hv, hgate,
        String.append_assoc]
    · intro depth' x hx
      simp only [List.mem_cons, Piece.signal.injEq, reduceCtorEq, false_or] at hx
      rcases hx with ⟨rfl, rfl⟩ | ⟨rfl, rfl⟩ | hx
      · exact hinput _ hbelow.1
      · exact hinput _ hbelow.2
      · exact hpieces depth' x (List.mem_cons_of_mem _ hx)

/-- Printing comes to the text of the formula. -/
theorem Wf.print_eq (h : a.Wf) (hn : a.contains n = true) :
    a.print n = .ok (Library.spell a n) := by
  unfold print
  rw [h.write_eq]
  · simp [Piece.spell]
  · intro depth s hs
    cases List.mem_singleton.1 hs
    exact ⟨(contains_iff.1 hn).lt_succ_size, contains_iff.1 hn⟩

end Aig

end SatMemo
