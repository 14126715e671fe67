import SatMemo.Proofs.Library.Repeating

/-! # Labels of nodes

    A node has the same label in every later library: labels are names of
    variables and texts of all other nodes, and both stay. -/

namespace SatMemo

/-! ## N-ary formulas -/

namespace Nary

section Later

variable {lib lib' : Nary} (h : lib.Wf) (h' : lib'.Wf) (he : Library.Extends lib lib')
include h h' he

theorem Wf.term_of_extends {n : NodeId} {t : Term} (ht : lib.term n = .ok t) :
    lib'.term n = .ok t :=
  h'.term?_eq_some_iff.1 (he (h.term?_eq ht))

theorem Wf.print_later {n : NodeId} (hn : lib.contains n = true) :
    lib'.print n = lib.print n := by
  have hn' : lib'.contains n = true := h.founded.contains_of_extends he hn
  rw [h.print_eq hn, h'.print_eq hn', h.founded.spell_of_extends h'.founded he hn]

/-- A label stays. -/
theorem Wf.label_later {n : NodeId} (hn : lib.contains n = true) :
    lib'.label n = lib.label n := by
  obtain ⟨t, ht⟩ := contains_iff.1 hn
  unfold label
  rw [ht, h.term_of_extends h' he ht, h.print_later h' he hn]

end Later

/-- Every node has a label. -/
theorem Wf.label_eq {lib : Nary} (h : lib.Wf) {n : NodeId} (hn : lib.contains n = true) :
    ∃ text, lib.label n = .ok text := by
  obtain ⟨t, ht⟩ := contains_iff.1 hn
  unfold label
  rw [ht, h.print_eq hn]
  cases t <;> exact ⟨_, rfl⟩

end Nary

/-! ## And-inverter graphs -/

namespace Aig

section Later

variable {G : Generator} {a b : Aig G} (he : Library.Extends a b)
include he

theorem Wf.print_later (h : a.Wf) (h' : b.Wf) {n : NodeId} (hn : a.contains n = true) :
    b.print n = a.print n := by
  have hn' : b.contains n = true := h.founded.contains_of_extends he hn
  rw [h.print_eq hn, h'.print_eq hn', h.founded.spell_of_extends h'.founded he hn]

theorem node_of_extends {s : Signal} (hs : a.Has s) : b.node s.index = a.node s.index := by
  rcases hs with hzero | ⟨v, hv⟩
  · rw [hzero]
    rfl
  · rw [node_of_value hv, node_of_value (value_of_extends he hv)]

/-- A label stays. -/
theorem Wf.label_later (h : a.Wf) (h' : b.Wf) {n : NodeId} (hn : a.contains n = true) :
    b.label n = a.label n := by
  unfold label
  dsimp only
  rw [node_of_extends he (contains_iff.1 hn), h.print_later he h' hn]

end Later

/-- Every node has a label. -/
theorem Wf.label_eq {a : Aig G} (h : a.Wf) {n : NodeId} (hn : a.contains n = true) :
    ∃ text, a.label n = .ok text := by
  have htext := h.print_eq hn
  have hnode : ∃ v, a.node (Signal.ofNode n).index = .ok v := by
    rcases contains_iff.1 hn with hzero | ⟨v, hv⟩
    · exact ⟨none, by rw [hzero]; rfl⟩
    · exact ⟨some v, node_of_value hv⟩
  obtain ⟨v, hv⟩ := hnode
  unfold label
  dsimp only
  rw [hv, htext]
  rcases v with _ | name | ⟨l, r⟩
  · exact ⟨_, rfl⟩
  · cases hneg : (Signal.ofNode n).isNegated with
    | true => exact ⟨Library.spell a n, by simp [bind, Except.bind]⟩
    | false => exact ⟨name, by simp [bind, Except.bind, pure, Except.pure]⟩
  · exact ⟨_, rfl⟩

end Aig

end SatMemo
