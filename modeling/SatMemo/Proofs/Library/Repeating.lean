import SatMemo.Proofs.Library.Making
import SatMemo.Proofs.Library.Nary
import SatMemo.Proofs.Library.Simulation

/-! # Asking a library again

    A library that is asked again for something that it has made before, at any
    later time and about the same nodes, returns the node that it returned then
    and stays as it is (`Nary.build_again`, `Aig.build_again`). -/

namespace SatMemo

/-! ## N-ary formulas -/

namespace Nary

variable {lib lib' : Nary}

/-- A term that is there is found again. -/
theorem Wf.store_of_term (h : lib.Wf) {n : NodeId} {t : Term} (ht : lib.term n = .ok t) :
    lib.store t = ⟨n, lib, []⟩ := by
  have he : lib.terms.insert t = ⟨n.raw, false, lib.terms⟩ := h.arena.insert_of_value ht
  rw [store_of_insert he]
  rfl

theorem Wf.term_store (h : lib.Wf) (t : Term) :
    (lib.store t).library.term (lib.store t).node = .ok t := by
  rcases he : lib.terms.insert t with ⟨i, fresh, terms⟩
  have hv := h.arena.value_insert t
  rw [he] at hv
  rw [store_of_insert he]
  exact hv

theorem Wf.store_again (h : lib.Wf) (h' : lib'.Wf) {t : Term}
    (hops : ∀ m ∈ t.children, lib.contains m = true)
    (haccepts : t.kind.accepts t.children.length = true)
    (hlater : Library.Extends (lib.store t).library lib') :
    lib'.store t = ⟨(lib.store t).node, lib', []⟩ := by
  have hstored : (lib.store t).library.Wf := (h.grows_store t hops haccepts).wf
  apply h'.store_of_term
  exact h'.term?_eq_some_iff.1 (hlater (hstored.term?_eq (h.term_store t)))

/-- What was made before is found again. -/
theorem build_again (h : lib.Wf) (h' : lib'.Wf) {q : Maker NodeId}
    (hq : ∀ n ∈ q.operands, lib.contains n = true)
    (hlater : Library.Extends (q.build lib).library lib') :
    q.build lib' = ⟨(q.build lib).node, lib', []⟩ := by
  cases q with
  | constTrue => exact h.store_again h' (List.forall_mem_nil _) rfl hlater
  | constFalse => exact h.store_again h' (List.forall_mem_nil _) rfl hlater
  | newVariable name => exact h.store_again h' (List.forall_mem_nil _) rfl hlater
  | complement n => exact h.store_again h' hq rfl hlater
  | conjunction ns =>
    cases ns with
    | nil => exact h.store_again h' (List.forall_mem_nil _) rfl hlater
    | cons n ns =>
      exact h.store_again h' hq (by simp [Term.kind, Term.children, Kind.accepts]) hlater
  | disjunction ns =>
    cases ns with
    | nil => exact h.store_again h' (List.forall_mem_nil _) rfl hlater
    | cons n ns =>
      exact h.store_again h' hq (by simp [Term.kind, Term.children, Kind.accepts]) hlater

end Nary

/-! ## And-inverter graphs -/

namespace Aig

variable {G : Generator} {a : Aig G} {l r : Signal}

/-- A graph that has the terms of another one has its nodes. -/
theorem value_of_extends {b : Aig G} (he : Library.Extends a b) {i : Nat} {v : Node}
    (hv : a.nodes.value i = .ok v) : b.nodes.value i = .ok v := by
  cases v with
  | input x =>
    obtain ⟨j, hij, hj⟩ := (form_of_term? (he (Form.input hv).term?_eq)).exists_input
    rwa [Signal.ofIndex_inj.1 hij]
  | and l r =>
    obtain ⟨j, hij, hj⟩ := (form_of_term? (he (Form.gate hv).term?_eq)).exists_gate
    rwa [Signal.ofIndex_inj.1 hij]

/-- An input that is there is found again. -/
theorem Wf.input_of_value (h : a.Wf) {i : Nat} {name : String}
    (hv : a.nodes.value i = .ok (.input name)) : a.input name = ⟨.ofIndex i, a, []⟩ := by
  obtain ⟨nodes, count, source⟩ := a
  have he : nodes.insert (.input name) = ⟨i, false, nodes⟩ := h.arena.insert_of_value hv
  unfold Aig.input
  simp only [he]
  rfl

/-- A gate that is there is found again. -/
theorem Wf.gate_of_value (h : a.Wf) {i : Nat} (hv : a.nodes.value i = .ok (.and l r)) :
    a.gate l r = ⟨.ofIndex i, a, []⟩ := by
  obtain ⟨nodes, count, source⟩ := a
  have he : nodes.insert (.and l r) = ⟨i, false, nodes⟩ := h.arena.insert_of_value hv
  unfold Aig.gate
  simp only [he]
  rfl

theorem Wf.value_input (h : a.Wf) (name : String) :
    ∃ i, (a.input name).signal = .ofIndex i ∧
      (a.input name).graph.nodes.value i = .ok (.input name) := by
  obtain ⟨nodes, count, source⟩ := a
  rcases he : nodes.insert (.input name) with ⟨i, fresh, nodes'⟩
  obtain ⟨-, -, hv⟩ := h.insert (v := .input name) nofun count source he
  refine ⟨i, ?_⟩
  unfold Aig.input
  simp only [he]
  cases fresh with
  | true => exact ⟨rfl, hv⟩
  | false => exact ⟨rfl, hv⟩

theorem Wf.value_gate (h : a.Wf) (hl : a.Has l) (hr : a.Has r) :
    ∃ i, (a.gate l r).signal = .ofIndex i ∧
      (a.gate l r).graph.nodes.value i = .ok (.and l r) := by
  obtain ⟨nodes, count, source⟩ := a
  rcases he : nodes.insert (.and l r) with ⟨i, fresh, nodes'⟩
  have hops : ∀ l' r', Node.and l r = .and l' r' →
      Has ⟨nodes, count, source⟩ l' ∧ Has ⟨nodes, count, source⟩ r' := by
    rintro _ _ ⟨⟩
    exact ⟨hl, hr⟩
  obtain ⟨-, -, hv⟩ := h.insert hops count source he
  refine ⟨i, ?_⟩
  unfold Aig.gate
  simp only [he]
  exact ⟨trivial, hv⟩

section Again

variable {b : Aig G} (hb : b.Wf)
include hb

/-- An input that was asked for is found again in every later graph. -/
theorem Wf.input_again (h : a.Wf) {name : String}
    (hlater : Library.Extends (a.input name).graph b) :
    b.input name = ⟨(a.input name).signal, b, []⟩ := by
  obtain ⟨i, hs, hv⟩ := h.value_input name
  rw [hb.input_of_value (value_of_extends hlater hv), hs]

theorem Wf.gate_again (h : a.Wf) (hl : a.Has l) (hr : a.Has r)
    (hlater : Library.Extends (a.gate l r).graph b) :
    b.gate l r = ⟨(a.gate l r).signal, b, []⟩ := by
  obtain ⟨i, hs, hv⟩ := h.value_gate hl hr
  rw [hb.gate_of_value (value_of_extends hlater hv), hs]

theorem Wf.and_again (h : a.Wf) (hl : a.Has l) (hr : a.Has r)
    (hlater : Library.Extends (a.and l r).graph b) :
    b.and l r = ⟨(a.and l r).signal, b, []⟩ := by
  unfold Aig.and at hlater ⊢
  cases htrivial : trivialAnd? l r with
  | some s => rfl
  | none =>
    rw [htrivial] at hlater
    dsimp only at hlater ⊢
    by_cases hlt : l.raw < r.raw
    · rw [if_pos hlt] at hlater ⊢
      rw [if_pos hlt]
      exact hb.gate_again h hl hr hlater
    · rw [if_neg hlt] at hlater ⊢
      rw [if_neg hlt]
      exact hb.gate_again h hr hl hlater

theorem Wf.conjoin_again (h : a.Wf) {acc : Signal} (hacc : a.Has acc) {ss : List Signal}
    (hss : ∀ s ∈ ss, a.Has s) (hlater : Library.Extends (a.conjoin acc ss).graph b) :
    b.conjoin acc ss = ⟨(a.conjoin acc ss).signal, b, []⟩ := by
  induction ss generalizing a acc with
  | nil => rfl
  | cons s ss ih =>
    have hs : a.Has s := hss s List.mem_cons_self
    have hand := h.makes_and hacc hs
    have hrest : ∀ x ∈ ss, (a.and acc s).graph.Has x := fun x hx =>
      hand.has_of_has h (hss x (List.mem_cons_of_mem _ hx))
    have hconj := Wf.makes_conjoin hand.wf hand.has hrest
    -- The rest of the list was made after the first conjunction.
    have hfirst := hb.and_again h hacc hs fun _ _ ht => hlater (hconj.later ht)
    have hlast := ih hand.wf hand.has hrest hlater
    rw [conjoin, hfirst]
    dsimp only
    rw [hlast]
    rfl

theorem Wf.disjoin_again (h : a.Wf) {acc : Signal} (hacc : a.Has acc) {ss : List Signal}
    (hss : ∀ s ∈ ss, a.Has s) (hlater : Library.Extends (a.disjoin acc ss).graph b) :
    b.disjoin acc ss = ⟨(a.disjoin acc ss).signal, b, []⟩ := by
  rw [disjoin_eq] at hlater
  rw [disjoin_eq, disjoin_eq,
    hb.conjoin_again h hacc.negate (has_of_mem_map_negate hss) hlater]
  rfl

/-- What was made before is found again. -/
theorem build_again (h : a.Wf) {q : Maker NodeId} (hq : ∀ n ∈ q.operands, a.contains n = true)
    (hlater : Library.Extends (q.build a).library b) :
    q.build b = ⟨(q.build a).node, b, []⟩ := by
  cases q with
  | constTrue => rfl
  | constFalse => rfl
  | newVariable name =>
    show (b.input name).grown = _
    rw [hb.input_again h hlater]
    rfl
  | complement n => rfl
  | conjunction ns =>
    have hss : ∀ s ∈ ns.map Signal.ofNode, a.Has s := has_of_mem_map hq
    show (b.conjoin .one (ns.map .ofNode)).grown = _
    rw [hb.conjoin_again h has_one hss hlater]
    rfl
  | disjunction ns =>
    have hss : ∀ s ∈ ns.map Signal.ofNode, a.Has s := has_of_mem_map hq
    show (b.disjoin .zero (ns.map .ofNode)).grown = _
    rw [hb.disjoin_again h has_zero hss hlater]
    rfl

end Again

end Aig

end SatMemo
