import SatMemo.Proofs.Bdd.Canonical
import SatMemo.Proofs.Decider.Talk

/-! # Diagrams are exact deciders

    What a decider may be asked for is a matter of the operations of a diagram,
    and a query of canonicity: an edge that is not the constant false one denotes
    a function that is true somewhere. -/

namespace SatMemo

namespace Bdd

/-- In an ordered diagram the reply is an edge for `F`, and `n` variables are new. -/
def Answers (m : Bdd) (n : Nat) (F : BoolFn) (p : Reply Bdd Edge) : Prop :=
  ∃ r m' events, p = ⟨.ok r, m', events⟩ ∧ m'.Ordered ∧ m.Extends m' ∧ m'.Known r ∧
    m'.varCount = m.varCount + n ∧ ∀ α, m'.eval α r = F α

theorem Produces.answers {m : Bdd} {F : BoolFn} {p : Reply Bdd Edge} (h : m.Produces F p)
    (ho : m.Ordered) : m.Answers 0 F p := by
  obtain ⟨r, m', events, rfl, hp⟩ := h
  exact ⟨r, m', events, rfl, hp.ordered ho, hp.extended, hp.known, hp.same.varCount, hp.eval ho⟩

theorem Ordered.answers_newVariable {m : Bdd} (ho : m.Ordered) (name : String) :
    m.Answers 1 (.var (m.varCount + 1)) (m.newVariable name) := by
  have halike := alike_named m name
  have ho' := halike.ordered ho
  obtain ⟨r, m', events, hrun, hp⟩ := ho.toFormed.produces_newVariable name
  exact ⟨r, m', events, hrun, hp.ordered ho', halike.extends.trans hp.extended, hp.known,
    hp.same.varCount.trans (varCount_named m name), hp.eval ho'⟩

/-- What a decider is asked for is made, if every operand denotes its function. -/
theorem Ordered.answers_maker {m : Bdd} (ho : m.Ordered) {q : Maker (Edge × BoolFn)}
    (hk : ∀ x ∈ q.operands, m.Known x.1)
    (he : ∀ x ∈ q.operands, ∀ α, m.eval α x.1 = x.2 α) :
    m.Answers q.isVariable.toNat ((q.map Prod.snd).meaning (m.varCount + 1))
      ((q.map Prod.fst).run m) := by
  have hks : ∀ e ∈ q.operands.map Prod.fst, m.Known e := by
    intro e hmem
    obtain ⟨x, hx, rfl⟩ := List.mem_map.1 hmem
    exact hk x hx
  cases q with
  | constTrue =>
    exact (ho.toFormed.produces_ok ho.known_one ho.eval_one).answers ho
  | constFalse =>
    exact (ho.toFormed.produces_ok ho.known_zero ho.eval_zero).answers ho
  | newVariable name =>
    exact ho.answers_newVariable name
  | complement x =>
    have hmem : x ∈ [x] := List.mem_cons_self ..
    refine (ho.toFormed.produces_ok (hk x hmem).neg fun α => ?_).answers ho
    rw [(hk x hmem).eval_neg, he x hmem]
    rfl
  | conjunction xs =>
    exact ((ho.toFormed.produces_conjunction hks).congr fun α =>
      BoolFn.all_fst_eq fun x hx => he x hx α).answers ho
  | disjunction xs =>
    exact ((ho.toFormed.produces_disjunction hks).congr fun α =>
      BoolFn.any_fst_eq fun x hx => he x hx α).answers ho

/-! ## Talks -/

/-- The functions of a talk in the numbering of the diagram, whose first variable is 1. -/
def shift (F : BoolFn) : BoolFn :=
  F.rename fun i => i + 1

theorem satisfiable_shift_iff {F : BoolFn} : (shift F).Satisfiable ↔ F.Satisfiable :=
  BoolFn.satisfiable_rename_iff (fun i => i + 1) (fun i => i - 1) fun i => Nat.add_sub_cancel i 1

/-- A talk in which every edge denotes its function. -/
structure Truthful (t : Talk Bdd Edge) : Prop where
  ordered : t.state.Ordered
  count   : t.state.varCount = t.vars.length
  known   : ∀ x ∈ t.given, t.state.Known x.1
  eval    : ∀ x ∈ t.given, ∀ α, t.state.eval α x.1 = shift x.2 α

theorem truthful_start {storageBits memoBits : Nat} {m : Bdd}
    (hm : ofBits storageBits memoBits = .ok m) : Truthful (Talk.start m) where
  ordered := (fresh_of_ofBits hm).ordered
  count := (fresh_of_ofBits hm).varCount
  known := by
    intro x hx
    cases hx
  eval := by
    intro x hx
    cases hx

theorem Truthful.answers {t : Talk Bdd Edge} (h : Truthful t) {q : Maker (Edge × BoolFn)}
    (hq : t.Knows q) :
    t.state.Answers q.isVariable.toNat (shift ((q.map Prod.snd).meaning t.vars.length))
      ((q.map Prod.fst).run t.state) := by
  have hanswers := h.ordered.answers_maker (q := q.map fun x => (x.1, shift x.2))
    (by
      intro x hx
      rw [Maker.operands_map] at hx
      obtain ⟨y, hy, rfl⟩ := List.mem_map.1 hx
      exact h.known y (hq y hy))
    (by
      intro x hx
      rw [Maker.operands_map] at hx
      obtain ⟨y, hy, rfl⟩ := List.mem_map.1 hx
      exact h.eval y (hq y hy))
  rw [h.count, Maker.isVariable_map, Maker.map_map, Maker.map_map] at hanswers
  unfold shift
  rw [Maker.meaning_rename, Maker.map_map]
  exact hanswers

theorem Truthful.made {t : Talk Bdd Edge} (h : Truthful t) {q : Maker (Edge × BoolFn)}
    (hq : t.Knows q) {r : Edge} {m : Bdd} {events : List Event}
    (hrun : (q.map Prod.fst).run t.state = ⟨.ok r, m, events⟩) : Truthful (t.made q r m) := by
  obtain ⟨r', m', events', hrun', ho, hx, hr, hcount, heval⟩ := h.answers hq
  -- A call has one answer, so this one is the one that is known to be right.
  rw [hrun] at hrun'
  injection hrun' with hr' hm' _
  cases hr'
  cases hm'
  refine ⟨ho, ?_, ?_, ?_⟩
  · show m.varCount = (if q.isVariable then t.vars ++ [r] else t.vars).length
    rw [hcount, h.count]
    cases q.isVariable
    · rfl
    · simp
  · intro x hmem
    rcases List.mem_cons.1 hmem with rfl | hmem
    · exact hr
    · exact (h.known x hmem).mono hx
  · intro x hmem α
    rcases List.mem_cons.1 hmem with rfl | hmem
    · exact heval α
    · rw [← h.eval x hmem]
      exact h.ordered.eval_eq ho.toFormed hx (h.known x hmem) α

theorem truthful_of_reached {storageBits memoBits : Nat} {m : Bdd}
    (hm : ofBits storageBits memoBits = .ok m) {t : Talk Bdd Edge} (ht : Talk.Reached m t) :
    Truthful t := by
  induction ht with
  | start => exact truthful_start hm
  | make _ hq hrun ih => exact ih.made hq hrun
  | query _ _ hrun ih =>
    cases hrun
    exact ⟨ih.ordered, ih.count, ih.known, ih.eval⟩

/-- A new diagram is an exact decider. -/
theorem exact_of_ofBits {storageBits memoBits : Nat} {m : Bdd}
    (hm : ofBits storageBits memoBits = .ok m) : Decider.Exact m where
  make := by
    intro t ht q hq
    obtain ⟨r, m', events, hrun, _⟩ := (truthful_of_reached hm ht).answers hq
    exact ⟨r, m', events, hrun⟩
  query := by
    intro t ht x hx
    have h := truthful_of_reached hm ht
    refine ⟨_, _, _, rfl, (h.ordered.isSatisfiable_iff (h.known x hx)).trans ?_⟩
    rw [← satisfiable_shift_iff]
    exact exists_congr fun α => by rw [h.eval x hx]

end Bdd

end SatMemo
