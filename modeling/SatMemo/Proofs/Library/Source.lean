import SatMemo.Library.Aig

/-! # The random words of a graph

    Simulation draws on random words that a graph carries with it.  Two graphs
    that differ in nothing else have the same nodes and go on to have the same:
    what is asked of them is answered alike, and what is made in them is made
    alike. -/

namespace SatMemo

namespace Aig

variable {G : Generator} (a : Aig G) (g : G.State)

/-- The graph with other random words. -/
def withSource : Aig G :=
  { a with source := g }

@[simp] theorem nodes_withSource : (a.withSource g).nodes = a.nodes := rfl

/-- What was made, in a graph with other random words. -/
def Made.withSource (m : Made G) (g : G.State) : Made G :=
  { m with graph := m.graph.withSource g }

/-! ## Making nodes -/

theorem input_withSource (name : String) :
    (a.withSource g).input name = (a.input name).withSource g := by
  obtain ⟨nodes, inputCount, source⟩ := a
  unfold withSource input Made.withSource withSource
  rcases hinsert : nodes.insert (.input name) with ⟨i, fresh, nodes'⟩
  simp only [hinsert]
  cases fresh <;> rfl

theorem gate_withSource (l r : Signal) :
    (a.withSource g).gate l r = (a.gate l r).withSource g := by
  obtain ⟨nodes, inputCount, source⟩ := a
  unfold withSource gate Made.withSource withSource
  rcases hinsert : nodes.insert (.and l r) with ⟨i, fresh, nodes'⟩
  simp only [hinsert]

theorem and_withSource (l r : Signal) : (a.withSource g).and l r = (a.and l r).withSource g := by
  unfold and
  cases trivialAnd? l r with
  | some s => rfl
  | none =>
    by_cases hlt : l.raw < r.raw
    · simp only [if_pos hlt]
      exact gate_withSource a g l r
    · simp only [if_neg hlt]
      exact gate_withSource a g r l

theorem or_withSource (l r : Signal) : (a.withSource g).or l r = (a.or l r).withSource g := by
  unfold or
  rw [and_withSource]
  rfl

theorem conjoin_withSource (acc : Signal) (ss : List Signal) :
    (a.withSource g).conjoin acc ss = (a.conjoin acc ss).withSource g := by
  induction ss generalizing a acc with
  | nil => rfl
  | cons s ss ih =>
    unfold conjoin
    rw [and_withSource]
    unfold Made.withSource
    dsimp only
    rw [ih]
    rfl

theorem disjoin_withSource (acc : Signal) (ss : List Signal) :
    (a.withSource g).disjoin acc ss = (a.disjoin acc ss).withSource g := by
  induction ss generalizing a acc with
  | nil => rfl
  | cons s ss ih =>
    unfold disjoin
    rw [or_withSource]
    unfold Made.withSource
    dsimp only
    rw [ih]
    rfl

/-- A call that makes a node makes the same whatever the random words are, and leaves these
    alone. -/
def Undrawn (make : Aig G → Grown (Aig G)) : Prop :=
  ∀ a g, make (a.withSource g)
    = ⟨(make a).node, (make a).library.withSource g, (make a).events⟩

theorem undrawn_true : Undrawn (G := G) Library.makeTrue :=
  fun _ _ => rfl

theorem undrawn_false : Undrawn (G := G) Library.makeFalse :=
  fun _ _ => rfl

theorem undrawn_variable (name : String) : Undrawn (G := G) (Library.makeVariable · name) :=
  fun a g => congrArg Made.grown (input_withSource a g name)

theorem undrawn_not (n : NodeId) : Undrawn (G := G) (Library.makeNot · n) :=
  fun _ _ => rfl

theorem undrawn_and (ns : List NodeId) : Undrawn (G := G) (Library.makeAnd · ns) :=
  fun a g => congrArg Made.grown (conjoin_withSource a g .one (ns.map Signal.ofNode))

theorem undrawn_or (ns : List NodeId) : Undrawn (G := G) (Library.makeOr · ns) :=
  fun a g => congrArg Made.grown (disjoin_withSource a g .zero (ns.map Signal.ofNode))

/-! ## Reading nodes -/

theorem write_withSource (pieces : List Piece) (out : String) :
    (a.withSource g).write pieces out = a.write pieces out := by
  fun_induction write a pieces out with
  | case1 out => rw [write]
  | case2 out s rest ih => rw [write, ih]
  | case3 out s rest => rw [write]
  | case4 out depth s rest hconst ih =>
    rw [write, if_pos hconst]
    exact ih
  | case5 out depth s rest hconst fault hvalue =>
    rw [write, if_neg hconst, nodes_withSource, hvalue]
  | case6 out depth s rest hconst name hvalue ih =>
    rw [write, if_neg hconst, nodes_withSource, hvalue]
    exact ih
  | case7 out depth s rest hconst l r hvalue ih =>
    rw [write, if_neg hconst, nodes_withSource, hvalue]
    exact ih

theorem label_withSource : Library.label (a.withSource g) = Library.label a := by
  funext n
  have hprint : (a.withSource g).print n = a.print n := write_withSource ..
  show (a.withSource g).label n = a.label n
  unfold label
  rw [hprint]
  rfl

theorem collect_withSource (budget : Nat) (seen : Std.TreeSet Nat) (pending : List Nat) :
    (a.withSource g).collect budget seen pending = a.collect budget seen pending := by
  fun_induction collect a budget seen pending with
  | case1 budget seen pending hdrop => rw [collect, hdrop]
  | case2 budget seen pending i rest hdrop fault hvalue =>
    rw [collect, hdrop]
    simp only [nodes_withSource, hvalue]
  | case3 seen pending i rest hdrop v hvalue =>
    rw [collect, hdrop]
    simp only [nodes_withSource, hvalue]
  | case4 seen pending i rest hdrop name budget hvalue ih =>
    rw [collect, hdrop]
    simp only [nodes_withSource, hvalue]
    exact ih
  | case5 seen pending i rest hdrop l r budget hvalue ih =>
    rw [collect, hdrop]
    simp only [nodes_withSource, hvalue]
    exact ih

/-- Simulation on given words does not look at the graph's own. -/
theorem simulateWith_withSource {ρ : Type} (draw : ρ → UInt64 × ρ) (root : Signal) (rounds : Nat)
    (words : ρ) : (a.withSource g).simulateWith draw root rounds words
      = a.simulateWith draw root rounds words := by
  unfold simulateWith cone
  rw [nodes_withSource, collect_withSource]

end Aig

end SatMemo
