import SatMemo.Proofs.Bdd.Formed

/-! # What an edge denotes

    An edge is evaluated by walking from its node to the terminal, following the
    high edge where the variable is true and the low edge where it is false, and
    counting the marks on the way.

    The order of variables comes in with `Ordered`: below a node stand only
    nodes with smaller variables, and every remembered answer is one that
    if-then-else may give.  An edge of an ordered diagram depends on no variable
    above its own. -/

namespace SatMemo

namespace Bdd

/-! ## Evaluation -/

/-- The value of node `i`, marks on the way counted.  A walk that would not go on to an
    earlier node ends; in a well-formed diagram only the terminal ends one. -/
def nodeValue (m : Bdd) (α : Nat → Bool) (i : Nat) : Bool :=
  match m.nodes.value i with
  | .error _ => true
  | .ok d    =>
      let next := if α d.var then d.high else d.low
      if next.index < i then next.isNegated != nodeValue m α next.index else true
termination_by i

/-- The value of an edge under an assignment of the variables. -/
def eval (m : Bdd) (α : Nat → Bool) (e : Edge) : Bool :=
  e.isNegated != m.nodeValue α e.index

/-- The value of if-then-else on three edges. -/
def Triple.eval (m : Bdd) (α : Nat → Bool) (t : Triple) : Bool :=
  if m.eval α t.f then m.eval α t.g else m.eval α t.h

theorem nodeValue_of_stores {m : Bdd} {i : Nat} {d : Decision} (h : m.Stores i d)
    (hp : Proper i d) (α : Nat → Bool) :
    m.nodeValue α i = if α d.var then m.eval α d.high else m.eval α d.low := by
  rw [nodeValue, h]
  simp only [eval]
  -- The child comes before the node, so the walk goes on to it.
  cases α d.var with
  | true => simp [hp.high_lt]
  | false => simp [hp.low_lt]

theorem Formed.nodeValue_terminal {m : Bdd} (h : m.Formed) (α : Nat → Bool) :
    m.nodeValue α 1 = true := by
  rw [nodeValue, h.terminal]
  cases hα : α 0 <;> simp [Bdd.terminal, hα]

theorem Formed.eval_one {m : Bdd} (h : m.Formed) (α : Nat → Bool) : m.eval α .one = true := by
  unfold eval
  rw [Edge.index_one, h.nodeValue_terminal]
  rfl

theorem Formed.eval_zero {m : Bdd} (h : m.Formed) (α : Nat → Bool) : m.eval α .zero = false := by
  unfold eval
  rw [Edge.index_zero, h.nodeValue_terminal]
  rfl

theorem Known.eval_neg {m : Bdd} {e : Edge} (h : m.Known e) (α : Nat → Bool) :
    m.eval α (-e) = !m.eval α e := by
  unfold eval
  rw [Edge.isNegated_neg h.index_ne_zero, Edge.index_neg]
  cases e.isNegated <;> simp

theorem Known.eval_negateIf {m : Bdd} {e : Edge} (h : m.Known e) (b : Bool) (α : Nat → Bool) :
    m.eval α (e.negateIf b) = (b != m.eval α e) := by
  cases b with
  | true => rw [Edge.negateIf_true, h.eval_neg, Bool.true_bne]
  | false => rw [Edge.negateIf_false, Bool.false_bne]

/-- An edge to a decision decides on the variable, and hands its mark on. -/
theorem Formed.eval_of_stores {m : Bdd} (h : m.Formed) {e : Edge} {d : Decision}
    (hd : m.Stores e.index d) (he : e.index ≠ 1) (α : Nat → Bool) :
    m.eval α e = if α d.var then m.eval α (d.high.negateIf e.isNegated)
      else m.eval α (d.low.negateIf e.isNegated) := by
  rw [(h.known_high hd he).eval_negateIf, (h.known_low hd he).eval_negateIf, eval,
    nodeValue_of_stores hd (h.proper hd he)]
  cases α d.var <;> rfl

/-! ## Levels -/

/-- The variable an edge branches on, 0 for constants. -/
def level (m : Bdd) (e : Edge) : Nat :=
  match m.nodes.value e.index with
  | .ok d    => d.var
  | .error _ => 0

/-- The greatest variable of three edges. -/
def Triple.level (m : Bdd) (t : Triple) : Nat :=
  max (max (m.level t.f) (m.level t.g)) (m.level t.h)

theorem level_of_stores {m : Bdd} {e : Edge} {d : Decision} (h : m.Stores e.index d) :
    m.level e = d.var := by
  rw [level, h]

/-- The level of a known edge is the variable that the diagram tells. -/
theorem Known.variableOf_eq {m : Bdd} {e : Edge} (h : m.Known e) :
    m.variableOf e = .ok (m.level e) := by
  obtain ⟨d, hd⟩ := h
  rw [level_of_stores hd]
  unfold variableOf decision
  rw [hd]
  rfl

/-- The level is that of the node. -/
theorem level_of_index_eq (m : Bdd) {d e : Edge} (h : d.index = e.index) :
    m.level d = m.level e := by
  unfold level
  rw [h]

@[simp] theorem level_neg (m : Bdd) (e : Edge) : m.level (-e) = m.level e := by
  simp [level]

@[simp] theorem level_negateIf (m : Bdd) (b : Bool) (e : Edge) :
    m.level (e.negateIf b) = m.level e := by
  simp [level]

theorem Formed.level_one {m : Bdd} (h : m.Formed) : m.level .one = 0 :=
  level_of_stores (d := Bdd.terminal) h.terminal

theorem Formed.level_zero {m : Bdd} (h : m.Formed) : m.level .zero = 0 :=
  level_of_stores (d := Bdd.terminal) h.terminal

theorem Formed.level_eq_zero_iff {m : Bdd} (h : m.Formed) {e : Edge} (he : m.Known e) :
    m.level e = 0 ↔ e.index = 1 := by
  obtain ⟨d, hd⟩ := he
  rw [level_of_stores hd, h.var_eq_zero_iff hd]

/-! ## Growth changes no meaning -/

theorem Known.level_eq {m m' : Bdd} (hx : m.Extends m') {e : Edge} (h : m.Known e) :
    m'.level e = m.level e := by
  obtain ⟨d, hd⟩ := h
  rw [level_of_stores hd, level_of_stores (hx hd)]

/-- A node of a diagram has the same value in every diagram that extends it. -/
theorem Formed.nodeValue_eq {m m' : Bdd} (hf : m.Formed) (hf' : m'.Formed) (hx : m.Extends m')
    (α : Nat → Bool) (i : Nat) : ∀ {d}, m.Stores i d → m'.nodeValue α i = m.nodeValue α i := by
  -- Induction on the index, since children come before their parents.
  -- Again on the index; the variables of the children are below that of the node.
  induction i using Nat.strongRecOn with
  | ind i ih =>
    intro d hd
    by_cases hi : i = 1
    · rw [hi, hf.nodeValue_terminal, hf'.nodeValue_terminal]
    · have hp := hf.proper hd hi
      obtain ⟨dl, hdl⟩ := hf.known_low hd hi
      obtain ⟨dh, hdh⟩ := hf.known_high hd hi
      rw [nodeValue_of_stores hd hp, nodeValue_of_stores (hx hd) hp]
      simp only [eval, ih _ hp.low_lt hdl, ih _ hp.high_lt hdh]

theorem Formed.eval_eq {m m' : Bdd} (hf : m.Formed) (hf' : m'.Formed) (hx : m.Extends m')
    {e : Edge} (h : m.Known e) (α : Nat → Bool) : m'.eval α e = m.eval α e := by
  obtain ⟨d, hd⟩ := h
  rw [eval, eval, hf.nodeValue_eq hf' hx α _ hd]

theorem Triple.Known.eval_eq {m m' : Bdd} (hf : m.Formed) (hf' : m'.Formed) (hx : m.Extends m')
    {t : Triple} (h : Triple.Known m t) (α : Nat → Bool) :
    Triple.eval m' α t = Triple.eval m α t := by
  unfold Triple.eval
  rw [hf.eval_eq hf' hx h.f, hf.eval_eq hf' hx h.g, hf.eval_eq hf' hx h.h]

theorem Triple.Known.level_eq {m m' : Bdd} (hx : m.Extends m') {t : Triple}
    (h : Triple.Known m t) : Triple.level m' t = Triple.level m t := by
  unfold Triple.level
  rw [h.f.level_eq hx, h.g.level_eq hx, h.h.level_eq hx]

/-! ## Ordered diagrams -/

/-- The edge `r` may stand for if-then-else on `t`. -/
structure Solves (m : Bdd) (t : Triple) (r : Edge) : Prop where
  level : m.level r ≤ Triple.level m t
  eval  : ∀ α, m.eval α r = Triple.eval m α t

theorem Solves.mono {m m' : Bdd} (hf : m.Formed) (hf' : m'.Formed) (hx : m.Extends m')
    {t : Triple} {r : Edge} (ht : Triple.Known m t) (hr : m.Known r) (h : m.Solves t r) :
    m'.Solves t r where
  level := by
    rw [hr.level_eq hx, ht.level_eq hx]
    exact h.level
  eval := by
    intro α
    rw [hf.eval_eq hf' hx hr, ht.eval_eq hf hf' hx]
    exact h.eval α

/-- A well-formed diagram whose variables go down along every path, and whose memo table
    tells the truth. -/
structure Ordered (m : Bdd) : Prop extends m.Formed where
  low_lt  : ∀ {i d}, m.Stores i d → i ≠ 1 → m.level d.low < d.var
  high_lt : ∀ {i d}, m.Stores i d → i ≠ 1 → m.level d.high < d.var
  memo    : ∀ {t r}, m.memo.peek? t = some r → m.Solves t r

/-- No variable above its own makes a difference to a node. -/
theorem Ordered.nodeValue_congr {m : Bdd} (h : m.Ordered) {α β : Nat → Bool} (i : Nat) :
    ∀ {d}, m.Stores i d → (∀ v, 1 ≤ v → v ≤ d.var → α v = β v) →
      m.nodeValue α i = m.nodeValue β i := by
  induction i using Nat.strongRecOn with
  | ind i ih =>
    intro d hd hα
    by_cases hi : i = 1
    · rw [hi, h.nodeValue_terminal, h.nodeValue_terminal]
    · have hp := h.proper hd hi
      have hv : 1 ≤ d.var := Nat.one_le_iff_ne_zero.2 hp.var_ne
      obtain ⟨dl, hdl⟩ := h.known_low hd hi
      obtain ⟨dh, hdh⟩ := h.known_high hd hi
      have hlow := h.low_lt hd hi
      have hhigh := h.high_lt hd hi
      rw [level_of_stores hdl] at hlow
      rw [level_of_stores hdh] at hhigh
      have hl := ih _ hp.low_lt hdl (fun v h₁ h₂ => hα v h₁ (by omega))
      have hh := ih _ hp.high_lt hdh (fun v h₁ h₂ => hα v h₁ (by omega))
      rw [nodeValue_of_stores hd hp, nodeValue_of_stores hd hp]
      simp only [eval, hl, hh, hα d.var hv (Nat.le_refl _)]

theorem Ordered.eval_congr {m : Bdd} (h : m.Ordered) {e : Edge} (he : m.Known e)
    {α β : Nat → Bool} (hα : ∀ v, 1 ≤ v → v ≤ m.level e → α v = β v) :
    m.eval α e = m.eval β e := by
  obtain ⟨d, hd⟩ := he
  rw [level_of_stores hd] at hα
  rw [eval, eval, h.nodeValue_congr _ hd hα]

/-! ## Diagrams that differ in counts and names -/

/-- The diagrams have the same nodes and remember the same answers. -/
structure Alike (m m' : Bdd) : Prop where
  nodes : m'.nodes = m.nodes
  peek  : ∀ t, m'.memo.peek? t = m.memo.peek? t

theorem Alike.refl (m : Bdd) : m.Alike m :=
  ⟨rfl, fun _ => rfl⟩

theorem Alike.extends {m m' : Bdd} (h : m.Alike m') : m.Extends m' :=
  Extends.of_nodes_eq h.nodes

theorem Alike.formed {m m' : Bdd} (h : m.Alike m') (hf : m.Formed) : m'.Formed where
  arena := h.nodes ▸ hf.arena
  terminal := h.extends hf.terminal
  proper := by
    intro i d hd
    unfold Stores at hd
    rw [h.nodes] at hd
    exact hf.proper hd
  keys := by
    intro t r hr
    rw [h.peek] at hr
    exact (hf.keys hr).mono h.extends
  answers := by
    intro t r hr
    rw [h.peek] at hr
    exact (hf.answers hr).mono h.extends

theorem Alike.level_eq {m m' : Bdd} (h : m.Alike m') (e : Edge) : m'.level e = m.level e := by
  unfold level
  rw [h.nodes]

theorem Alike.ordered {m m' : Bdd} (h : m.Alike m') (ho : m.Ordered) : m'.Ordered where
  toFormed := h.formed ho.toFormed
  low_lt := by
    intro i d hd hi
    unfold Stores at hd
    rw [h.nodes] at hd
    rw [h.level_eq]
    exact ho.low_lt hd hi
  high_lt := by
    intro i d hd hi
    unfold Stores at hd
    rw [h.nodes] at hd
    rw [h.level_eq]
    exact ho.high_lt hd hi
  memo := by
    intro t r hr
    rw [h.peek] at hr
    exact (ho.memo hr).mono ho.toFormed (h.formed ho.toFormed) h.extends (ho.keys hr)
      (ho.answers hr)

/-! ## Where ordered diagrams come from -/

/-- A new diagram has nothing to order. -/
theorem Fresh.ordered {m : Bdd} {memoBits : Nat} (h : m.Fresh memoBits) : m.Ordered where
  toFormed := h.formed
  low_lt := fun hd hi => absurd (h.index_eq_one hd) hi
  high_lt := fun hd hi => absurd (h.index_eq_one hd) hi
  memo := by
    intro t r hr
    simp [h.memo] at hr

/-- A branch above its halves keeps a diagram ordered; `r` branches on `v` if it branches at
    all. -/
theorem Branched.ordered {m m' : Bdd} {v : Nat} {low high e : Edge} (h : m.Ordered)
    (hb : m.Branched v low high e m') (hl : m.Known low) (hh : m.Known high)
    (hlow : m.level low < v) (hhigh : m.level high < v) : m'.Ordered where
  toFormed := hb.formed
  low_lt := by
    intro j d hd hj
    rcases hb.stored hd with hd' | ⟨hv, hlo, _⟩
    · rw [(h.known_low hd' hj).level_eq hb.extended]
      exact h.low_lt hd' hj
    · -- The new node stands over the two halves.
      rw [level_of_index_eq m' hlo, hl.level_eq hb.extended, hv]
      exact hlow
  high_lt := by
    intro j d hd hj
    rcases hb.stored hd with hd' | ⟨hv, _, hhi⟩
    · rw [(h.known_high hd' hj).level_eq hb.extended]
      exact h.high_lt hd' hj
    · rw [level_of_index_eq m' hhi, hh.level_eq hb.extended, hv]
      exact hhigh
  memo := by
    intro t r hr
    rw [hb.memo] at hr
    exact (h.memo hr).mono h.toFormed hb.formed hb.extended (h.keys hr) (h.answers hr)

/-- The value of a branch is read off its halves, whatever the variable. -/
theorem Branched.eval {m m' : Bdd} {v : Nat} {low high e : Edge} (h : m.Formed)
    (hb : m.Branched v low high e m') (hl : m.Known low) (hh : m.Known high) (α : Nat → Bool) :
    m'.eval α e = if α v then m.eval α high else m.eval α low := by
  rw [← h.eval_eq hb.formed hb.extended hl, ← h.eval_eq hb.formed hb.extended hh]
  rcases hb.shape with ⟨rfl, rfl⟩ | ⟨d, hd, he, hv, hlo, hhi⟩
  · exact (ite_self _).symm
  · rw [hb.formed.eval_of_stores hd he, hv, hlo, hhi]

theorem Branched.level_le {m m' : Bdd} {v : Nat} {low high e : Edge}
    (hb : m.Branched v low high e m') (hl : m.Known low) (hlow : m.level low ≤ v) :
    m'.level e ≤ v := by
  rcases hb.shape with ⟨_, rfl⟩ | ⟨d, hd, _, hv, _, _⟩
  · rwa [hl.level_eq hb.extended]
  · exact Nat.le_of_eq ((level_of_stores hd).trans hv)

end Bdd

end SatMemo
