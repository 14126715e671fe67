import SatMemo.Bdd.Ite
import SatMemo.Proofs.Store.Arena
import SatMemo.Proofs.Store.Memo

/-! # Well-formed diagrams

    A diagram is well formed if every node but the terminal branches on a
    variable, has two different children with smaller indices, and does not mark
    its high edge.  The order of variables is no part of it: that a
    diagram is acyclic is already clear from the indices.

    Making a node keeps a diagram well formed and changes no node that is
    there, whatever variable the node branches on. -/

namespace SatMemo

/-! ## Edges -/

namespace Edge

@[simp] theorem index_ofIndex (i : Nat) : (ofIndex i).index = i := by
  simp [ofIndex, index]

@[simp] theorem isNegated_ofIndex (i : Nat) : (ofIndex i).isNegated = false := by
  exact decide_eq_false (by simp only [ofIndex]; omega)

@[simp] theorem index_one : one.index = 1 := rfl

@[simp] theorem index_zero : zero.index = 1 := rfl

/-- The mark of a complement is the other one, where there is a mark at all. -/
theorem isNegated_neg {e : Edge} (h : e.index ≠ 0) : (-e).isNegated = !e.isNegated := by
  have hc : e.code ≠ 0 := by
    intro hc
    exact h (by simp [index, hc])
  show decide (-e.code < 0) = !decide (e.code < 0)
  rw [← decide_not, decide_eq_decide]
  omega

@[simp] theorem index_negateIf (b : Bool) (e : Edge) : (negateIf b e).index = e.index := by
  cases b
  · rfl
  · exact index_neg e

theorem isNegated_negateIf {e : Edge} (h : e.index ≠ 0) (b : Bool) :
    (negateIf b e).isNegated = (b != e.isNegated) := by
  cases b
  · simp
  · rw [negateIf_true, isNegated_neg h, Bool.true_bne]

@[simp] theorem negateIf_negateIf (b : Bool) (e : Edge) : negateIf b (negateIf b e) = e := by
  cases b <;> simp

theorem negateIf_injective {b : Bool} {d e : Edge} (h : negateIf b d = negateIf b e) : d = e := by
  rw [← negateIf_negateIf b d, h, negateIf_negateIf]

/-- An edge is its index and its mark. -/
theorem eq_of_index_eq {d e : Edge} (hi : d.index = e.index) (hm : d.isNegated = e.isNegated) :
    d = e := by
  cases d with
  | mk c =>
    cases e with
    | mk c' =>
      simp only [index, isNegated, decide_eq_decide, mk.injEq] at hi hm ⊢
      omega

/-- The edges to the terminal are the constants. -/
theorem eq_one_or_eq_zero {e : Edge} (h : e.index = 1) : e = one ∨ e = zero := by
  cases e with
  | mk c =>
    simp only [index, one, zero, mk.injEq] at h ⊢
    omega

end Edge

namespace Bdd

/-! ## Stored nodes -/

/-- The node of index `i` is the decision `d`. -/
def Stores (m : Bdd) (i : Nat) (d : Decision) : Prop :=
  m.nodes.value i = .ok d

/-- The edge leads to a node of the diagram. -/
def Known (m : Bdd) (e : Edge) : Prop :=
  ∃ d, m.Stores e.index d

/-- Every node is still where it was. -/
def Extends (m m' : Bdd) : Prop :=
  ∀ ⦃i d⦄, m.Stores i d → m'.Stores i d

theorem Stores.unique {m : Bdd} {i : Nat} {d d' : Decision} (h : m.Stores i d)
    (h' : m.Stores i d') : d = d' :=
  Except.ok.inj (h.symm.trans h')

theorem Extends.refl (m : Bdd) : m.Extends m :=
  fun _ _ h => h

theorem Extends.trans {m₁ m₂ m₃ : Bdd} (h : m₁.Extends m₂) (h' : m₂.Extends m₃) :
    m₁.Extends m₃ :=
  fun _ _ hs => h' (h hs)

theorem Extends.of_nodes_eq {m m' : Bdd} (h : m'.nodes = m.nodes) : m.Extends m' := by
  intro i d hs
  unfold Stores at hs ⊢
  rwa [h]

theorem known_iff {m : Bdd} {e : Edge} : m.Known e ↔ 1 ≤ e.index ∧ e.index ≤ m.nodeCount :=
  Arena.exists_value_iff

theorem Known.index_ne_zero {m : Bdd} {e : Edge} (h : m.Known e) : e.index ≠ 0 := by
  have := (known_iff.1 h).1
  omega

theorem Known.mono {m m' : Bdd} (hx : m.Extends m') {e : Edge} (h : m.Known e) : m'.Known e := by
  obtain ⟨d, hd⟩ := h
  exact ⟨d, hx hd⟩

theorem known_of_index_eq {m : Bdd} {d e : Edge} (h : m.Known e) (hi : d.index = e.index) :
    m.Known d := by
  unfold Known
  rwa [hi]

theorem Known.neg {m : Bdd} {e : Edge} (h : m.Known e) : m.Known (-e) :=
  known_of_index_eq h (Edge.index_neg e)

theorem Known.negateIf {m : Bdd} {e : Edge} (h : m.Known e) (b : Bool) : m.Known (e.negateIf b) :=
  known_of_index_eq h (Edge.index_negateIf b e)

/-! ## Well-formedness -/

/-- What the decision at index `i` has to look like, unless it is the terminal. -/
structure Proper (i : Nat) (d : Decision) : Prop where
  var_ne    : d.var ≠ 0
  low_pos   : 1 ≤ d.low.index
  high_pos  : 1 ≤ d.high.index
  /-- Children come before their parents. -/
  low_lt    : d.low.index < i
  high_lt   : d.high.index < i
  /-- The high edge carries no mark. -/
  plain     : d.high.isNegated = false
  /-- The decision makes a difference. -/
  differ    : d.low ≠ d.high

/-- The operands of a triple are nodes of the diagram. -/
structure Triple.Known (m : Bdd) (t : Triple) : Prop where
  f : m.Known t.f
  g : m.Known t.g
  h : m.Known t.h

theorem Triple.Known.mono {m m' : Bdd} (hx : m.Extends m') {t : Triple} (h : Triple.Known m t) :
    Triple.Known m' t :=
  ⟨h.f.mono hx, h.g.mono hx, h.h.mono hx⟩

/-- A well-formed diagram.  Its memo table speaks of its own nodes. -/
structure Formed (m : Bdd) : Prop where
  arena    : m.nodes.Wf
  terminal : m.Stores 1 Bdd.terminal
  proper   : ∀ {i d}, m.Stores i d → i ≠ 1 → Proper i d
  keys     : ∀ {t r}, m.memo.peek? t = some r → Triple.Known m t
  answers  : ∀ {t r}, m.memo.peek? t = some r → m.Known r

theorem Formed.known_one {m : Bdd} (h : m.Formed) : m.Known .one :=
  ⟨_, h.terminal⟩

theorem Formed.known_zero {m : Bdd} (h : m.Formed) : m.Known .zero :=
  ⟨_, h.terminal⟩

/-- An edge with a smaller index than a stored node leads to a stored node. -/
theorem known_of_index_lt {m : Bdd} {i : Nat} {d : Decision} (h : m.Stores i d) {e : Edge}
    (hpos : 1 ≤ e.index) (hlt : e.index < i) : m.Known e := by
  have := (Arena.le_size_of_value h).2
  refine known_iff.2 ⟨hpos, ?_⟩
  -- The bound is the size of the arena.
  unfold nodeCount
  omega

theorem Formed.known_low {m : Bdd} (h : m.Formed) {i : Nat} {d : Decision} (hd : m.Stores i d)
    (hi : i ≠ 1) : m.Known d.low :=
  known_of_index_lt hd (h.proper hd hi).low_pos (h.proper hd hi).low_lt

theorem Formed.known_high {m : Bdd} (h : m.Formed) {i : Nat} {d : Decision} (hd : m.Stores i d)
    (hi : i ≠ 1) : m.Known d.high :=
  known_of_index_lt hd (h.proper hd hi).high_pos (h.proper hd hi).high_lt

/-- Only the terminal has no variable. -/
theorem Formed.var_eq_zero_iff {m : Bdd} (h : m.Formed) {i : Nat} {d : Decision}
    (hd : m.Stores i d) : d.var = 0 ↔ i = 1 := by
  constructor
  · intro hv
    by_cases hi : i = 1
    · exact hi
    · exact absurd hv (h.proper hd hi).var_ne
  · rintro rfl
    rw [hd.unique h.terminal]
    rfl

/-- Other nodes and names are kept with the memo table. -/
structure SameElsewhere (m m' : Bdd) : Prop where
  varCount : m'.varCount = m.varCount
  names    : m'.names = m.names

theorem SameElsewhere.refl (m : Bdd) : SameElsewhere m m :=
  ⟨rfl, rfl⟩

theorem SameElsewhere.trans {m₁ m₂ m₃ : Bdd} (h : SameElsewhere m₁ m₂)
    (h' : SameElsewhere m₂ m₃) : SameElsewhere m₁ m₃ :=
  ⟨h'.varCount.trans h.varCount, h'.names.trans h.names⟩

/-! ## Setting up -/

/-- The arena of a new diagram holds the terminal and nothing else. -/
theorem toList_insert_terminal (storageBits : Nat) :
    ((Arena.empty storageBits).insert Bdd.terminal).arena.toList = [Bdd.terminal] := by
  have hnone : ∀ i, (Arena.empty storageBits : Arena Decision).value i ≠ .ok Bdd.terminal :=
    fun i => Arena.value_empty_ne storageBits i _
  obtain ⟨b, hb, hlist, _⟩ := (Arena.wf_empty storageBits).insert_of_forall_ne hnone
  rw [hb, hlist]
  simp [Arena.toList, Arena.empty]

/-- What a new diagram consists of. -/
structure Fresh (m : Bdd) (memoBits : Nat) : Prop where
  arena    : m.nodes.Wf
  nodes    : m.nodes.toList = [Bdd.terminal]
  memo     : m.memo = .empty memoBits
  varCount : m.varCount = 0

/-- There is a new diagram over stores of an allowed size. -/
theorem exists_ofBits_eq_ok {storageBits memoBits : Nat} (hs : storageBits ≤ 31)
    (hm : memoBits ≤ 31) : ∃ m, ofBits storageBits memoBits = .ok m := by
  simp [ofBits, Arena.ofBits, Memo.ofBits, hs, hm, bind, Except.bind, pure, Except.pure]

theorem fresh_of_ofBits {storageBits memoBits : Nat} {m : Bdd}
    (h : ofBits storageBits memoBits = .ok m) : m.Fresh memoBits := by
  cases m with
  | mk nodes memo varCount names =>
    unfold ofBits Arena.ofBits Memo.ofBits at h
    split at h
    · split at h
      · simp only [bind, Except.bind, pure, Except.pure, Except.ok.injEq, Bdd.mk.injEq] at h
        obtain ⟨hnodes, hmemo, hcount, -⟩ := h
        refine ⟨?_, ?_, hmemo.symm, hcount.symm⟩
        · show nodes.Wf
          rw [← hnodes]
          exact (Arena.wf_empty storageBits).insert Bdd.terminal
        · show nodes.toList = _
          rw [← hnodes]
          exact toList_insert_terminal storageBits
      · cases h
    · cases h

/-- A new diagram stores nothing but the terminal. -/
theorem Fresh.index_eq_one {m : Bdd} {memoBits : Nat} (h : m.Fresh memoBits) {i : Nat}
    {d : Decision} (hd : m.Stores i d) : i = 1 := by
  have hsize := Arena.le_size_of_value hd
  rw [← Arena.length_toList, h.nodes] at hsize
  simp only [List.length_singleton] at hsize
  omega

theorem Fresh.formed {m : Bdd} {memoBits : Nat} (h : m.Fresh memoBits) : m.Formed where
  arena := h.arena
  terminal := Arena.value_eq_ok_iff.2 ⟨by omega, by rw [h.nodes]; rfl⟩
  proper := fun hd hi => absurd (h.index_eq_one hd) hi
  keys := by
    intro t r hr
    simp [h.memo] at hr
  answers := by
    intro t r hr
    simp [h.memo] at hr

/-! ## Making nodes -/

/-- Storing a decision that may stand in a well-formed diagram. -/
theorem Formed.store {m : Bdd} (h : m.Formed) {d : Decision} (hv : d.var ≠ 0)
    (hl : m.Known d.low) (hh : m.Known d.high) (hp : d.high.isNegated = false)
    (hd : d.low ≠ d.high) :
    ∃ i m', m.store d = (Edge.ofIndex i, m') ∧ m'.Formed ∧ m.Extends m' ∧ m'.Stores i d ∧
      m'.memo = m.memo ∧ SameElsewhere m m' ∧
      ∀ {j d'}, m'.Stores j d' → m.Stores j d' ∨ j = i ∧ d' = d := by
  cases m with
  | mk nodes memo varCount names =>
    have hx : Extends ⟨nodes, memo, varCount, names⟩
        ⟨(nodes.insert d).arena, memo, varCount, names⟩ :=
      fun _ _ hs => h.arena.value_insert_of_value d hs
    have hback : ∀ {j d'}, (nodes.insert d).arena.value j = .ok d' →
        nodes.value j = .ok d' ∨ j = (nodes.insert d).index ∧ d' = d :=
      fun hs => h.arena.value_of_value_insert d hs
    refine ⟨(nodes.insert d).index, ⟨(nodes.insert d).arena, memo, varCount, names⟩, rfl,
      ⟨h.arena.insert d, hx h.terminal, ?_, ?_, ?_⟩, hx, h.arena.value_insert d, rfl, ⟨rfl, rfl⟩,
      hback⟩
    · intro j d' hs hj
      rcases hback hs with hs | ⟨rfl, rfl⟩
      · exact h.proper hs hj
      · -- A new node comes behind all that are there, an old one was proper before.
        rcases h.arena.insert_cases d' with ⟨i, hi, he⟩ | ⟨_, b, he, _, _⟩
        · rw [he] at hj ⊢
          exact h.proper hi hj
        · rw [he]
          have hl' := known_iff.1 hl
          have hh' := known_iff.1 hh
          unfold nodeCount at hl' hh'
          exact {
            var_ne   := hv
            low_pos  := hl'.1
            high_pos := hh'.1
            low_lt   := Nat.lt_succ_of_le hl'.2
            high_lt  := Nat.lt_succ_of_le hh'.2
            plain    := hp
            differ   := hd }
    · intro t r hr
      exact (h.keys hr).mono hx
    · intro t r hr
      exact (h.answers hr).mono hx

/-- What it means that `e` was made as the branch on `v` over `low` and `high`. -/
structure Branched (m : Bdd) (v : Nat) (low high e : Edge) (m' : Bdd) : Prop where
  formed   : m'.Formed
  extended : m.Extends m'
  known    : m'.Known e
  memo     : m'.memo = m.memo
  same     : SameElsewhere m m'
  /-- Either the branch makes no difference, or `e` is the node over the two halves. -/
  shape    : low = high ∧ e = low ∨
    ∃ d, m'.Stores e.index d ∧ e.index ≠ 1 ∧ d.var = v ∧
      d.low.negateIf e.isNegated = low ∧ d.high.negateIf e.isNegated = high
  /-- Nothing else was stored. -/
  stored   : ∀ {j d}, m'.Stores j d → m.Stores j d ∨
    d.var = v ∧ d.low.index = low.index ∧ d.high.index = high.index

/-- The branch is a node that was just stored. -/
theorem Formed.branched {m m' : Bdd} {d : Decision} {low high e : Edge} (hf : m'.Formed)
    (hx : m.Extends m') (hs : m'.Stores e.index d) (hmemo : m'.memo = m.memo)
    (hsame : SameElsewhere m m')
    (hback : ∀ {j d'}, m'.Stores j d' → m.Stores j d' ∨ j = e.index ∧ d' = d) (hv : d.var ≠ 0)
    (hlow : d.low.negateIf e.isNegated = low) (hhigh : d.high.negateIf e.isNegated = high) :
    m.Branched d.var low high e m' where
  formed := hf
  extended := hx
  known := ⟨d, hs⟩
  memo := hmemo
  same := hsame
  shape := .inr ⟨d, hs, fun hi => hv ((hf.var_eq_zero_iff hs).2 hi), rfl, hlow, hhigh⟩
  stored := by
    intro j d' hj
    rcases hback hj with hj | ⟨_, rfl⟩
    · exact .inl hj
    · exact .inr ⟨rfl, by rw [← hlow, Edge.index_negateIf], by rw [← hhigh, Edge.index_negateIf]⟩

/-- A branch on a variable can always be made. -/
theorem Formed.branch {m : Bdd} (h : m.Formed) {v : Nat} (hv : v ≠ 0) {low high : Edge}
    (hl : m.Known low) (hh : m.Known high) :
    ∃ e m', m.branch v low high = .ok e m' ∧ m.Branched v low high e m' := by
  by_cases heq : low = high
  · -- No node is needed.
    refine ⟨low, m, by simp [Bdd.branch, hv, heq], ?_⟩
    exact {
      formed   := h
      extended := Extends.refl m
      known    := hl
      memo     := rfl
      same     := .refl m
      shape    := .inl ⟨heq, rfl⟩
      stored   := .inl }
  · cases hneg : high.isNegated with
    | false =>
      -- The node over the two halves as they are.
      obtain ⟨i, m', hstore, hf, hx, hs, hmemo, hsame, hback⟩ :=
        h.store (d := ⟨v, low, high⟩) hv hl hh hneg heq
      refine ⟨Edge.ofIndex i, m', by simp [Bdd.branch, hv, heq, hneg, hstore], ?_⟩
      have hindex : (Edge.ofIndex i).index = i := Edge.index_ofIndex i
      rw [← hindex] at hs hback
      exact hf.branched (d := ⟨v, low, high⟩) hx hs hmemo hsame hback hv (by simp) (by simp)
    | true =>
      -- The high edge may carry no mark, so the node is made over the complements and
      -- the mark put on the edge to it.
      have hplain : (-high).isNegated = false := by
        rw [Edge.isNegated_neg hh.index_ne_zero, hneg]
        rfl
      have hne : -low ≠ -high := by
        intro hn
        exact heq (by rw [← Edge.neg_neg low, hn, Edge.neg_neg])
      obtain ⟨i, m', hstore, hf, hx, hs, hmemo, hsame, hback⟩ :=
        h.store (d := ⟨v, -low, -high⟩) hv hl.neg hh.neg hplain hne
      refine ⟨-Edge.ofIndex i, m', by simp [Bdd.branch, hv, heq, hneg, hstore], ?_⟩
      have hindex : (-Edge.ofIndex i).index = i := by rw [Edge.index_neg, Edge.index_ofIndex]
      have hi : i ≠ 0 := (Arena.value_eq_ok_iff.1 hs).1
      have hmark : (-Edge.ofIndex i).isNegated = true := by
        rw [Edge.isNegated_neg (by rwa [Edge.index_ofIndex]), Edge.isNegated_ofIndex]
        rfl
      rw [← hindex] at hs hback
      exact hf.branched (d := ⟨v, -low, -high⟩) hx hs hmemo hsame hback hv (by simp [hmark])
        (by simp [hmark])

end Bdd

end SatMemo
