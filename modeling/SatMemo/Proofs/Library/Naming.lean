import SatMemo.Proofs.Library.Aig
import SatMemo.Proofs.Library.Making
import SatMemo.Proofs.Library.Nary

/-! # Variables by name

    Both libraries keep a variable under its name and have one node for each name.
    Whoever asks for a variable gets the node that is there, if there is one.  So
    which names a library knows depends on the names that it was asked for, and
    on nothing else it was asked.

    `Introduces` says what any number of calls do to the variables.  The operands of the
    calls may be any numbers at all: nothing here needs the nodes to make sense,
    only that the arena stores every value once. -/

namespace SatMemo

/-! ## What insertions do -/

namespace Arena

variable {α : Type} [Keyed α] [DecidableEq α] {a b : Arena α}

/-- The arena `b` is `a` after the values `vs` were put in. -/
structure Gains (vs : List α) (a b : Arena α) : Prop where
  wf         : b.Wf
  kept       : ∀ {i v}, a.value i = .ok v → b.value i = .ok v
  stored_iff : ∀ v, (∃ i, b.value i = .ok v) ↔ (∃ i, a.value i = .ok v) ∨ v ∈ vs

theorem Wf.gains_insert (h : a.Wf) (v : α) : Gains [v] a (a.insert v).arena where
  wf := h.insert v
  kept := h.value_insert_of_value v
  stored_iff := by
    intro w
    constructor
    · intro ⟨i, hi⟩
      obtain hi | ⟨_, rfl⟩ := h.value_of_value_insert v hi
      · exact .inl ⟨i, hi⟩
      · exact .inr (List.mem_singleton.2 rfl)
    · rintro (⟨i, hi⟩ | hw)
      · exact ⟨i, h.value_insert_of_value v hi⟩
      · rw [List.mem_singleton.1 hw]
        exact ⟨_, h.value_insert v⟩

omit [DecidableEq α] in
/-- An index that was in use has the value that it had. -/
theorem Gains.value_iff {vs : List α} (h : Gains vs a b) {i : Nat} {v w : α}
    (hv : a.value i = .ok v) : b.value i = .ok w ↔ a.value i = .ok w := by
  rw [hv, h.kept hv]

end Arena

/-- The names that a call asks for variables of. -/
def Maker.names {ρ : Type} : Maker ρ → List String
  | newVariable s => [s]
  | _             => []

theorem Maker.mem_flatMap_names {ρ : Type} {qs : List (Maker ρ)} {s : String} :
    s ∈ qs.flatMap names ↔ newVariable s ∈ qs := by
  rw [List.mem_flatMap]
  constructor
  · intro ⟨q, hq, hs⟩
    cases q with
    | newVariable t => exact List.mem_singleton.1 hs ▸ hq
    | _ => cases hs
  · intro hq
    exact ⟨_, hq, List.mem_singleton.2 rfl⟩

namespace Library

variable {ε : Type} [Library ε] {lib lib₁ lib₂ : ε} {m n : NodeId} {s t : String}

/-! ## The laws of variables -/

/-- How a library keeps its variables. -/
class Naming (ε : Type) [Library ε] where
  /-- Every value is stored once. -/
  Kept : ε → Prop
  /-- The node is the variable of that name. -/
  Named : ε → NodeId → String → Prop
  held : ∀ {lib n s}, Named lib n s → contains lib n = true

variable [Naming ε]

/-- The library has a variable of that name. -/
def Knows (lib : ε) (s : String) : Prop :=
  ∃ n, Naming.Named lib n s

/-- What becomes of a library that is asked for variables of the given names, and for other
    things: its nodes are what they were, and no other names are known. -/
structure Introduces (names : List String) (lib lib' : ε) : Prop where
  kept      : Naming.Kept lib'
  held      : ∀ {n}, contains lib n = true → contains lib' n = true
  named_iff : ∀ {n s}, contains lib n = true → (Naming.Named lib' n s ↔ Naming.Named lib n s)
  knows_iff : ∀ s, Knows lib' s ↔ Knows lib s ∨ s ∈ names

theorem Introduces.refl (h : Naming.Kept lib) : Introduces [] lib lib where
  kept := h
  held := id
  named_iff := fun _ => Iff.rfl
  knows_iff := by simp

theorem Introduces.trans {names names' : List String} (h : Introduces names lib lib₁)
    (h' : Introduces names' lib₁ lib₂) : Introduces (names ++ names') lib lib₂ where
  kept := h'.kept
  held := fun hn => h'.held (h.held hn)
  named_iff := fun hn => (h'.named_iff (h.held hn)).trans (h.named_iff hn)
  knows_iff := by
    intro s
    rw [h'.knows_iff, h.knows_iff, List.mem_append, or_assoc]

/-- A variable is still the variable of its name. -/
theorem Introduces.named {names : List String} (h : Introduces names lib lib₁)
    (hn : Naming.Named lib n s) : Naming.Named lib₁ n s :=
  (h.named_iff (Naming.held hn)).2 hn

/-- What calls on a library do to its variables. -/
class Registers (ε : Type) [Library ε] [Naming ε] : Prop where
  build    : ∀ {lib : ε} (q : Maker NodeId), Naming.Kept lib →
    Introduces q.names lib (q.build lib).library
  check    : ∀ {lib : ε} (n : NodeId) (budget : Nat), Naming.Kept lib →
    Introduces [] lib (checkBounded lib n budget).state
  /-- The node that is returned has the name that was asked for. -/
  named    : ∀ {lib : ε} (s : String), Naming.Kept lib →
    Naming.Named (makeVariable lib s).library (makeVariable lib s).node s
  /-- A node is compared with a variable by the name. -/
  compare  : ∀ {lib : ε} {m n : NodeId} {s : String}, Naming.Kept lib →
    contains lib m = true → Naming.Named lib n s →
      ∃ b, structEq lib m n = .ok b ∧ (b = true ↔ Naming.Named lib m s)
  unique   : ∀ {lib : ε} {n : NodeId} {s t : String}, Naming.Named lib n s →
    Naming.Named lib n t → s = t

/-- Variables of different names have different structures. -/
theorem Registers.structEq_of_ne [Registers ε] (h : Naming.Kept lib) (hm : Naming.Named lib m s)
    (hn : Naming.Named lib n t) (hst : s ≠ t) : structEq lib m n = .ok false := by
  obtain ⟨b, hb, hiff⟩ := Registers.compare h (Naming.held hm) hn
  have hfalse : b = false := by
    rw [← Bool.not_eq_true, hiff]
    exact fun hm' => hst (Registers.unique hm hm')
  rw [hb, hfalse]

end Library

open Library (Naming Introduces Registers)

/-! ## N-ary formulas -/

namespace Nary

variable {lib lib' : Nary}

instance : Naming Nary where
  Kept lib := lib.terms.Wf
  Named lib n s := lib.term n = .ok (.var s)
  held := fun hn => contains_iff.2 ⟨_, hn⟩

theorem introduces_of_gains {ts : List Term} {names : List String}
    (h : Arena.Gains ts lib.terms lib'.terms) (hnames : ∀ s, .var s ∈ ts ↔ s ∈ names) :
    Introduces names lib lib' where
  kept := h.wf
  held := by
    intro n hn
    obtain ⟨t, ht⟩ := contains_iff.1 hn
    exact contains_iff.2 ⟨t, h.kept ht⟩
  named_iff := by
    intro n s hn
    obtain ⟨t, ht⟩ := contains_iff.1 hn
    exact h.value_iff ht
  knows_iff := by
    intro s
    have hknows : ∀ lib : Nary, Library.Knows lib s ↔ ∃ i, lib.terms.value i = .ok (.var s) :=
      fun lib => ⟨fun ⟨n, hn⟩ => ⟨n.raw, hn⟩, fun ⟨i, hi⟩ => ⟨⟨i⟩, hi⟩⟩
    rw [hknows, hknows, h.stored_iff, hnames]

/-- A term that is put into the library adds its name, if it is a variable. -/
theorem introduces_store (h : lib.terms.Wf) {t : Term} {names : List String}
    (hnames : ∀ s, t = .var s ↔ s ∈ names) : Introduces names lib (lib.store t).library := by
  have hgains := h.gains_insert t
  rcases he : lib.terms.insert t with ⟨i, fresh, terms⟩
  rw [he] at hgains
  rw [store_of_insert he]
  refine introduces_of_gains hgains ?_
  intro s
  rw [List.mem_singleton, eq_comm, hnames]

instance : Registers Nary where
  build := by
    intro lib q h
    cases q with
    | constTrue => exact introduces_store h (by simp [Maker.names])
    | constFalse => exact introduces_store h (by simp [Maker.names])
    | newVariable s => exact introduces_store h (by simp [Maker.names, eq_comm])
    | complement n => exact introduces_store h (by simp [Maker.names])
    | conjunction ns => cases ns <;> exact introduces_store h (by simp [Maker.names])
    | disjunction ns => cases ns <;> exact introduces_store h (by simp [Maker.names])
  check := fun _ _ h => .refl h
  named := by
    intro lib s h
    have hv := h.value_insert (.var s)
    show (lib.store (.var s)).library.term (lib.store (.var s)).node = _
    rcases he : lib.terms.insert (.var s) with ⟨i, fresh, terms⟩
    rw [he] at hv
    rw [store_of_insert he]
    exact hv
  compare := by
    intro lib m n s h hm hn
    obtain ⟨t, ht⟩ := contains_iff.1 hm
    by_cases hmn : m = n
    · exact ⟨true, if_pos hmn, fun _ => hmn ▸ hn, fun _ => rfl⟩
    · -- Different nodes are compared by their terms, which are different.
      have hne : t ≠ .var s := by
        rintro rfl
        exact hmn (NodeId.eq_of_raw_eq (h.distinct ht hn))
      have hfalse : Nary.structEq lib m n = .ok false := by
        have hn' : lib.term n = .ok (.var s) := hn
        unfold structEq
        rw [if_neg hmn, ht, hn']
        exact congrArg Except.ok (decide_eq_false hne)
      refine ⟨false, hfalse, nofun, ?_⟩
      intro hms
      have heq : Except.ok t = Except.ok (Term.var s) := ht.symm.trans hms
      exact absurd (Except.ok.inj heq) hne
  unique := by
    intro lib n s t hs ht
    have heq : Except.ok (Term.var s) = Except.ok (Term.var t) := hs.symm.trans ht
    exact Term.var.inj (Except.ok.inj heq)

/-- A node that reads as a variable is the variable of that name. -/
theorem Wf.named_of_term? (h : lib.Wf) {n : NodeId} {s : String}
    (hn : Library.term? lib n = some (.var s)) : Naming.Named lib n s :=
  h.term?_eq_some_iff.1 hn

end Nary

/-! ## And-inverter graphs -/

namespace Aig

variable {G : Generator} {a b : Aig G}

instance : Naming (Aig G) where
  Kept a := a.nodes.Wf
  Named a n s := ∃ i, n = (Signal.ofIndex i).toNode ∧ a.nodes.value i = .ok (.input s)
  held := by
    rintro a _ s ⟨i, rfl, hi⟩
    refine contains_iff.2 (.inr ⟨.input s, ?_⟩)
    rwa [Signal.ofNode_toNode, Signal.index_ofIndex]

theorem introduces_of_gains {vs : List Node} {names : List String}
    (h : Arena.Gains vs a.nodes b.nodes) (hnames : ∀ s, .input s ∈ vs ↔ s ∈ names) :
    Introduces names a b where
  kept := h.wf
  held := by
    intro n hn
    obtain hzero | ⟨v, hv⟩ := contains_iff.1 hn
    · exact contains_iff.2 (.inl hzero)
    · exact contains_iff.2 (.inr ⟨v, h.kept hv⟩)
  named_iff := by
    intro n s hn
    refine exists_congr fun i => and_congr_right ?_
    rintro rfl
    obtain hzero | ⟨v, hv⟩ := contains_iff.1 hn
    · -- The constant is at no index of the arena.
      rw [Signal.ofNode_toNode, Signal.index_ofIndex] at hzero
      subst hzero
      exact ⟨nofun, nofun⟩
    · rw [Signal.ofNode_toNode, Signal.index_ofIndex] at hv
      exact h.value_iff hv
  knows_iff := by
    intro s
    have hknows : ∀ a : Aig G, Library.Knows a s ↔ ∃ i, a.nodes.value i = .ok (.input s) :=
      fun a => ⟨fun ⟨_, i, _, hi⟩ => ⟨i, hi⟩, fun ⟨i, hi⟩ => ⟨_, i, rfl, hi⟩⟩
    rw [hknows, hknows, h.stored_iff, hnames]

theorem introduces_input (h : a.nodes.Wf) (s : String) :
    Introduces [s] a (a.input s).graph ∧
      Naming.Named (a.input s).graph (a.input s).signal.toNode s := by
  have hgains := h.gains_insert (.input s)
  have hv := h.value_insert (.input s)
  -- Whether the input is new makes a difference to the count alone.
  obtain ⟨nodes, count, source⟩ := a
  rcases he : nodes.insert (.input s) with ⟨i, fresh, nodes'⟩
  simp only [he] at hgains hv
  unfold input
  simp only [he]
  cases fresh <;>
  · refine ⟨introduces_of_gains hgains ?_, i, rfl, hv⟩
    intro t
    simp

theorem introduces_gate (h : a.nodes.Wf) (l r : Signal) : Introduces [] a (a.gate l r).graph := by
  have hgains := h.gains_insert (.and l r)
  obtain ⟨nodes, count, source⟩ := a
  rcases he : nodes.insert (.and l r) with ⟨i, fresh, nodes'⟩
  simp only [he] at hgains
  unfold gate
  simp only [he]
  exact introduces_of_gains hgains (by simp)

theorem introduces_and (h : a.nodes.Wf) (l r : Signal) : Introduces [] a (a.and l r).graph := by
  unfold Aig.and
  -- A rule that applies makes nothing; else the gate is stored, whatever its order.
  cases trivialAnd? l r with
  | some s => exact .refl h
  | none =>
    by_cases hlt : l.raw < r.raw
    · simp only [if_pos hlt]
      exact introduces_gate h l r
    · simp only [if_neg hlt]
      exact introduces_gate h r l

theorem introduces_conjoin (h : a.nodes.Wf) (acc : Signal) (ss : List Signal) :
    Introduces [] a (a.conjoin acc ss).graph := by
  induction ss generalizing a acc with
  | nil => exact .refl h
  | cons s ss ih =>
    have hand := introduces_and h acc s
    exact hand.trans (ih hand.kept _)

theorem introduces_disjoin (h : a.nodes.Wf) (acc : Signal) (ss : List Signal) :
    Introduces [] a (a.disjoin acc ss).graph := by
  induction ss generalizing a acc with
  | nil => exact .refl h
  | cons s ss ih =>
    have hor : Introduces [] a (a.or acc s).graph := introduces_and h acc.negate s.negate
    exact hor.trans (ih hor.kept _)

instance : Registers (Aig G) where
  build := by
    intro a q h
    cases q with
    | constTrue => exact .refl h
    | constFalse => exact .refl h
    | newVariable s => exact (introduces_input h s).1
    | complement n => exact .refl h
    | conjunction ns => exact introduces_conjoin h .one (ns.map Signal.ofNode)
    | disjunction ns => exact introduces_disjoin h .zero (ns.map Signal.ofNode)
  check := by
    intro a n budget h
    -- A check draws random words, and changes nothing else.
    exact { Introduces.refl h with }
  named := fun s h => (introduces_input h s).2
  compare := by
    rintro a m _ s h hm ⟨i, rfl, hi⟩
    refine ⟨_, rfl, ?_⟩
    -- Signals are compared by number, and the variable is the plain signal of its node.
    rw [decide_eq_true_iff]
    constructor
    · rintro rfl
      exact ⟨i, rfl, hi⟩
    · rintro ⟨j, rfl, hj⟩
      rw [h.distinct hi hj]
  unique := by
    rintro a _ s t ⟨i, rfl, hi⟩ ⟨j, hij, hj⟩
    obtain rfl := Signal.ofIndex_inj.1 (congrArg Signal.ofNode hij)
    have heq : Except.ok (Node.input s) = Except.ok (Node.input t) := hi.symm.trans hj
    exact Node.input.inj (Except.ok.inj heq)

/-- A node that reads as a variable is the variable of that name. -/
theorem named_of_term? {n : NodeId} {s : String} (hn : Library.term? a n = some (.var s)) :
    Naming.Named a n s := by
  have hform : Form a (.ofNode n) (.var s) := form_of_term? hn
  obtain ⟨i, hi, hv⟩ := hform.exists_input
  exact ⟨i, congrArg Signal.toNode hi, hv⟩

end Aig

end SatMemo
