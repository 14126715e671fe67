import SatMemo.Error
import SatMemo.Proofs.Library.Orderly

/-! # Libraries of any shape

    `Discrete` is a contract about handles, not about formulas: a node has the
    structure of no node but itself, and no node is below itself.  Its kind and its
    operands may be anything.  The number of operands need not suit the kind, and
    operands need not be nodes of the library.

    `WellFormed` is what a formula of such a library may lack, and `Flaw` ties the
    nodes that are to blame to the errors that name them. -/

namespace SatMemo

namespace Library

variable {ε : Type} [Library ε] {lib lib' : ε} {m n : NodeId} {e : Error}

/-! ## The contract -/

/-- `m` is an operand of `n`, and a node of the library. -/
def HeldOperand (lib : ε) (n m : NodeId) : Prop :=
  Operand lib n m ∧ contains lib m = true

/-- `m` is below `n`, and so are the nodes between them, in the library. -/
def HeldBelow (lib : ε) : NodeId → NodeId → Prop :=
  Relation.TransGen (HeldOperand lib)

/-- `m` is `n` or below it in the library. -/
def HeldCone (lib : ε) : NodeId → NodeId → Prop :=
  Relation.ReflTransGen (HeldOperand lib)

/-- What a library guarantees of the nodes that it holds, if structural equality is
    identity. -/
structure Discrete (lib : ε) : Prop where
  lt_bound : ∀ {n}, contains lib n = true → n.raw < bound lib
  node     : ∀ {n}, contains lib n = true →
    ∃ kind ms, Library.kind lib n = .ok kind ∧ children lib n = .ok ms
  named    : ∀ {n}, contains lib n = true → kind lib n = .ok .var → ∃ s, label lib n = .ok s
  key      : ∀ {n}, contains lib n = true → ∃ key, structKey lib n = .ok key
  identity : ∀ {m n}, contains lib m = true → contains lib n = true →
    structEq lib m n = .ok (decide (m = n))
  acyclic  : ∀ {n}, contains lib n = true → ¬ HeldBelow lib n n

namespace Discrete

theorem same_iff (h : Discrete lib) (hm : contains lib m = true) (hn : contains lib n = true) :
    Same lib m n ↔ m = n := by
  unfold Same
  rw [h.identity hm hn, Except.ok.injEq, decide_eq_true_iff]

theorem comparable (h : Discrete lib) : Comparable lib where
  key := h.key
  compares := fun hm hn => ⟨_, h.identity hm hn⟩
  same_key := fun hm hn hs => (h.same_iff hm hn).1 hs ▸ rfl

theorem classified (h : Discrete lib) : Classified lib where
  toComparable := h.comparable
  same_refl := fun hn => (h.same_iff hn hn).2 rfl
  same_symm := by
    intro m n hm hn hs
    exact (h.same_iff hn hm).2 ((h.same_iff hm hn).1 hs).symm
  same_trans := by
    intro k m n hk hm hn hkm hmn
    exact (h.same_iff hk hn).2 (((h.same_iff hk hm).1 hkm).trans ((h.same_iff hm hn).1 hmn))

theorem length_le_bound (h : Discrete lib) {ns : List NodeId} (hnodup : ns.Nodup)
    (hns : ∀ n ∈ ns, contains lib n = true) : ns.length ≤ bound lib :=
  length_le_bound_of_nodup hnodup fun n hn => h.lt_bound (hns n hn)

end Discrete

theorem HeldCone.cone (h : HeldCone lib n m) : Cone lib n m :=
  Relation.ReflTransGen.mono (fun _ _ hop => hop.1) n m h

/-- A library whose operands have smaller numbers is acyclic. -/
theorem not_heldBelow_self (h : ∀ n m, contains lib n = true → HeldOperand lib n m → m.raw < n.raw)
    (hn : contains lib n = true) : ¬ HeldBelow lib n n := by
  have hlt {m : NodeId} (hm : HeldBelow lib n m) : contains lib m = true ∧ m.raw < n.raw := by
    induction hm with
    | single hop => exact ⟨hop.2, h n _ hn hop⟩
    | tail _ hop ih => exact ⟨hop.2, (h _ _ ih.1 hop).trans ih.2⟩
  intro hself
  exact absurd (hlt hself).2 (Nat.lt_irrefl _)

/-! ## Well-formed formulas -/

/-- A node of the library that has as many operands as its kind can have. -/
def Sane (lib : ε) (n : NodeId) : Prop :=
  contains lib n = true ∧ ∃ kind ms, Library.kind lib n = .ok kind ∧
    children lib n = .ok ms ∧ kind.accepts ms.length = true

/-- A sane node and its operands, which are nodes of the library as well. -/
structure Openable (lib : ε) (n : NodeId) (ms : List NodeId) : Prop where
  sane     : Sane lib n
  children : Library.children lib n = .ok ms
  held     : ∀ m ∈ ms, contains lib m = true

theorem Openable.mem_of_operand {ms : List NodeId} (h : Openable lib n ms)
    (hop : Operand lib n m) : m ∈ ms := by
  obtain ⟨ms', hms', hm⟩ := hop
  rw [h.children] at hms'
  cases hms'
  exact hm

/-- A node for which there is an error to tell: it is not sane, or some of its operands are
    unknown, of which the last is blamed. -/
inductive Blocked (lib : ε) (n : NodeId) : Error → Prop where
  | malformed {kind : Kind} {ms : List NodeId} : Library.kind lib n = .ok kind →
      children lib n = .ok ms → kind.accepts ms.length = false →
        Blocked lib n (.malformedNode n kind ms.length)
  | unknown {kind : Kind} {ms : List NodeId} {m : NodeId} : Library.kind lib n = .ok kind →
      children lib n = .ok ms → kind.accepts ms.length = true →
        ms.reverse.find? (fun m => !contains lib m) = some m → Blocked lib n (.unknownNode m)

theorem Discrete.openable_or_blocked (h : Discrete lib) (hn : contains lib n = true) :
    (∃ ms, Openable lib n ms) ∨ ∃ e, Blocked lib n e := by
  obtain ⟨kind, ms, hkind, hms⟩ := h.node hn
  cases haccepts : kind.accepts ms.length with
  | false => exact .inr ⟨_, .malformed hkind hms haccepts⟩
  | true =>
    cases hfind : ms.reverse.find? (fun m => !contains lib m) with
    | some m => exact .inr ⟨_, .unknown hkind hms haccepts hfind⟩
    | none =>
      refine .inl ⟨ms, ⟨hn, kind, ms, hkind, hms, haccepts⟩, hms, ?_⟩
      intro m hm
      have hnot := List.find?_eq_none.1 hfind m (List.mem_reverse.2 hm)
      simpa using hnot

/-- All nodes that can be reached from `n` are sane, itself included. -/
def WellFormed (lib : ε) (n : NodeId) : Prop :=
  ∀ m, Cone lib n m → Sane lib m

theorem Sane.steady (h : Sane lib n) (hs : Steady lib lib') : Sane lib' n := by
  obtain ⟨hn, kind, ms, hkind, hms, haccepts⟩ := h
  exact ⟨hs.held hn, kind, ms, (hs.kind_eq hn).trans hkind, (hs.children_eq hn).trans hms, haccepts⟩

/-- What is wrong with a node, as an error that names it. -/
inductive Flaw (lib : ε) : NodeId → Error → Prop where
  | unknown {n : NodeId} : contains lib n = false → Flaw lib n (.unknownNode n)
  | malformed {n : NodeId} {kind : Kind} {ms : List NodeId} :
      contains lib n = true → Library.kind lib n = .ok kind → children lib n = .ok ms →
        kind.accepts ms.length = false → Flaw lib n (.malformedNode n kind ms.length)

theorem Flaw.not_sane (h : Flaw lib n e) : ¬ Sane lib n := by
  intro ⟨hn, kind, ms, hkind, hms, haccepts⟩
  cases h with
  | unknown hnot =>
    rw [hn] at hnot
    cases hnot
  | malformed _ hkind' hms' hnot =>
    rw [hkind] at hkind'
    rw [hms] at hms'
    cases hkind'
    cases hms'
    rw [haccepts] at hnot
    cases hnot

theorem Blocked.exists_flaw (h : Blocked lib n e) (hn : contains lib n = true) :
    ∃ m, Cone lib n m ∧ Flaw lib m e := by
  cases h with
  | malformed hkind hms hnot => exact ⟨n, .refl, .malformed hn hkind hms hnot⟩
  | @unknown _ ms m _ hms _ hfind =>
    have hm : m ∈ ms := List.mem_reverse.1 (List.mem_of_find?_eq_some hfind)
    have hnot : contains lib m = false := by simpa using List.find?_some hfind
    exact ⟨m, .single ⟨ms, hms, hm⟩, .unknown hnot⟩

/-- A formula with a flaw in its cone is not well-formed. -/
theorem Flaw.not_wellFormed (h : Flaw lib m e) (hm : Cone lib n m) : ¬ WellFormed lib n :=
  fun hn => h.not_sane (hn m hm)

end Library

end SatMemo
