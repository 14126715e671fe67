import Mathlib.Data.Fintype.Card
import Mathlib.Data.List.Forall2
import Mathlib.Data.Set.Finite.Lemmas
import SatMemo.Library.Basic

/-! # Orderly libraries

    `Orderly` is the contract that a library of any kind keeps on the nodes that
    it holds: what is asked about them is answered, their operands are nodes it
    holds, no node is below itself, and structural equality is an equivalence
    that respects keys and operands.  Keys of different structures may agree.
    `Steady` says that the library still gives the same answers later.

    Nothing is said of the numbers of nodes, except that they are bounded.  A
    held graph is thus finite and, being acyclic, well-founded; so no node has
    the structure of a node below it. -/

namespace SatMemo

namespace Library

variable {ε : Type} [Library ε] {lib lib' : ε} {m n k : NodeId}

/-! ## Structure and cones -/

/-- The library says that two nodes have the same structure. -/
def Same (lib : ε) (m n : NodeId) : Prop :=
  structEq lib m n = .ok true

/-- `m` is an operand of `n`. -/
def Operand (lib : ε) (n m : NodeId) : Prop :=
  ∃ ms, children lib n = .ok ms ∧ m ∈ ms

/-- `m` is below `n`. -/
def Below (lib : ε) : NodeId → NodeId → Prop :=
  Relation.TransGen (Operand lib)

/-- `m` is in the cone of `n`: it is `n` or below it. -/
def Cone (lib : ε) : NodeId → NodeId → Prop :=
  Relation.ReflTransGen (Operand lib)

/-! ## The contract -/

/-- What a library guarantees of the nodes that it holds. -/
structure Orderly (lib : ε) : Prop where
  lt_bound      : ∀ {n}, contains lib n = true → n.raw < bound lib
  node          : ∀ {n}, contains lib n = true → ∃ kind ms, Library.kind lib n = .ok kind ∧
    children lib n = .ok ms ∧ kind.accepts ms.length = true ∧ ∀ m ∈ ms, contains lib m = true
  named         : ∀ {n}, contains lib n = true → kind lib n = .ok .var → ∃ s, label lib n = .ok s
  key           : ∀ {n}, contains lib n = true → ∃ key, structKey lib n = .ok key
  compares      : ∀ {m n}, contains lib m = true → contains lib n = true →
    ∃ b, structEq lib m n = .ok b
  same_refl     : ∀ {n}, contains lib n = true → Same lib n n
  same_symm     : ∀ {m n}, contains lib m = true → contains lib n = true → Same lib m n →
    Same lib n m
  same_trans    : ∀ {k m n}, contains lib k = true → contains lib m = true →
    contains lib n = true → Same lib k m → Same lib m n → Same lib k n
  same_key      : ∀ {m n}, contains lib m = true → contains lib n = true → Same lib m n →
    structKey lib m = structKey lib n
  same_operands : ∀ {m n}, contains lib m = true → contains lib n = true → Same lib m n →
    ∀ {ms ns}, children lib m = .ok ms → children lib n = .ok ns → List.Forall₂ (Same lib) ms ns
  acyclic       : ∀ {n}, contains lib n = true → ¬ Below lib n n

/-- What a map on structural classes needs of a library: nodes it holds have keys and can be
    compared, and those of the same structure have the same key. -/
structure Comparable (lib : ε) : Prop where
  key      : ∀ {n}, contains lib n = true → ∃ key, structKey lib n = .ok key
  compares : ∀ {m n}, contains lib m = true → contains lib n = true →
    ∃ b, structEq lib m n = .ok b
  same_key : ∀ {m n}, contains lib m = true → contains lib n = true → Same lib m n →
    structKey lib m = structKey lib n

theorem Orderly.comparable (h : Orderly lib) : Comparable lib where
  key := h.key
  compares := h.compares
  same_key := h.same_key

/-- The nodes that the library holds fall into structural classes.  Nothing is said of their
    kinds and operands, which need not make sense. -/
structure Classified (lib : ε) : Prop extends Comparable lib where
  same_refl  : ∀ {n}, contains lib n = true → Same lib n n
  same_symm  : ∀ {m n}, contains lib m = true → contains lib n = true → Same lib m n →
    Same lib n m
  same_trans : ∀ {k m n}, contains lib k = true → contains lib m = true →
    contains lib n = true → Same lib k m → Same lib m n → Same lib k n

theorem Orderly.classified (h : Orderly lib) : Classified lib where
  toComparable := h.comparable
  same_refl := h.same_refl
  same_symm := h.same_symm
  same_trans := h.same_trans

/-- The nodes that a library holds are still there, and answers about them are the same. -/
structure Steady (lib lib' : ε) : Prop where
  held        : ∀ {n}, contains lib n = true → contains lib' n = true
  kind_eq     : ∀ {n}, contains lib n = true → kind lib' n = kind lib n
  children_eq : ∀ {n}, contains lib n = true → children lib' n = children lib n
  label_eq    : ∀ {n}, contains lib n = true → label lib' n = label lib n
  key_eq      : ∀ {n}, contains lib n = true → structKey lib' n = structKey lib n
  compare_eq  : ∀ {m n}, contains lib m = true → contains lib n = true →
    structEq lib' m n = structEq lib m n

theorem Steady.refl (lib : ε) : Steady lib lib where
  held := id
  kind_eq := fun _ => rfl
  children_eq := fun _ => rfl
  label_eq := fun _ => rfl
  key_eq := fun _ => rfl
  compare_eq := fun _ _ => rfl

theorem Steady.trans {lib₁ lib₂ lib₃ : ε} (h : Steady lib₁ lib₂) (h' : Steady lib₂ lib₃) :
    Steady lib₁ lib₃ where
  held := fun hn => h'.held (h.held hn)
  kind_eq := fun hn => (h'.kind_eq (h.held hn)).trans (h.kind_eq hn)
  children_eq := fun hn => (h'.children_eq (h.held hn)).trans (h.children_eq hn)
  label_eq := fun hn => (h'.label_eq (h.held hn)).trans (h.label_eq hn)
  key_eq := fun hn => (h'.key_eq (h.held hn)).trans (h.key_eq hn)
  compare_eq := fun hm hn => (h'.compare_eq (h.held hm) (h.held hn)).trans (h.compare_eq hm hn)

theorem Steady.same_iff (h : Steady lib lib') (hm : contains lib m = true)
    (hn : contains lib n = true) : Same lib' m n ↔ Same lib m n := by
  unfold Same
  rw [h.compare_eq hm hn]

theorem Steady.operand_iff (h : Steady lib lib') (hn : contains lib n = true) :
    Operand lib' n m ↔ Operand lib n m := by
  unfold Operand
  rw [h.children_eq hn]

/-- Different nodes are no more than the numbers below the bound. -/
theorem length_le_bound_of_nodup {ns : List NodeId} (hnodup : ns.Nodup)
    (hns : ∀ n ∈ ns, n.raw < bound lib) : ns.length ≤ bound lib := by
  have hraws : (ns.map NodeId.raw).Nodup := by
    apply List.pairwise_map.2
    apply hnodup.imp
    intro m n hmn hraw
    exact hmn (congrArg NodeId.mk hraw)
  have hsub : ns.map NodeId.raw ⊆ List.range (bound lib) := by
    intro raw hraw
    obtain ⟨n, hn, rfl⟩ := List.mem_map.1 hraw
    exact List.mem_range.2 (hns n hn)
  have hlength := hraws.length_le_of_subset hsub
  rwa [List.length_map, List.length_range] at hlength

/-! ## Below a node -/

namespace Orderly

theorem contains_of_operand (h : Orderly lib) (hn : contains lib n = true)
    (hm : Operand lib n m) : contains lib m = true := by
  obtain ⟨_, ms, _, hms, _, hheld⟩ := h.node hn
  obtain ⟨ms', hms', hmem⟩ := hm
  rw [hms] at hms'
  cases hms'
  exact hheld m hmem

theorem contains_of_cone (h : Orderly lib) (hn : contains lib n = true)
    (hm : Cone lib n m) : contains lib m = true := by
  induction hm with
  | refl => exact hn
  | tail _ hop ih => exact h.contains_of_operand ih hop

theorem contains_of_below (h : Orderly lib) (hn : contains lib n = true)
    (hm : Below lib n m) : contains lib m = true :=
  h.contains_of_cone hn hm.to_reflTransGen

/-- Cones of held nodes stay what they are. -/
theorem cone_iff (h : Orderly lib) (hs : Steady lib lib') (hn : contains lib n = true) :
    Cone lib' n m ↔ Cone lib n m := by
  constructor
  · intro hm
    induction hm with
    | refl => exact .refl
    | tail _ hop ih => exact ih.tail ((hs.operand_iff (h.contains_of_cone hn ih)).1 hop)
  · intro hm
    induction hm with
    | refl => exact .refl
    | tail hm hop ih => exact ih.tail ((hs.operand_iff (h.contains_of_cone hn hm)).2 hop)

/-- Induction from the bottom up. -/
theorem induction (h : Orderly lib) {P : NodeId → Prop}
    (hP : ∀ n, contains lib n = true → (∀ m, Below lib n m → P m) → P n)
    (hn : contains lib n = true) : P n := by
  let Held : Type := { n : NodeId // contains lib n = true }
  -- There are finitely many nodes, since their numbers are bounded.
  have hfinite : Finite Held := by
    apply Finite.of_injective (fun n : Held => (⟨n.1.raw, h.lt_bound n.2⟩ : Fin (bound lib)))
    intro m n hmn
    have hraw : m.1.raw = n.1.raw := congrArg Fin.val hmn
    exact Subtype.ext (congrArg NodeId.mk hraw)
  let below : Held → Held → Prop := fun m n => Below lib n.1 m.1
  have htrans : IsTrans Held below := ⟨fun _ _ _ hab hbc => hbc.trans hab⟩
  have hirrefl : Std.Irrefl below := ⟨fun n => h.acyclic n.2⟩
  have hwf : WellFounded below := Finite.wellFounded_of_trans_of_irrefl below
  suffices hall : ∀ n : Held, P n.1 from hall ⟨n, hn⟩
  intro n
  induction n using hwf.induction with
  | _ n ih =>
    apply hP n.1 n.2
    intro m hm
    exact ih ⟨m, h.contains_of_below n.2 hm⟩ hm

/-- Nodes of the same structure have operands of the same structure. -/
theorem exists_operand_same (h : Orderly lib) (hm : contains lib m = true)
    (hn : contains lib n = true) (hs : Same lib m n) {x : NodeId} (hx : Operand lib m x) :
    ∃ y, Operand lib n y ∧ Same lib x y := by
  obtain ⟨ms, hms, hmem⟩ := hx
  obtain ⟨_, ns, _, hns, _, _⟩ := h.node hn
  have hall := h.same_operands hm hn hs hms hns
  obtain ⟨i, hi, hix⟩ := List.mem_iff_getElem.1 hmem
  have hin : i < ns.length := hall.length_eq ▸ hi
  refine ⟨ns[i], ⟨ns, hns, List.getElem_mem hin⟩, ?_⟩
  rw [← hix]
  exact hall.get hi hin

theorem exists_below_same (h : Orderly lib) (hm : contains lib m = true)
    (hn : contains lib n = true) (hs : Same lib m n) {x : NodeId} (hx : Below lib m x) :
    ∃ y, Below lib n y ∧ Same lib x y := by
  induction hx with
  | single hop =>
    obtain ⟨y, hy, hxy⟩ := h.exists_operand_same hm hn hs hop
    exact ⟨y, .single hy, hxy⟩
  | @tail x x' hx hop ih =>
    obtain ⟨y, hy, hxy⟩ := ih
    obtain ⟨y', hy', hxy'⟩ := h.exists_operand_same (h.contains_of_below hm hx)
      (h.contains_of_below hn hy) hxy hop
    exact ⟨y', hy.tail hy', hxy'⟩

/-- No node has the structure of a node below it. -/
theorem not_same_of_below (h : Orderly lib) (hn : contains lib n = true)
    (hm : Below lib n m) : ¬ Same lib n m := by
  refine h.induction (P := fun n => ∀ m, Below lib n m → ¬ Same lib n m) ?_ hn m hm
  intro n hn ih m hm hs
  -- Below `m` there would be a node of its structure again.
  have hmc := h.contains_of_below hn hm
  obtain ⟨x, hx, hmx⟩ := h.exists_below_same hn hmc hs hm
  exact ih m hm x hx hmx

/-- Nodes of different structures are fewer than the bound. -/
theorem length_le_bound (h : Orderly lib) {ns : List NodeId}
    (hdistinct : ns.Pairwise fun m n => ¬ Same lib m n) (hns : ∀ n ∈ ns, contains lib n = true) :
    ns.length ≤ bound lib := by
  have hnodup : ns.Nodup := by
    apply hdistinct.imp_of_mem
    intro m n hm _ hmn heq
    exact hmn (heq ▸ h.same_refl (hns m hm))
  exact length_le_bound_of_nodup hnodup fun n hn => h.lt_bound (hns n hn)

end Orderly

end Library

end SatMemo
