import SatMemo.Proofs.Library.Making

/-! # Formulas written out in full

    Following the operands of a node down to constants and variables writes its
    formula out as a tree, without any sharing.  In a library whose nodes have
    different terms, different nodes have different trees (`unfoldAt_inj`), and
    in a later library a node has the tree that it had (`unfoldAt_later`).  Both
    are by induction on the number of the node, since operands come first. -/

namespace SatMemo

/-- A formula without sharing. -/
inductive Unfolded where
  | node (kind : Kind) (label : String) (operands : List Unfolded)
deriving Repr

namespace Library

section Unfold

variable {ε : Type} [Library ε]

/-- The label of a node in its tree: the name of a variable, and for any other node its text, if
    texts are wanted. -/
def treeLabel (lib : ε) (texts : Bool) (kind : Kind) (n : NodeId) : Except Fault String :=
  if texts || kind = .var then label lib n else .ok ""

/-- The tree of a node that is less than `depth` levels deep. -/
def unfoldAt (lib : ε) (texts : Bool) : (depth : Nat) → NodeId → Except Fault Unfolded
  | 0, _         => .error .endlessDescent
  | depth + 1, n => do
      let k ← kind lib n
      let ms ← children lib n
      let operands ← ms.mapM (unfoldAt lib texts depth)
      let text ← treeLabel lib texts k n
      return .node k text operands

/-- The tree of a node.  No node of an acyclic library is deeper than the library's bound. -/
def unfold (lib : ε) (texts : Bool) (n : NodeId) : Except Fault Unfolded :=
  unfoldAt lib texts (bound lib) n

end Unfold

/-! ## Lists of trees -/

section Lists

variable {α β : Type} {f g : α → Except Fault β} {xs : List α}

theorem mapM_cons_eq_ok {x : α} {ys : List β} :
    (x :: xs).mapM f = .ok ys ↔ ∃ y ys', f x = .ok y ∧ xs.mapM f = .ok ys' ∧ ys = y :: ys' := by
  rw [List.mapM_cons]
  constructor
  · intro h
    cases hx : f x with
    | error e => rw [hx] at h; cases h
    | ok y =>
      cases hxs : xs.mapM f with
      | error e => rw [hx, hxs] at h; cases h
      | ok ys' =>
        rw [hx, hxs] at h
        exact ⟨y, ys', rfl, rfl, (Except.ok.inj h).symm⟩
  · rintro ⟨y, ys', hx, hxs, rfl⟩
    rw [hx, hxs]
    rfl

theorem mapM_congr (h : ∀ x ∈ xs, f x = g x) : xs.mapM f = xs.mapM g := by
  induction xs with
  | nil => rfl
  | cons x xs ih =>
    rw [List.mapM_cons, List.mapM_cons, h x List.mem_cons_self,
      ih fun y hy => h y (List.mem_cons_of_mem _ hy)]

theorem exists_mapM_eq_ok (h : ∀ x ∈ xs, ∃ y, f x = .ok y) : ∃ ys, xs.mapM f = .ok ys := by
  induction xs with
  | nil => exact ⟨[], rfl⟩
  | cons x xs ih =>
    obtain ⟨y, hy⟩ := h x List.mem_cons_self
    obtain ⟨ys, hys⟩ := ih fun x hx => h x (List.mem_cons_of_mem _ hx)
    exact ⟨y :: ys, mapM_cons_eq_ok.2 ⟨y, ys, hy, hys, rfl⟩⟩

/-- Where only one element can have a value, only one list can have a list of values. -/
theorem eq_of_mapM_eq_ok {xs' : List α} {ys : List β} (h : xs.mapM f = .ok ys)
    (h' : xs'.mapM g = .ok ys)
    (hinj : ∀ x ∈ xs, ∀ x' ∈ xs', ∀ y, f x = .ok y → g x' = .ok y → x = x') : xs = xs' := by
  induction xs generalizing xs' ys with
  | nil =>
    cases h
    cases xs' with
    | nil => rfl
    | cons x' xs' =>
      obtain ⟨_, _, _, _, hnil⟩ := mapM_cons_eq_ok.1 h'
      cases hnil
  | cons x xs ih =>
    obtain ⟨y, ys', hx, hxs, rfl⟩ := mapM_cons_eq_ok.1 h
    cases xs' with
    | nil => cases h'
    | cons x' xs' =>
      obtain ⟨_, _, hx', hxs', heq⟩ := mapM_cons_eq_ok.1 h'
      cases heq
      have hrest : xs = xs' := ih hxs hxs' fun z hz z' hz' =>
        hinj z (List.mem_cons_of_mem _ hz) z' (List.mem_cons_of_mem _ hz')
      rw [hinj x List.mem_cons_self x' List.mem_cons_self y hx hx', hrest]

end Lists

/-! ## The laws -/

/-- What a library promises that stores every structure once. -/
class Canonical (ε : Type) [Library ε] [Lawful ε] : Prop where
  /-- Nodes of one term are one node. -/
  term_unique : ∀ {lib : ε} {m n t}, Lawful.Wf lib → term? lib m = some t →
    term? lib n = some t → m = n
  label_eq    : ∀ {lib : ε} {n}, Lawful.Wf lib → contains lib n = true →
    ∃ text, label lib n = .ok text
  /-- A label stays. -/
  label_later : ∀ {lib lib' : ε} {n}, Lawful.Wf lib → Lawful.Wf lib' → Extends lib lib' →
    contains lib n = true → label lib' n = label lib n
  /-- What was made before is found again, and nothing changes. -/
  build_again : ∀ {lib lib' : ε} {q : Maker NodeId}, Lawful.Wf lib → Lawful.Wf lib' →
    (∀ n ∈ q.operands, contains lib n = true) → Extends (q.build lib).library lib' →
    q.build lib' = ⟨(q.build lib).node, lib', []⟩

/-! ## Trees -/

section Trees

variable {ε : Type} [Library ε] {lib lib' : ε} {m n : NodeId} {t : Term} {texts : Bool}

/-- The tree of a node is that of its term. -/
theorem unfoldAt_succ (ht : term? lib n = some t) (depth : Nat) :
    unfoldAt lib texts (depth + 1) n = (do
      let operands ← t.children.mapM (unfoldAt lib texts depth)
      let text ← treeLabel lib texts t.kind n
      return .node t.kind text operands) := by
  rw [unfoldAt, kind_of_term? ht, children_of_term? ht]
  rfl

theorem unfoldAt_eq_ok (ht : term? lib n = some t) {depth : Nat} {u : Unfolded}
    (hu : unfoldAt lib texts (depth + 1) n = .ok u) :
    ∃ operands text, t.children.mapM (unfoldAt lib texts depth) = .ok operands ∧
      treeLabel lib texts t.kind n = .ok text ∧ u = .node t.kind text operands := by
  rw [unfoldAt_succ ht] at hu
  cases hoperands : t.children.mapM (unfoldAt lib texts depth) with
  | error e => rw [hoperands] at hu; cases hu
  | ok operands =>
    cases htext : treeLabel lib texts t.kind n with
    | error e => rw [hoperands, htext] at hu; cases hu
    | ok text =>
      rw [hoperands, htext] at hu
      exact ⟨operands, text, rfl, rfl, (Except.ok.inj hu).symm⟩

theorem treeLabel_var {name : String} (ht : term? lib n = some (.var name)) :
    treeLabel lib texts Kind.var n = .ok name := by
  unfold treeLabel
  rw [decide_eq_true rfl, Bool.or_true, if_pos rfl, label_of_term? ht]

/-- Two terms of the same kind over the same operands are the same, if variables have the same
    name. -/
theorem term_eq_of_parts {t t' : Term} (hkind : t.kind = t'.kind)
    (hchildren : t.children = t'.children)
    (hname : ∀ x x', t = .var x → t' = .var x' → x = x') : t = t' := by
  cases t with
  | constTrue =>
    cases t' with
    | constTrue => rfl
    | _ => cases hkind
  | constFalse =>
    cases t' with
    | constFalse => rfl
    | _ => cases hkind
  | var x =>
    cases t' with
    | var x' => exact congrArg Term.var (hname x x' rfl rfl)
    | _ => cases hkind
  | not m =>
    cases t' with
    | not m' =>
      cases hchildren
      rfl
    | _ => cases hkind
  | and ms =>
    cases t' with
    | and ms' => exact congrArg Term.and hchildren
    | _ => cases hkind
  | or ms =>
    cases t' with
    | or ms' => exact congrArg Term.or hchildren
    | _ => cases hkind

variable [Lawful ε] [Canonical ε]

/-- A node that the library holds can be written out. -/
theorem exists_unfoldAt (h : Lawful.Wf lib) (hn : contains lib n = true) {depth : Nat}
    (hdepth : n.raw < depth) : ∃ u, unfoldAt lib texts depth n = .ok u := by
  have hf := Lawful.founded h
  induction depth generalizing n with
  | zero => exact absurd hdepth (Nat.not_lt_zero _)
  | succ depth ih =>
    obtain ⟨t, ht⟩ := hf.exists_term hn
    have hunfold : ∀ m ∈ t.children, ∃ u, unfoldAt lib texts depth m = .ok u := by
      intro m hm
      obtain ⟨hlt, hheld⟩ := hf.operand ht hm
      exact ih hheld (Nat.lt_of_lt_of_le hlt (Nat.le_of_lt_succ hdepth))
    obtain ⟨operands, hoperands⟩ := exists_mapM_eq_ok hunfold
    have htext : ∃ text, treeLabel lib texts t.kind n = .ok text := by
      unfold treeLabel
      split
      · exact Canonical.label_eq h hn
      · exact ⟨"", rfl⟩
    obtain ⟨text, htext⟩ := htext
    exact ⟨_, by rw [unfoldAt_succ ht, hoperands, htext]; rfl⟩

/-- In a later library a node has the tree that it had, to any depth that is enough. -/
theorem unfoldAt_later (h : Lawful.Wf lib) (h' : Lawful.Wf lib') (he : Extends lib lib')
    (hn : contains lib n = true) {depth depth' : Nat} (hdepth : n.raw < depth)
    (hdepth' : n.raw < depth') : unfoldAt lib' texts depth' n = unfoldAt lib texts depth n := by
  have hf := Lawful.founded h
  induction depth generalizing n depth' with
  | zero => exact absurd hdepth (Nat.not_lt_zero _)
  | succ depth ih =>
    obtain ⟨depth', rfl⟩ : ∃ d, depth' = d + 1 := ⟨depth' - 1, by omega⟩
    obtain ⟨t, ht⟩ := hf.exists_term hn
    have hoperands : t.children.mapM (unfoldAt lib' texts depth')
        = t.children.mapM (unfoldAt lib texts depth) := by
      refine mapM_congr fun m hm => ?_
      obtain ⟨hlt, hheld⟩ := hf.operand ht hm
      exact ih hheld (Nat.lt_of_lt_of_le hlt (Nat.le_of_lt_succ hdepth))
        (Nat.lt_of_lt_of_le hlt (Nat.le_of_lt_succ hdepth'))
    have htext : treeLabel lib' texts t.kind n = treeLabel lib texts t.kind n := by
      unfold treeLabel
      rw [Canonical.label_later h h' he hn]
    rw [unfoldAt_succ ht, unfoldAt_succ (he ht), hoperands, htext]

/-- Nodes with the same tree are the same. -/
theorem unfoldAt_inj (h : Lawful.Wf lib) (hm : contains lib m = true)
    (hn : contains lib n = true) {depth depth' : Nat} {u : Unfolded}
    (hu : unfoldAt lib texts depth m = .ok u) (hu' : unfoldAt lib texts depth' n = .ok u) :
    m = n := by
  have hf := Lawful.founded h
  induction depth generalizing m n depth' u with
  | zero => cases hu
  | succ depth ih =>
    cases depth' with
    | zero => cases hu'
    | succ depth' =>
      obtain ⟨t, ht⟩ := hf.exists_term hm
      obtain ⟨t', ht'⟩ := hf.exists_term hn
      obtain ⟨operands, text, hoperands, htext, rfl⟩ := unfoldAt_eq_ok ht hu
      obtain ⟨operands', text', hoperands', htext', heq⟩ := unfoldAt_eq_ok ht' hu'
      injection heq with hkind htexts htrees
      subst htexts htrees
      have hchildren : t.children = t'.children :=
        eq_of_mapM_eq_ok hoperands hoperands' fun k hk k' hk' v hv hv' =>
          ih (hf.operand ht hk).2 (hf.operand ht' hk').2 hv hv'
      have heq : t = t' := by
        refine term_eq_of_parts hkind hchildren ?_
        rintro x x' rfl rfl
        -- The label of a variable is its name.
        have hx := htext.symm.trans (treeLabel_var ht)
        have hx' := htext'.symm.trans (treeLabel_var ht')
        exact Except.ok.inj (hx.symm.trans hx')
      exact Canonical.term_unique h ht (heq ▸ ht')

end Trees

end Library

end SatMemo
