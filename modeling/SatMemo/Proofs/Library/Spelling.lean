import SatMemo.Proofs.Library.Lawful

/-! # Formulas spelled out

    The text of a formula by recursion on its operands: a name as it is, a negation
    behind a mark, and any other connective between the texts of its operands, in
    parentheses.  Neither stacks nor pieces occur in it.  `Rendered` is that
    recursion as a relation, which gives every node one text.  The text of a node
    is put together from the texts of its operands (`Founded.spell_eq`), and a node
    that is in a library has the same text in every later one. -/

namespace SatMemo

namespace Term

variable {text text' : NodeId → String} {t : Term}

/-- The text of a term, from those of its operands. -/
def spell (text : NodeId → String) : Term → String
  | .constTrue    => "true"
  | .constFalse   => "false"
  | .var name     => name
  | .not operand  => "!" ++ text operand
  | .and operands => "(" ++ " & ".intercalate (operands.map text) ++ ")"
  | .or operands  => "(" ++ " | ".intercalate (operands.map text) ++ ")"

/-- Only the texts of the operands matter. -/
theorem spell_congr (h : ∀ m ∈ t.children, text m = text' m) : t.spell text = t.spell text' := by
  cases t with
  | constTrue => rfl
  | constFalse => rfl
  | var name => rfl
  | not m => exact congrArg ("!" ++ ·) (h m (List.mem_singleton.2 rfl))
  | and ms => exact congrArg ("(" ++ " & ".intercalate · ++ ")") (List.map_congr_left h)
  | or ms => exact congrArg ("(" ++ " | ".intercalate · ++ ")") (List.map_congr_left h)

end Term

namespace Library

variable {ε : Type} [Library ε] {lib lib' : ε} {n : NodeId} {t : Term}

/-- The text is what the recursion makes of the node. -/
inductive Rendered (lib : ε) : NodeId → String → Prop where
  | node {n : NodeId} {t : Term} {text : NodeId → String} : term? lib n = some t →
      (∀ m ∈ t.children, Rendered lib m (text m)) → Rendered lib n (t.spell text)

/-- The text of a node. -/
def spell (lib : ε) (n : NodeId) : String :=
  fold Term.spell "" lib n

theorem local_spell : Local Term.spell :=
  fun _ _ _ h => Term.spell_congr h

/-- The text of a node is that of its term. -/
theorem Founded.spell_eq (h : Founded lib) (hn : term? lib n = some t) :
    spell lib n = t.spell (spell lib) :=
  h.fold_eq local_spell hn

/-- The recursion comes to an end at every node, and what it makes of it is its text. -/
theorem Founded.rendered_iff (h : Founded lib) (hn : contains lib n = true) {text : String} :
    Rendered lib n text ↔ text = spell lib n := by
  constructor
  · intro hr
    induction hr with
    | node ht _ ih =>
      rw [h.spell_eq ht]
      exact Term.spell_congr fun m hm => ih m hm (h.operand ht hm).2
  · rintro rfl
    induction hr : n.raw using Nat.strongRecOn generalizing n with
    | ind raw ih =>
      subst hr
      obtain ⟨t, ht⟩ := h.exists_term hn
      rw [h.spell_eq ht]
      refine .node ht fun m hm => ?_
      have hop := h.operand ht hm
      exact ih m.raw hop.1 hop.2 rfl

/-- A text stays. -/
theorem Founded.spell_of_extends (h : Founded lib) (h' : Founded lib') (he : Extends lib lib')
    (hn : contains lib n = true) : spell lib' n = spell lib n :=
  h.fold_of_extends h' local_spell he hn

end Library

end SatMemo
