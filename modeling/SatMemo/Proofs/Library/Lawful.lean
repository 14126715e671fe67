import SatMemo.Library.Basic
import SatMemo.Library.Term
import SatMemo.Proofs.BoolFn

/-! # Lawful libraries

    A library is read through what it tells of its nodes: `term?` puts kind,
    operands and name of a node together, and `value` follows the operands down
    to the names.  Neither looks inside the library.  Whatever else is made of a node
    from what is made of its operands is a `fold`, of which the laws are proved once.

    `Lawful` lists what a program relies on: nodes are numbered after their
    operands, nodes of one structure are one node, everything asked about a node
    that the library holds is answered, a bounded check is never wrong, and a new
    node has the value that was asked for while the old ones keep their terms.
    Values are therefore the same before and after (`value_of_extends`). -/

namespace SatMemo

theorem NodeId.eq_of_raw_eq {m n : NodeId} (h : m.raw = n.raw) : m = n := by
  cases m
  cases n
  exact congrArg NodeId.mk h

namespace Term

variable {ρ : String → Bool} {v w : NodeId → Bool} {t : Term}

/-- The value of a term, from those of the names and of its operands. -/
def value (ρ : String → Bool) (v : NodeId → Bool) : Term → Bool
  | .constTrue  => true
  | .constFalse => false
  | .var name   => ρ name
  | .not m      => !v m
  | .and ms     => ms.all v
  | .or ms      => ms.any v

/-- Only the values of the operands matter. -/
theorem value_congr (h : ∀ m ∈ t.children, v m = w m) : t.value ρ v = t.value ρ w := by
  cases t with
  | constTrue => rfl
  | constFalse => rfl
  | var name => rfl
  | not m => exact congrArg Bool.not (h m (List.mem_singleton.2 rfl))
  | and ms => exact BoolFn.list_all_congr h
  | or ms => exact BoolFn.list_any_congr h

end Term

namespace Library

variable {ε : Type} [Library ε] {lib lib' : ε} {m n : NodeId} {t : Term}

/-! ## Nodes as terms -/

/-- A node as a term, if the library holds it and what it tells of it makes sense. -/
def term? (lib : ε) (n : NodeId) : Option Term :=
  if contains lib n then
    match kind lib n, children lib n, label lib n with
    | .ok .constTrue, .ok [], _  => some .constTrue
    | .ok .constFalse, .ok [], _ => some .constFalse
    | .ok .var, .ok [], .ok name => some (.var name)
    | .ok .not, .ok [m], _       => some (.not m)
    | .ok .and, .ok (m :: ms), _ => some (.and (m :: ms))
    | .ok .or, .ok (m :: ms), _  => some (.or (m :: ms))
    | _, _, _                    => none
  else
    none

theorem contains_of_term? (h : term? lib n = some t) : contains lib n = true := by
  unfold term? at h
  split at h
  · assumption
  · cases h

theorem kind_of_term? (h : term? lib n = some t) : kind lib n = .ok t.kind := by
  unfold term? at h
  split at h
  · split at h <;> cases h <;> assumption
  · cases h

theorem children_of_term? (h : term? lib n = some t) : children lib n = .ok t.children := by
  unfold term? at h
  split at h
  · split at h <;> cases h <;> assumption
  · cases h

theorem label_of_term? {name : String} (h : term? lib n = some (.var name)) :
    label lib n = .ok name := by
  unfold term? at h
  split at h
  · split at h <;> cases h
    assumption
  · cases h

/-- A term has as many operands as its kind may have. -/
theorem accepts_of_term? (h : term? lib n = some t) :
    t.kind.accepts t.children.length = true := by
  unfold term? at h
  split at h
  · split at h <;> cases h <;> simp [Term.kind, Term.children, Kind.accepts]
  · cases h

/-- What the library has to tell of a node that it holds. -/
theorem term?_eq (hn : contains lib n = true) (hkind : kind lib n = .ok t.kind)
    (hchildren : children lib n = .ok t.children)
    (hlabel : ∀ name, t = .var name → label lib n = .ok name)
    (haccepts : t.kind.accepts t.children.length = true) : term? lib n = some t := by
  unfold term?
  rw [if_pos hn, hkind, hchildren]
  cases t with
  | constTrue => rfl
  | constFalse => rfl
  | var name =>
    rw [hlabel name rfl]
    rfl
  | not m => rfl
  | and ms =>
    cases ms with
    | nil => cases haccepts
    | cons m ms => rfl
  | or ms =>
    cases ms with
    | nil => cases haccepts
    | cons m ms => rfl

/-! ## Values -/

/-- The value of a node that is less than `depth` levels deep, for an assignment of the
    names. -/
def valueAt (lib : ε) (ρ : String → Bool) : (depth : Nat) → NodeId → Bool
  | 0, _         => false
  | depth + 1, n => ((term? lib n).map (Term.value ρ (valueAt lib ρ depth))).getD false

/-- The value of a node.  No node of an acyclic library is deeper than the library's bound. -/
def value (lib : ε) (ρ : String → Bool) (n : NodeId) : Bool :=
  valueAt lib ρ (bound lib) n

/-- What is known of a node is true. -/
def Right (lib : ε) (n : NodeId) (status : Status) : Prop :=
  (status = .sat → ∃ ρ, value lib ρ n = true) ∧ (status = .unsat → ∀ ρ, value lib ρ n = false)

/-- Nothing is known. -/
theorem right_unknown (lib : ε) (n : NodeId) : Right lib n .unknown :=
  ⟨nofun, nofun⟩

/-- The terms of `lib` are terms of `lib'`. -/
def Extends (lib lib' : ε) : Prop :=
  ∀ ⦃n : NodeId⦄ ⦃t : Term⦄, term? lib n = some t → term? lib' n = some t

theorem Extends.refl (lib : ε) : Extends lib lib :=
  fun _ _ h => h

/-- Every node of the library is a term, and its operands are numbered before it. -/
structure Founded (lib : ε) : Prop where
  exists_term : ∀ {n}, contains lib n = true → ∃ t, term? lib n = some t
  operand     : ∀ {n t m}, term? lib n = some t → m ∈ t.children →
    m.raw < n.raw ∧ contains lib m = true
  lt_bound    : ∀ {n}, contains lib n = true → n.raw < bound lib

/-! ## Recursion on operands -/

section Folds

variable {β : Type} {f : (NodeId → β) → Term → β} {b : β}

/-- What `f` makes of a node that is less than `depth` levels deep, from what it makes of the
    operands; `b` where there is no node. -/
def foldAt (f : (NodeId → β) → Term → β) (b : β) (lib : ε) : (depth : Nat) → NodeId → β
  | 0, _         => b
  | depth + 1, n => ((term? lib n).map (f (foldAt f b lib depth))).getD b

/-- What `f` makes of a node. -/
def fold (f : (NodeId → β) → Term → β) (b : β) (lib : ε) (n : NodeId) : β :=
  foldAt f b lib (bound lib) n

/-- What becomes of a term depends on what becomes of its operands. -/
def Local (f : (NodeId → β) → Term → β) : Prop :=
  ∀ ⦃v w : NodeId → β⦄ ⦃t : Term⦄, (∀ m ∈ t.children, v m = w m) → f v t = f w t

/-- Any depth that is enough comes to the same. -/
theorem Founded.foldAt_eq (h : Founded lib) (hf : Local f) {depth depth' : Nat}
    (hdepth : n.raw < depth) (hdepth' : n.raw < depth') :
    foldAt f b lib depth n = foldAt f b lib depth' n := by
  induction depth generalizing n depth' with
  | zero => exact absurd hdepth (Nat.not_lt_zero _)
  | succ depth ih =>
    cases depth' with
    | zero => exact absurd hdepth' (Nat.not_lt_zero _)
    | succ depth' =>
      show ((term? lib n).map _).getD b = ((term? lib n).map _).getD b
      cases hn : term? lib n with
      | none => rfl
      | some t =>
        have hops : ∀ m ∈ t.children, foldAt f b lib depth m = foldAt f b lib depth' m := by
          intro m hm
          have hlt : m.raw < n.raw := (h.operand hn hm).1
          exact ih (Nat.lt_of_lt_of_le hlt (Nat.le_of_lt_succ hdepth))
            (Nat.lt_of_lt_of_le hlt (Nat.le_of_lt_succ hdepth'))
        exact hf hops

/-- A node is worth what its term is. -/
theorem Founded.fold_eq (h : Founded lib) (hf : Local f) (hn : term? lib n = some t) :
    fold f b lib n = f (fold f b lib) t := by
  have hbound : n.raw < bound lib := h.lt_bound (contains_of_term? hn)
  have hunfold : fold f b lib n = foldAt f b lib (bound lib + 1) n :=
    h.foldAt_eq hf hbound (Nat.lt_succ_of_lt hbound)
  rw [hunfold]
  show ((term? lib n).map _).getD b = _
  rw [hn]
  rfl

/-- Old nodes come to the same in a later library. -/
theorem Founded.fold_of_extends (h : Founded lib) (h' : Founded lib') (hf : Local f)
    (he : Extends lib lib') (hn : contains lib n = true) :
    fold f b lib' n = fold f b lib n := by
  -- By induction on the number of the node, since its operands have smaller ones.
  induction hr : n.raw using Nat.strongRecOn generalizing n with
  | ind raw ih =>
    subst hr
    obtain ⟨t, ht⟩ := h.exists_term hn
    rw [h.fold_eq hf ht, h'.fold_eq hf (he ht)]
    apply hf
    intro m hm
    have hop := h.operand ht hm
    exact ih m.raw hop.1 hop.2 rfl

end Folds

section Values

variable {ρ : String → Bool}

theorem local_value : Local (Term.value ρ) :=
  fun _ _ _ h => Term.value_congr h

theorem value_eq_fold (lib : ε) (n : NodeId) : value lib ρ n = fold (Term.value ρ) false lib n := by
  unfold value fold
  generalize bound lib = depth
  induction depth generalizing n with
  | zero => rfl
  | succ depth ih =>
    show ((term? lib n).map (Term.value ρ (valueAt lib ρ depth))).getD false = _
    rw [funext ih]
    rfl

/-- The value of a node is that of its term. -/
theorem Founded.value_eq (h : Founded lib) (hn : term? lib n = some t) :
    value lib ρ n = t.value ρ (value lib ρ) := by
  rw [value_eq_fold, h.fold_eq local_value hn, ← funext (value_eq_fold lib)]

/-- Old nodes keep their values. -/
theorem Founded.value_of_extends (h : Founded lib) (h' : Founded lib') (he : Extends lib lib')
    (hn : contains lib n = true) : value lib' ρ n = value lib ρ n := by
  rw [value_eq_fold, value_eq_fold, h.fold_of_extends h' local_value he hn]

theorem Founded.contains_of_extends (h : Founded lib) (he : Extends lib lib')
    (hn : contains lib n = true) : contains lib' n = true := by
  obtain ⟨t, ht⟩ := h.exists_term hn
  exact contains_of_term? (he ht)

theorem Founded.right_of_extends (h : Founded lib) (h' : Founded lib') (he : Extends lib lib')
    (hn : contains lib n = true) {status : Status} (hr : Right lib n status) :
    Right lib' n status := by
  have hvalue : ∀ ρ, value lib' ρ n = value lib ρ n :=
    fun ρ => h.value_of_extends h' he hn
  refine ⟨fun hs => ?_, fun hs ρ => ?_⟩
  · obtain ⟨ρ, hρ⟩ := hr.1 hs
    exact ⟨ρ, (hvalue ρ).trans hρ⟩
  · exact (hvalue ρ).trans (hr.2 hs ρ)

end Values

/-- A node just made: the library still has all that it had, and the node has the value that
    was asked for. -/
structure Grows (Wf : ε → Prop) (lib : ε) (g : Grown ε) (F : (String → Bool) → Bool) : Prop where
  wf    : Wf g.library
  later : Extends lib g.library
  held  : contains g.library g.node = true
  value : ∀ ρ, value g.library ρ g.node = F ρ

/-! ## The laws -/

/-- What a program relies on in a library. -/
class Lawful (ε : Type) [Library ε] where
  /-- The libraries that can come about. -/
  Wf             : ε → Prop
  /-- The structural key of a node. -/
  key            : NodeId → Term → UInt64
  founded        : ∀ {lib}, Wf lib → Founded lib
  structEq_eq    : ∀ {lib m n}, Wf lib → contains lib m = true → contains lib n = true →
    structEq lib m n = .ok (decide (m = n))
  structKey_eq   : ∀ {lib n t}, Wf lib → term? lib n = some t →
    structKey lib n = .ok (key n t)
  /-- A name belongs to one node. -/
  var_unique     : ∀ {lib m n name}, Wf lib → term? lib m = some (.var name) →
    term? lib n = some (.var name) → m = n
  print_eq       : ∀ {lib n}, Wf lib → contains lib n = true → ∃ text, print lib n = .ok text
  /-- The bounded check is never wrong. -/
  check          : ∀ {lib n} budget, Wf lib → contains lib n = true → ∃ status lib' events,
    checkBounded lib n budget = ⟨.ok status, lib', events⟩ ∧ Wf lib' ∧ Extends lib lib' ∧
      Right lib n status
  grows_true     : ∀ {lib}, Wf lib → Grows Wf lib (makeTrue lib) fun _ => true
  grows_false    : ∀ {lib}, Wf lib → Grows Wf lib (makeFalse lib) fun _ => false
  grows_variable : ∀ {lib} name, Wf lib →
    Grows Wf lib (makeVariable lib name) fun ρ => ρ name
  grows_not      : ∀ {lib n}, Wf lib → contains lib n = true →
    Grows Wf lib (makeNot lib n) fun ρ => !value lib ρ n
  grows_and      : ∀ {lib ns}, Wf lib → (∀ n ∈ ns, contains lib n = true) →
    Grows Wf lib (makeAnd lib ns) fun ρ => ns.all (value lib ρ)
  grows_or       : ∀ {lib ns}, Wf lib → (∀ n ∈ ns, contains lib n = true) →
    Grows Wf lib (makeOr lib ns) fun ρ => ns.any (value lib ρ)

end Library

end SatMemo
