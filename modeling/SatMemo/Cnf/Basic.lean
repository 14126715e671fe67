import SatMemo.Error

/-! # Literals and clauses

    A literal is a variable, numbered from 1, with a sign.  Its code is twice the
    number, plus one if it is negated; literals are ordered by code, so the two
    literals of a variable are neighbours.  On the outside a literal is a signed
    integer.

    A clause is a disjunction of literals, and a list of clauses is their
    conjunction.  A clause follows from others if it is true wherever they all
    are. -/

namespace SatMemo

/-! ## Literals -/

/-- A variable number below `indexLimit` and its sign fit into a word of 32 bits. -/
structure Literal where
  code : Nat
deriving Repr, DecidableEq, Inhabited

namespace Literal

/-- The literal of a variable with the given sign. -/
def ofVar (v : Nat) (negated : Bool) : Literal :=
  ⟨2 * v + negated.toNat⟩

/-- The variable itself. -/
def pos (v : Nat) : Literal :=
  ofVar v false

def var (l : Literal) : Nat :=
  l.code / 2

def isNegated (l : Literal) : Bool :=
  l.code % 2 == 1

/-- The other literal of the same variable. -/
def negate (l : Literal) : Literal :=
  ⟨if l.code % 2 = 0 then l.code + 1 else l.code - 1⟩

instance : Neg Literal := ⟨negate⟩

/-- Value of a literal where the variables have the values `α`. -/
def eval (α : Nat → Bool) (l : Literal) : Bool :=
  α l.var != l.isNegated

/-! ## Order -/

instance : Ord Literal := ⟨fun k l => compare k.code l.code⟩

instance : Std.TransOrd Literal where
  eq_swap    := Std.OrientedOrd.eq_swap (α := Nat)
  isLE_trans := Std.TransOrd.isLE_trans (α := Nat)

instance : Std.LawfulEqOrd Literal where
  compare_self     := Std.ReflOrd.compare_self (α := Nat)
  eq_of_compare h := congrArg mk (Std.LawfulEqOrd.eq_of_compare (α := Nat) h)

/-! ## Signed integers and 32-bit words -/

/-- The signed integer of a literal: negative if it is negated. -/
def toInt (l : Literal) : Int :=
  if l.isNegated then -(l.var : Int) else l.var

/-- The literal in a code of 32 bits.  A variable number of `indexLimit` or more loses its top
    bit. -/
def packed (v : Nat) (negated : Bool) : Literal :=
  ⟨(2 * v + negated.toNat) % 0x100000000⟩

/-- A variable number from outside, which must not be 0. -/
def checkVar (v : Nat) : Except Fault Nat :=
  if v = 0 then .error .zeroVariable else .ok v

/-- The literal of a signed integer other than 0. -/
def ofInt (n : Int) : Except Fault Literal :=
  if n = 0 then .error .zeroLiteral else .ok (packed n.natAbs (n < 0))

def text (l : Literal) : String :=
  toString l.toInt

/-! ## Small laws -/

@[simp] theorem var_ofVar (v : Nat) (b : Bool) : (ofVar v b).var = v := by
  cases b
  · simp [ofVar, var]
  · simp only [ofVar, var, Bool.toNat_true]
    omega

@[simp] theorem isNegated_ofVar (v : Nat) (b : Bool) : (ofVar v b).isNegated = b := by
  cases b <;> simp [ofVar, isNegated]

/-- Below the limit, and only there, nothing is lost. -/
theorem packed_eq_iff {v : Nat} {b : Bool} : packed v b = ofVar v b ↔ v < indexLimit := by
  have hb := b.toNat_le
  simp only [packed, ofVar, indexLimit, Literal.mk.injEq]
  omega

theorem neg_def (l : Literal) : -l = l.negate := rfl

@[simp] theorem var_neg (l : Literal) : (-l).var = l.var := by
  simp only [neg_def, negate, var]
  split <;> omega

@[simp] theorem isNegated_neg (l : Literal) : (-l).isNegated = !l.isNegated := by
  simp only [neg_def, negate, isNegated]
  split <;> rename_i h
  · have h₁ : (l.code + 1) % 2 = 1 := by omega
    simp [h, h₁]
  · have h₁ : l.code % 2 = 1 := by omega
    have h₂ : (l.code - 1) % 2 = 0 := by omega
    simp [h₁, h₂]

@[simp] theorem neg_neg (l : Literal) : - -l = l := by
  cases l with
  | mk c =>
    simp only [neg_def, negate]
    congr 1
    split <;> split <;> omega

@[simp] theorem eval_neg (α : Nat → Bool) (l : Literal) : (-l).eval α = !l.eval α := by
  simp only [eval, var_neg, isNegated_neg]
  cases α l.var <;> cases l.isNegated <;> rfl

/-- The literals of one variable are each other's complements. -/
theorem eq_or_eq_neg {k l : Literal} (h : k.var = l.var) : k = l ∨ k = -l := by
  cases k with
  | mk c =>
    cases l with
    | mk d =>
      simp only [var, neg_def, negate, mk.injEq] at h ⊢
      split <;> omega

end Literal

/-! ## Clauses -/

/-- A disjunction of literals. -/
abbrev Clause := List Literal

namespace Cnf

/-- Is every clause true where the variables have the values `α`? -/
def eval (α : Nat → Bool) (clauses : List Clause) : Bool :=
  clauses.all fun c => c.any (Literal.eval α)

/-- Is a clause true wherever all of `clauses` are? -/
def Entails (clauses : List Clause) (c : Clause) : Prop :=
  ∀ α, eval α clauses = true → c.any (Literal.eval α) = true

theorem eval_eq_true_iff {α : Nat → Bool} {clauses : List Clause} :
    eval α clauses = true ↔ ∀ c ∈ clauses, ∃ l ∈ c, l.eval α = true := by
  simp [eval]

theorem entails_of_mem {clauses : List Clause} {c : Clause} (h : c ∈ clauses) :
    Entails clauses c := by
  intro α hα
  exact List.all_eq_true.1 hα c h

theorem entails_nil_iff {clauses : List Clause} :
    Entails clauses [] ↔ ∀ α, eval α clauses = false := by
  simp [Entails]

end Cnf

end SatMemo
