import SatMemo.Library.Basic
import SatMemo.Store.Arena
import SatMemo.Worklist

/-! # N-ary formulas

    A library that stores every term once and simplifies nothing: two requests
    for the same connective over the same nodes in the same order get the same
    node, and `x & !x` is a conjunction like any other.

    A formula is printed from a list of pieces, so that the depth of the formula
    costs no depth of recursion.  Opening a node puts its text out and its
    operands in front of what is left. -/

namespace SatMemo

structure Nary where
  terms : Arena Term

namespace Nary

def ofBits (bits : Nat) : Except Fault Nary :=
  (Arena.ofBits bits).map Nary.mk

/-- Number of distinct terms. -/
def size (lib : Nary) : Nat :=
  lib.terms.size

def contains (lib : Nary) (n : NodeId) : Bool :=
  lib.terms.contains n.raw

def term (lib : Nary) (n : NodeId) : Except Fault Term :=
  lib.terms.value n.raw

/-! ## Making nodes -/

/-- The node of a term, which is stored now if it was not before. -/
def store (lib : Nary) (t : Term) : Grown Nary :=
  match lib with
  | ⟨terms⟩ =>
      match terms.insert t with
      | ⟨i, fresh, terms⟩ => ⟨⟨i⟩, ⟨terms⟩, if fresh then [.termStored i t] else []⟩

def makeAnd (lib : Nary) : List NodeId → Grown Nary
  | []       => lib.store .constTrue
  | operands => lib.store (.and operands)

def makeOr (lib : Nary) : List NodeId → Grown Nary
  | []       => lib.store .constFalse
  | operands => lib.store (.or operands)

/-! ## Structure -/

/-- Operands are stored once, so one level decides. -/
def structEq (lib : Nary) (a b : NodeId) : Except Fault Bool :=
  if a = b then
    .ok true
  else do
    let s ← lib.term a
    let t ← lib.term b
    return s = t

/-! ## Pieces -/

/-- What is left to print: a text, or a node that is at most `depth` levels deep. -/
inductive Piece where
  | text (s : String)
  | node (depth : Nat) (n : NodeId)
deriving Repr, DecidableEq

/-- Operands with a separator between them and the closing parenthesis behind. -/
def operandPieces (depth : Nat) (separator : String) (operands : List NodeId) : List Piece :=
  (operands.map (.node depth)).intersperse (.text separator) ++ [.text ")"]

/-- The text at the head of a term, and the pieces that follow it. -/
def openTerm (depth : Nat) : Term → String × List Piece
  | .constTrue    => ("true", [])
  | .constFalse   => ("false", [])
  | .var name     => (name, [])
  | .not operand  => ("!", [.node depth operand])
  | .and operands => ("(", operandPieces depth " & " operands)
  | .or operands  => ("(", operandPieces depth " | " operands)

/-! ## A bound on the work -/

/-- The greatest number of operands of a stored term. -/
def width (lib : Nary) : Nat :=
  (lib.terms.toList.map fun t => t.children.length).foldr max 0

/-- A bound on the pieces that a piece can still give rise to, where no term has more than
    `width` operands. -/
def Piece.weight (width : Nat) : Piece → Nat
  | .text _       => 1
  | .node depth _ => leafCount (2 * width + 4) (depth + 1)

theorem Piece.weight_pos (width : Nat) (p : Piece) : 0 < p.weight width := by
  cases p with
  | text s => exact Nat.one_pos
  | node depth n => exact leafCount_pos (by omega) _

theorem le_foldr_max {xs : List Nat} {x : Nat} (h : x ∈ xs) : x ≤ xs.foldr max 0 := by
  induction xs with
  | nil => simp at h
  | cons y ys ih =>
      rcases List.mem_cons.1 h with rfl | h
      · exact Nat.le_max_left _ _
      · exact Nat.le_trans (ih h) (Nat.le_max_right _ _)

/-- No stored term has more operands than the width says. -/
theorem length_children_le_width {lib : Nary} {n : NodeId} {t : Term} (h : lib.term n = .ok t) :
    t.children.length ≤ lib.width := by
  apply le_foldr_max
  simp only [term, Arena.value, Arena.cell] at h
  split at h
  · simp [Except.map] at h
  · split at h
    · rename_i c hc
      simp only [Except.map, Except.ok.injEq] at h
      subst h
      refine List.mem_map.2 ⟨c.value, ?_, rfl⟩
      exact List.mem_map.2 ⟨c, Array.mem_toList_iff.2 (Array.mem_of_getElem? hc), rfl⟩
    · simp [Except.map] at h

/-- Separators weigh no more than there are pieces between which they stand. -/
theorem totalWeight_intersperse (width : Nat) (separator : String) (ps : List Piece) :
    totalWeight (Piece.weight width) (ps.intersperse (.text separator))
      ≤ totalWeight (Piece.weight width) ps + ps.length := by
  fun_induction List.intersperse (Piece.text separator) ps with
  | case1 => simp
  | case2 => simp
  | case3 p q ps ih =>
      simp only [totalWeight_cons, List.length_cons, Piece.weight] at ih ⊢
      omega

theorem totalWeight_nodes (width depth : Nat) (operands : List NodeId) :
    totalWeight (Piece.weight width) (operands.map (.node depth))
      = operands.length * leafCount (2 * width + 4) (depth + 1) := by
  induction operands with
  | nil => simp
  | cons n operands ih =>
      simp only [List.map_cons, totalWeight_cons, ih, Piece.weight, List.length_cons,
        Nat.add_mul, Nat.one_mul]
      omega

theorem totalWeight_operandPieces (width depth : Nat) (separator : String)
    (operands : List NodeId) :
    totalWeight (Piece.weight width) (operandPieces depth separator operands)
      ≤ operands.length * leafCount (2 * width + 4) (depth + 1) + operands.length + 1 := by
  have h := totalWeight_intersperse width separator (operands.map (.node depth))
  rw [totalWeight_nodes] at h
  simp only [operandPieces, totalWeight_append, totalWeight_cons, totalWeight_nil,
    Piece.weight, List.length_map] at h ⊢
  omega

/-- So many operands weigh less than the term that has them. -/
theorem operands_lt_weight {width : Nat} (depth count : Nat) (n : NodeId) (h : count ≤ width) :
    count * leafCount (2 * width + 4) (depth + 1) + count + 1
      < (Piece.node (depth + 1) n).weight width := by
  have pos : 0 < leafCount (2 * width + 4) (depth + 1) := leafCount_pos (by omega) _
  simp only [Piece.weight, leafCount_succ (2 * width + 4) (depth + 1)]
  generalize leafCount (2 * width + 4) (depth + 1) = m at pos ⊢
  have h₁ : count * m ≤ width * m := Nat.mul_le_mul_right _ h
  have h₂ : width * 1 ≤ width * m := Nat.mul_le_mul_left _ pos
  have h₃ : (2 * width + 4) * m = width * m + width * m + 4 * m := by
    rw [Nat.add_mul, Nat.two_mul, Nat.add_mul]
  omega

/-- Opening a term leaves less to print than the term was. -/
theorem totalWeight_openTerm {width : Nat} (depth : Nat) {t : Term} (n : NodeId)
    (h : t.children.length ≤ width) :
    totalWeight (Piece.weight width) (openTerm depth t).2
      < (Piece.node (depth + 1) n).weight width := by
  cases t with
  | constTrue => exact Piece.weight_pos _ _
  | constFalse => exact Piece.weight_pos _ _
  | var name => exact Piece.weight_pos _ _
  | not operand =>
      have := operands_lt_weight depth 1 n h
      simp only [openTerm, totalWeight_cons, totalWeight_nil, Piece.weight] at this ⊢
      omega
  | and operands =>
      exact Nat.lt_of_le_of_lt (totalWeight_operandPieces width depth " & " operands)
        (operands_lt_weight depth _ n h)
  | or operands =>
      exact Nat.lt_of_le_of_lt (totalWeight_operandPieces width depth " | " operands)
        (operands_lt_weight depth _ n h)

/-! ## Printing -/

/-- Print the pieces in order behind what was printed already. -/
def write (lib : Nary) (pieces : List Piece) (out : String) : Except Fault String :=
  match pieces with
  | []                          => .ok out
  | .text s :: rest             => write lib rest (out ++ s)
  | .node 0 _ :: _              => .error .endlessDescent
  | .node (depth + 1) n :: rest =>
      match _h : lib.term n with
      | .error fault => .error fault
      | .ok t        => write lib ((openTerm depth t).2 ++ rest) (out ++ (openTerm depth t).1)
termination_by totalWeight (Piece.weight lib.width) pieces
decreasing_by
  · simp [Piece.weight]
  · have := totalWeight_openTerm depth n (length_children_le_width _h)
    simp only [totalWeight_append, totalWeight_cons, Nat.succ_eq_add_one]
    omega

/-- A formula as text: names as they are, `!` in front of what is negated, and the other
    connectives between their operands, in parentheses. -/
def print (lib : Nary) (n : NodeId) : Except Fault String :=
  lib.write [.node (lib.size + 1) n] ""

def label (lib : Nary) (n : NodeId) : Except Fault String := do
  match ← lib.term n with
  | .var name => return name
  | _              => lib.print n

instance : Library Nary where
  name := "native"
  bound lib := lib.size + 1
  contains := contains
  kind lib n := (lib.term n).map Term.kind
  children lib n := (lib.term n).map Term.children
  label := label
  structEq := structEq
  structKey lib n := (lib.term n).map Keyed.key
  print := print
  makeTrue lib := lib.store .constTrue
  makeFalse lib := lib.store .constFalse
  makeVariable lib name := lib.store (.var name)
  makeNot lib n := lib.store (.not n)
  makeAnd := makeAnd
  makeOr := makeOr
  checkBounded lib _ _ := .ok .unknown lib

end Nary

end SatMemo
