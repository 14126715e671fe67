import SatMemo.Node
import SatMemo.Word.Hash

/-! # Edges into a decision diagram

    An edge is the index of a node together with a complement mark.  It is kept
    as one integer whose absolute value is the index and whose sign is the mark:
    `-e` denotes the negation of the function that `e` denotes. -/

namespace SatMemo

/-- An index below `indexLimit` and its mark fit into a signed word of 32 bits. -/
structure Edge where
  code : Int
deriving Repr, DecidableEq, Inhabited

namespace Edge

/-- The unmarked edge to a node. -/
def ofIndex (i : Nat) : Edge :=
  ⟨i⟩

/-- The edge to the only terminal node, the constant true function. -/
def one : Edge := ⟨1⟩

/-- The complement of `one`, the constant false function. -/
def zero : Edge := ⟨-1⟩

def negate (e : Edge) : Edge :=
  ⟨-e.code⟩

instance : Neg Edge := ⟨negate⟩

/-- Index of the node the edge leads to. -/
def index (e : Edge) : Nat :=
  e.code.natAbs

/-- Does the edge carry the complement mark? -/
def isNegated (e : Edge) : Bool :=
  e.code < 0

/-- The edge without its mark. -/
def regular (e : Edge) : Edge :=
  ofIndex e.index

def isTerminal (e : Edge) : Bool :=
  e.index == 1

/-- The complement of `e` if `flip` holds, else `e` itself. -/
def negateIf (flip : Bool) (e : Edge) : Edge :=
  if flip then -e else e

/-- The edge in a word of 32 bits: indices from `indexLimit` on come out negative. -/
def ofIndex32 (i : Nat) : Edge :=
  ⟨(i : Int).bmod 0x100000000⟩

/-- Twice the index, plus one for the mark. -/
def word (e : Edge) : UInt64 :=
  UInt64.ofNat (2 * e.index + e.isNegated.toNat)

instance : Keyed Edge where
  key := word

def text (e : Edge) : String :=
  (if e.isNegated then "~" else "") ++ s!"@{e.index}"

/-! ## Small laws -/

theorem neg_def (e : Edge) : -e = ⟨-e.code⟩ := rfl

@[simp] theorem code_neg (e : Edge) : (-e).code = -e.code := rfl

@[simp] theorem neg_neg (e : Edge) : - -e = e := by
  cases e
  simp [neg_def]

@[simp] theorem index_neg (e : Edge) : (-e).index = e.index := by
  simp [index]

@[simp] theorem neg_one : -one = zero := rfl

@[simp] theorem neg_zero : -zero = one := rfl

/-- Below the limit, and only there, the sign is free for the mark. -/
theorem ofIndex32_eq_iff {i : Nat} : ofIndex32 i = ofIndex i ↔ i < indexLimit := by
  unfold ofIndex32 ofIndex indexLimit
  rw [Edge.mk.injEq, Int.bmod_eq_iff (by decide)]
  omega

@[simp] theorem negateIf_true (e : Edge) : negateIf true e = -e := rfl

@[simp] theorem negateIf_false (e : Edge) : negateIf false e = e := rfl

end Edge

end SatMemo
