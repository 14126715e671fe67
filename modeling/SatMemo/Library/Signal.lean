import SatMemo.Node

/-! # Signals of an and-inverter graph

    A signal is a node index with a complement bit below it.  Index 0 is the
    constant node: its plain signal is false, its complement true. -/

namespace SatMemo

/-- An index below `indexLimit` and its complement bit fit into a word of 32 bits. -/
structure Signal where
  raw : Nat
deriving Repr, DecidableEq, Inhabited

namespace Signal

def zero : Signal := ⟨0⟩

def one : Signal := ⟨1⟩

def ofBool (b : Bool) : Signal :=
  if b then one else zero

/-- The plain signal of a node. -/
def ofIndex (i : Nat) : Signal :=
  ⟨2 * i⟩

/-- The plain signal in a word of 32 bits: the top bit of the index is lost. -/
def ofIndex32 (i : Nat) : Signal :=
  ⟨2 * i % 0x100000000⟩

def ofNode (n : NodeId) : Signal :=
  ⟨n.raw⟩

def toNode (s : Signal) : NodeId :=
  ⟨s.raw⟩

def index (s : Signal) : Nat :=
  s.raw / 2

def isNegated (s : Signal) : Bool :=
  s.raw % 2 == 1

def isConst (s : Signal) : Bool :=
  s.index == 0

/-- The signal with its complement bit cleared. -/
def regular (s : Signal) : Signal :=
  ⟨s.raw - s.raw % 2⟩

/-- The complement of a signal. -/
def negate (s : Signal) : Signal :=
  ⟨if s.raw % 2 = 0 then s.raw + 1 else s.raw - 1⟩

def text (s : Signal) : String :=
  if s.isConst then
    toString (s.raw % 2)
  else
    (if s.isNegated then "!" else "") ++ s!"n{s.index}"

/-! ## Small laws -/

@[simp] theorem negate_negate (s : Signal) : s.negate.negate = s := by
  cases s with
  | mk r =>
    simp only [negate]
    congr 1
    split <;> split <;> omega

@[simp] theorem index_negate (s : Signal) : s.negate.index = s.index := by
  simp only [negate, index]
  split <;> omega

@[simp] theorem index_ofIndex (i : Nat) : (ofIndex i).index = i := by
  simp [ofIndex, index]

/-- Below the limit, and only there, nothing is lost. -/
theorem ofIndex32_eq_iff {i : Nat} : ofIndex32 i = ofIndex i ↔ i < indexLimit := by
  simp only [ofIndex32, ofIndex, indexLimit, Signal.mk.injEq]
  omega

theorem ofIndex_inj {i j : Nat} : ofIndex i = ofIndex j ↔ i = j :=
  ⟨fun h => by simpa using congrArg index h, fun h => h ▸ rfl⟩

@[simp] theorem toNode_ofNode (n : NodeId) : (ofNode n).toNode = n := rfl

@[simp] theorem ofNode_toNode (s : Signal) : ofNode s.toNode = s := rfl

end Signal

end SatMemo
