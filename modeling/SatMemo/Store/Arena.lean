import SatMemo.Error
import SatMemo.Store.Slots
import SatMemo.Word.Hash

/-! # Arenas: every value stored once

    An arena numbers distinct values 1, 2, … in the order of their first
    insertion.  Values whose keys agree modulo the number of buckets form a
    chain, the earliest first: each cell holds the index of the one after it,
    and 0 ends the chain.  A value is looked for by a walk along the chain of
    its bucket, and a new one is linked behind the cell where that walk ended. -/

namespace SatMemo

/-- A stored value and the next index of its chain. -/
structure Cell (α : Type) where
  value : α
  next  : Nat
deriving Repr, DecidableEq

/-- Distinct values, numbered from 1.  The cell of index `i` stands at position `i - 1`. -/
structure Arena (α : Type) where
  cells : Array (Cell α)
  /-- First index of the chain of each bucket; a slot not written to yet stands for 0. -/
  heads : Slots Nat

namespace Arena

variable {α : Type}

/-! ## Construction and size -/

/-- No values, and `2 ^ bits` buckets. -/
def empty (bits : Nat) : Arena α where
  cells := #[]
  heads := .empty bits

/-- An empty arena, if it is asked for no more than `2 ^ 31` buckets. -/
def ofBits (bits : Nat) : Except Fault (Arena α) :=
  if bits ≤ 31 then .ok (empty bits) else .error .storageBits

def size (a : Arena α) : Nat :=
  a.cells.size

def bucketCount (a : Arena α) : Nat :=
  1 <<< a.heads.bits

def contains (a : Arena α) (i : Nat) : Bool :=
  1 ≤ i && i ≤ a.size

/-! ## Reading -/

/-- The cell of an index; slot 0 counts as a slot, but it holds nothing. -/
@[inline] def cell (a : Arena α) (i : Nat) : Except Fault (Cell α) :=
  if i = 0 then
    .error .zeroIndex
  else
    match a.cells[i - 1]? with
    | some c => .ok c
    | none   => .error (.outOfBounds (a.size + 1) i)

def value (a : Arena α) (i : Nat) : Except Fault α :=
  (a.cell i).map Cell.value

/-- The index after `i` in its chain, 0 at the end. -/
def next (a : Arena α) (i : Nat) : Except Fault Nat :=
  (a.cell i).map Cell.next

/-- First index of the chain of a bucket, 0 if the chain is empty. -/
def head (a : Arena α) (bucket : Nat) : Nat :=
  (a.heads.get? bucket).getD 0

/-- The values in the order of their indices. -/
def toList (a : Arena α) : List α :=
  a.cells.toList.map Cell.value

/-- Every index with its value, in order. -/
def pairs (a : Arena α) : List (Nat × α) :=
  (a.toList.zipIdx 1).map Prod.swap

/-! ## Walking along a chain -/

/-- Where a value stands, or where it would be linked. -/
inductive Spot where
  /-- It has this index. -/
  | held (i : Nat)
  /-- It would come behind this index, the last one of its chain. -/
  | behind (i : Nat)
  /-- It would be the first of its chain. -/
  | first
deriving Repr, DecidableEq

/-- The index of a value that is stored. -/
def Spot.index? : Spot → Option Nat
  | .held i => some i
  | _       => none

section Hashed

variable [Keyed α] [DecidableEq α]

/-- The bucket of a value. -/
def bucket (a : Arena α) (v : α) : Nat :=
  (Keyed.key v).toNat % a.bucketCount

/-- Walk from index `i` to the end of its chain, in search of `v`.  The budget is more than the
    number of cells, so it is used up only where the links run in a circle. -/
def walk (a : Arena α) (v : α) : Nat → Nat → Except Fault Spot
  | 0, _ => .error .endlessDescent
  | budget + 1, i =>
      match a.cell i with
      | .error e => .error e
      | .ok c =>
          if c.value = v then .ok (.held i)
          else if c.next = 0 then .ok (.behind i)
          else a.walk v budget c.next

/-- The spot of a value. -/
def seek (a : Arena α) (v : α) : Except Fault Spot :=
  let head := a.head (a.bucket v)
  if head = 0 then .ok .first else a.walk v (a.size + 1) head

/-- The index of a value, if it is stored. -/
def find (a : Arena α) (v : α) : Except Fault (Option Nat) :=
  (a.seek v).map Spot.index?

/-! ## Insertion -/

/-- What an insertion came to. -/
structure Inserted (α : Type) where
  index : Nat
  fresh : Bool
  arena : Arena α

/-- Store a value as the first one of a bucket. -/
def pushFirst (a : Arena α) (bucket : Nat) (v : α) : Arena α :=
  match a with
  | ⟨cells, heads⟩ =>
      let n := cells.size + 1
      ⟨cells.push ⟨v, 0⟩, heads.set bucket n⟩

/-- Store a value and link the cell of index `i` to it. -/
def pushBehind (a : Arena α) (i : Nat) (v : α) : Arena α :=
  match a with
  | ⟨cells, heads⟩ =>
      let n := cells.size + 1
      ⟨(cells.modify (i - 1) fun c => ⟨c.value, n⟩).push ⟨v, 0⟩, heads⟩

/-- Store `v` at its spot, unless it is there. -/
def place (a : Arena α) (v : α) : Spot → Inserted α
  | .held i   => ⟨i, false, a⟩
  | .behind i => ⟨a.size + 1, true, a.pushBehind i v⟩
  | .first    => ⟨a.size + 1, true, a.pushFirst (a.bucket v) v⟩

/-- The index of `v`, which is stored now if it was not before. -/
def put (a : Arena α) (v : α) : Except Fault (Inserted α) :=
  (a.seek v).map (a.place v)

/-! ## For callers

    No walk over an arena that was filled by insertions comes to a fault, so
    callers use the two operations without one. -/

/-- The index of a value, if it is stored. -/
def find? (a : Arena α) (v : α) : Option Nat :=
  match a.find v with
  | .ok i    => i
  | .error _ => none

/-- The index of `v`, which is stored now if it was not before. -/
def insert (a : Arena α) (v : α) : Inserted α :=
  match a.seek v with
  | .ok spot => a.place v spot
  | .error _ => ⟨0, false, a⟩

end Hashed

end Arena

end SatMemo
