import SatMemo.Error
import SatMemo.Store.Slots
import SatMemo.Word.Hash

/-! # Lossy memo tables

    A memo table has a fixed number of slots and one entry for each; an
    insertion evicts whatever the slot held.  A lookup compares the whole key, so
    an evicted answer is lost but never replaced by another one's.  Lookups are
    counted. -/

namespace SatMemo

/-- Entries by slot. -/
structure Memo (κ ν : Type) where
  slots  : Slots (κ × ν)
  hits   : Nat
  misses : Nat

namespace Memo

variable {κ ν : Type}

def empty (bits : Nat) : Memo κ ν where
  slots  := .empty bits
  hits   := 0
  misses := 0

/-- An empty table, if it is asked for no more than `2 ^ 31` slots. -/
def ofBits (bits : Nat) : Except Fault (Memo κ ν) :=
  if bits ≤ 31 then .ok (empty bits) else .error .memoBits

/-- Forget every entry, but not the counts. -/
def clear (t : Memo κ ν) : Memo κ ν :=
  { t with slots := .empty t.slots.bits }

section Hashed

variable [Keyed κ]

/-- The slot of a key. -/
def slot (t : Memo κ ν) (k : κ) : Nat :=
  (Keyed.key k).toNat % (1 <<< t.slots.bits)

def insert (t : Memo κ ν) (k : κ) (v : ν) : Memo κ ν :=
  match t, t.slot k with
  | ⟨slots, hits, misses⟩, slot => ⟨slots.set slot (k, v), hits, misses⟩

variable [DecidableEq κ]

/-- The value last stored under `k`, unless its slot was overwritten since. -/
def peek? (t : Memo κ ν) (k : κ) : Option ν :=
  match t.slots.get? (t.slot k) with
  | some (k', v) => if k' = k then some v else none
  | none         => none

/-- Look a key up and count the lookup as a hit or a miss. -/
def get (t : Memo κ ν) (k : κ) : Option ν × Memo κ ν :=
  match t.peek? k with
  | some v => (some v, { t with hits := t.hits + 1 })
  | none   => (none, { t with misses := t.misses + 1 })

end Hashed

end Memo

end SatMemo
