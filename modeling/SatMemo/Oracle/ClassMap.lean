import Std.Data.TreeMap
import SatMemo.Library.Basic

/-! # Maps on structural classes

    A map whose keys are formulas up to their structure, as the library sees it:
    nodes are put into buckets by structural key and told apart within a bucket by
    structural equality. -/

namespace SatMemo

/-- Buckets by structural key, each in the order of insertion. -/
structure ClassMap (ν : Type) where
  buckets : Std.TreeMap Nat (List (NodeId × ν))

namespace ClassMap

variable {ν ε : Type} [Library ε]

def empty : ClassMap ν where
  buckets := ∅

/-- The value of the first node in a bucket that has the structure of `n`. -/
def search (lib : ε) (n : NodeId) : List (NodeId × ν) → Except Fault (Option ν)
  | []             => .ok none
  | (m, v) :: rest => do
      if ← Library.structEq lib m n then return some v else search lib n rest

/-- The value stored for the class of `n`. -/
def find? (c : ClassMap ν) (lib : ε) (n : NodeId) : Except Fault (Option ν) := do
  let key ← Library.structKey lib n
  match c.buckets[key.toNat]? with
  | some bucket => search lib n bucket
  | none        => return none

/-- A look-up searches the bucket of the key, which is empty if it is not there. -/
theorem find?_of_structKey {c : ClassMap ν} {lib : ε} {n : NodeId} {key : UInt64}
    (h : Library.structKey lib n = .ok key) :
    c.find? lib n = search lib n ((c.buckets[key.toNat]?).getD []) := by
  simp only [find?, h, bind, Except.bind]
  cases c.buckets[key.toNat]? <;> rfl

/-- Store a value for the class of `n`, which has none yet. -/
def insert (c : ClassMap ν) (lib : ε) (n : NodeId) (v : ν) : Except Fault (ClassMap ν) := do
  let key ← Library.structKey lib n
  return ⟨c.buckets.alter key.toNat fun bucket? => some (bucket?.getD [] ++ [(n, v)])⟩

/-- A node that has a key can be stored, at the end of its bucket. -/
theorem insert_of_structKey {c : ClassMap ν} {lib : ε} {n : NodeId} {v : ν} {key : UInt64}
    (h : Library.structKey lib n = .ok key) :
    c.insert lib n v
      = .ok ⟨c.buckets.alter key.toNat fun bucket? => some (bucket?.getD [] ++ [(n, v)])⟩ := by
  simp only [insert, h, bind, Except.bind]
  rfl

end ClassMap

end SatMemo
