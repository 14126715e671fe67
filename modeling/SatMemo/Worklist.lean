/-! # Weights of work lists

    A computation that works off a list, putting finitely many smaller items in
    place of the first one, ends because the total weight of the list goes down.
    An item that can be opened `depth` times, into fewer than `width` items each
    time, weighs as much as a full tree of that width and depth has leaves. -/

namespace SatMemo

/-- Sum of the weights of the items of a list. -/
def totalWeight {α : Type} (weight : α → Nat) : List α → Nat
  | []      => 0
  | x :: xs => weight x + totalWeight weight xs

@[simp] theorem totalWeight_nil {α : Type} (weight : α → Nat) : totalWeight weight [] = 0 := rfl

@[simp] theorem totalWeight_cons {α : Type} (weight : α → Nat) (x : α) (xs : List α) :
    totalWeight weight (x :: xs) = weight x + totalWeight weight xs := rfl

@[simp] theorem totalWeight_append {α : Type} (weight : α → Nat) (xs ys : List α) :
    totalWeight weight (xs ++ ys) = totalWeight weight xs + totalWeight weight ys := by
  induction xs with
  | nil => simp
  | cons x xs ih => simp only [List.cons_append, totalWeight_cons, ih]; omega

/-- Number of leaves of a tree that branches `width` ways on each of `depth` levels. -/
def leafCount (width : Nat) : (depth : Nat) → Nat
  | 0         => 1
  | depth + 1 => width * leafCount width depth

theorem leafCount_succ (width depth : Nat) :
    leafCount width (depth + 1) = width * leafCount width depth := rfl

theorem leafCount_pos {width : Nat} (h : 0 < width) (depth : Nat) : 0 < leafCount width depth := by
  induction depth with
  | zero => exact Nat.one_pos
  | succ depth ih => exact Nat.mul_pos h ih

theorem leafCount_mono {width : Nat} (h : 0 < width) {k n : Nat} (hk : k ≤ n) :
    leafCount width k ≤ leafCount width n := by
  induction hk with
  | refl => exact Nat.le_refl _
  | step _ ih => exact Nat.le_trans ih (Nat.le_mul_of_pos_left _ h)

end SatMemo
