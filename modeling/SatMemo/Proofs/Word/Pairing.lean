import Mathlib.Algebra.Group.Nat.Defs
import Mathlib.Data.Nat.Pairing
import Mathlib.Data.Set.Function
import SatMemo.Word.Hash

/-! # Pairing is exact on half words

    On words the pairing wraps, so in general it only mixes its arguments.  Where
    both are below `2 ^ 32` it is the pairing of natural numbers: no product and no
    sum on the way leaves the range of a word.  The pairs below `2 ^ 32` fill the
    numbers below `2 ^ 64` shell by shell, from `pair 0 0 = 0` to the last one,
    without a gap and without a repetition.

    That nothing wraps is stated with operations that refuse to answer where they
    would (`product?`, `sum?`): the pairing made of them answers exactly if the
    pairing of the natural numbers fits into a word (`pairWith_exact`). -/

namespace SatMemo

/-! ## Operations that do not wrap -/

/-- Szudzik's pairing, under any reading of the products and sums in it. -/
def pairWith {m : Type → Type} [Monad m] (mul add : UInt64 → UInt64 → m UInt64)
    (a b : UInt64) : m UInt64 :=
  if a < b then do
    let s ← mul b b
    add s a
  else do
    let s ← mul a a
    let t ← add s a
    add t b

/-- The product of two words, if it is one. -/
def product? (a b : UInt64) : Option UInt64 :=
  if a.toNat * b.toNat < 2 ^ 64 then some (a * b) else none

/-- The sum of two words, if it is one. -/
def sum? (a b : UInt64) : Option UInt64 :=
  if a.toNat + b.toNat < 2 ^ 64 then some (a + b) else none

theorem product?_eq_some {a b : UInt64} (h : a.toNat * b.toNat < 2 ^ 64) :
    product? a b = some (a * b) ∧ (a * b).toNat = a.toNat * b.toNat := by
  refine ⟨if_pos h, ?_⟩
  rw [UInt64.toNat_mul, Nat.mod_eq_of_lt h]

theorem sum?_eq_some {a b : UInt64} (h : a.toNat + b.toNat < 2 ^ 64) :
    sum? a b = some (a + b) ∧ (a + b).toNat = a.toNat + b.toNat := by
  refine ⟨if_pos h, ?_⟩
  rw [UInt64.toNat_add, Nat.mod_eq_of_lt h]

/-- With the operations of words, the pairing is that of words. -/
theorem pairWith_id (a b : UInt64) :
    pairWith (m := Id) (fun x y => x * y) (fun x y => x + y) a b = pair a b := rfl

/-- Where the pairing of the natural numbers is a word, no operation of the pairing of words
    wraps, and the two have the same value. -/
theorem pairWith_exact {a b : UInt64} (h : Nat.pair a.toNat b.toNat < 2 ^ 64) :
    pairWith product? sum? a b = some (pair a b) ∧
      (pair a b).toNat = Nat.pair a.toNat b.toNat := by
  unfold Nat.pair at h ⊢
  unfold pairWith pair
  by_cases hab : a < b
  · have hlt : a.toNat < b.toNat := UInt64.lt_iff_toNat_lt.1 hab
    rw [if_pos hlt] at h ⊢
    rw [if_pos hab, if_pos hab]
    -- The square and the sum are no greater than the outcome.
    obtain ⟨hmul, hsquare⟩ := product?_eq_some (a := b) (b := b) (by omega)
    obtain ⟨hadd, hsum⟩ := sum?_eq_some (a := b * b) (b := a) (by rw [hsquare]; exact h)
    rw [hmul]
    exact ⟨hadd, hsum.trans (by rw [hsquare])⟩
  · have hle : ¬ a.toNat < b.toNat := fun hlt => hab (UInt64.lt_iff_toNat_lt.2 hlt)
    rw [if_neg hle] at h ⊢
    rw [if_neg hab, if_neg hab]
    obtain ⟨hmul, hsquare⟩ := product?_eq_some (a := a) (b := a) (by omega)
    obtain ⟨hadd, hsum⟩ := sum?_eq_some (a := a * a) (b := a) (by rw [hsquare]; omega)
    obtain ⟨hadd', hsum'⟩ :=
      sum?_eq_some (a := a * a + a) (b := b) (by rw [hsum, hsquare]; exact h)
    rw [hmul]
    -- What is left are the two sums.
    show (sum? (a * a) a >>= fun t => sum? t b) = _ ∧ _
    rw [hadd]
    exact ⟨hadd', by rw [hsum', hsum, hsquare]⟩

/-! ## Half words -/

/-- A pairing is below a square exactly if both parts are below its root. -/
theorem pair_lt_sq_iff {a b n : Nat} : Nat.pair a b < n ^ 2 ↔ a < n ∧ b < n := by
  constructor
  · intro h
    have hmax := Nat.max_sq_add_min_le_pair a b
    have hsq : max a b ^ 2 < n ^ 2 := by omega
    have hlt : max a b < n := (Nat.pow_lt_pow_iff_left (by decide : 2 ≠ 0)).1 hsq
    exact ⟨by omega, by omega⟩
  · intro ⟨ha, hb⟩
    calc Nat.pair a b
        < (max a b + 1) ^ 2 := Nat.pair_lt_max_add_one_sq a b
      _ ≤ n ^ 2 := Nat.pow_le_pow_left (by omega) 2

/-- The pairing of half words is a word. -/
theorem pair_lt_word_iff {a b : Nat} : Nat.pair a b < 2 ^ 64 ↔ a < 2 ^ 32 ∧ b < 2 ^ 32 :=
  pair_lt_sq_iff (n := 2 ^ 32)

section HalfWords

variable {a b c d : UInt64}

theorem pairWith_half (ha : a.toNat < 2 ^ 32) (hb : b.toNat < 2 ^ 32) :
    pairWith product? sum? a b = some (pair a b) ∧
      (pair a b).toNat = Nat.pair a.toNat b.toNat :=
  pairWith_exact (pair_lt_word_iff.2 ⟨ha, hb⟩)

/-- No two pairs of half words have the same word. -/
theorem eq_of_pair_eq (ha : a.toNat < 2 ^ 32) (hb : b.toNat < 2 ^ 32) (hc : c.toNat < 2 ^ 32)
    (hd : d.toNat < 2 ^ 32) (h : pair a b = pair c d) : a = c ∧ b = d := by
  have hnat : Nat.pair a.toNat b.toNat = Nat.pair c.toNat d.toNat := by
    rw [← (pairWith_half ha hb).2, ← (pairWith_half hc hd).2, h]
  obtain ⟨hac, hbd⟩ := Nat.pair_eq_pair.1 hnat
  exact ⟨UInt64.toNat_inj.1 hac, UInt64.toNat_inj.1 hbd⟩

/-- Every word is that of a pair of half words. -/
theorem exists_pair_eq (w : UInt64) :
    ∃ a b : UInt64, a.toNat < 2 ^ 32 ∧ b.toNat < 2 ^ 32 ∧ pair a b = w := by
  obtain ⟨i, j, hij⟩ : ∃ i j, Nat.pair i j = w.toNat := ⟨_, _, Nat.pair_unpair w.toNat⟩
  -- The two parts are half words, since their pairing is a word.
  obtain ⟨hi, hj⟩ := pair_lt_word_iff.1 (hij ▸ w.toNat_lt)
  have hi' : (UInt64.ofNat i).toNat = i :=
    UInt64.toNat_ofNat_of_lt' (Nat.lt_trans hi (by decide))
  have hj' : (UInt64.ofNat j).toNat = j :=
    UInt64.toNat_ofNat_of_lt' (Nat.lt_trans hj (by decide))
  have hi₂ : (UInt64.ofNat i).toNat < 2 ^ 32 := by rwa [hi']
  have hj₂ : (UInt64.ofNat j).toNat < 2 ^ 32 := by rwa [hj']
  refine ⟨.ofNat i, .ofNat j, hi₂, hj₂, UInt64.toNat_inj.1 ?_⟩
  rw [(pairWith_half hi₂ hj₂).2, hi', hj', hij]

end HalfWords

/-- **Pairing is exact on half words.** On arguments below `2 ^ 32` no product and no sum in
    the pairing wraps, and its value is the pairing of the natural numbers.  It is a bijection
    between the pairs of such arguments and all words. -/
theorem pair_exact :
    (∀ a b, pairWith (m := Id) (fun x y => x * y) (fun x y => x + y) a b = pair a b) ∧
    (∀ a b : UInt64, a.toNat < 2 ^ 32 → b.toNat < 2 ^ 32 →
      pairWith product? sum? a b = some (pair a b) ∧
        (pair a b).toNat = Nat.pair a.toNat b.toNat) ∧
    Set.BijOn (fun p : UInt64 × UInt64 => pair p.1 p.2)
      {p | p.1.toNat < 2 ^ 32 ∧ p.2.toNat < 2 ^ 32} Set.univ := by
  refine ⟨pairWith_id, fun a b => pairWith_half, fun _ _ => Set.mem_univ _, ?_, ?_⟩
  · intro p hp q hq heq
    obtain ⟨h₁, h₂⟩ := eq_of_pair_eq hp.1 hp.2 hq.1 hq.2 heq
    exact Prod.ext h₁ h₂
  · intro w _
    obtain ⟨a, b, ha, hb, hw⟩ := exists_pair_eq w
    exact ⟨(a, b), ⟨ha, hb⟩, hw⟩

/-- The greatest half words have the greatest word. -/
theorem pair_exact_greatest :
    (4294967295 : UInt64).toNat < 2 ^ 32 ∧
      pairWith product? sum? 4294967295 4294967295 = some (pair 4294967295 4294967295) ∧
      pair 4294967295 4294967295 = 18446744073709551615 := by
  have hlt : (4294967295 : UInt64).toNat < 2 ^ 32 := by decide
  exact ⟨hlt, (pair_exact.2.1 _ _ hlt hlt).1, by decide⟩

end SatMemo
