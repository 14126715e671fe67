import SatMemo.Store.Memo

/-! # What a memo table remembers

    A lookup sees the last insertion into its slot and nothing else: an
    insertion under the same key replaces the answer, one under another key of
    the same slot removes it, and the counts play no part. -/

namespace SatMemo

namespace Memo

variable {κ ν : Type} [Keyed κ]

theorem slot_lt (t : Memo κ ν) (k : κ) : t.slot k < 1 <<< t.slots.bits := by
  unfold slot
  apply Nat.mod_lt
  rw [Nat.one_shiftLeft]
  exact Nat.two_pow_pos _

/-- An insertion writes to the slot of its key. -/
theorem slots_insert (t : Memo κ ν) (k : κ) (v : ν) :
    (t.insert k v).slots = t.slots.set (t.slot k) (k, v) := by
  cases t
  rfl

variable [DecidableEq κ]

@[simp] theorem peek?_empty (bits : Nat) (k : κ) : (empty bits : Memo κ ν).peek? k = none := by
  simp [peek?, empty]

@[simp] theorem peek?_clear (t : Memo κ ν) (k : κ) : t.clear.peek? k = none := by
  simp [peek?, clear]

/-- An insertion is seen under its own key and hides what else was in its slot. -/
theorem peek?_insert (t : Memo κ ν) (k k' : κ) (v : ν) :
    (t.insert k v).peek? k'
      = if k = k' then some v else if t.slot k = t.slot k' then none else t.peek? k' := by
  have hslot : (t.insert k v).slot k' = t.slot k' := by cases t; rfl
  unfold peek?
  rw [hslot, slots_insert, Slots.get?_set t.slots (t.slot_lt k)]
  by_cases hk : k = k'
  · subst hk
    simp
  · by_cases hs : t.slot k = t.slot k' <;> simp [hk, hs]

/-- An answer found after an insertion is the inserted one or was there before. -/
theorem peek?_of_peek?_insert {t : Memo κ ν} {k k' : κ} {v w : ν}
    (h : (t.insert k v).peek? k' = some w) : k = k' ∧ v = w ∨ t.peek? k' = some w := by
  rw [peek?_insert] at h
  split at h
  · exact .inl ⟨‹_›, Option.some.inj h⟩
  · split at h
    · cases h
    · exact .inr h

/-- A counted lookup answers like an uncounted one. -/
theorem fst_get (t : Memo κ ν) (k : κ) : (t.get k).1 = t.peek? k := by
  unfold get
  split
  · exact Eq.symm ‹_›
  · exact Eq.symm ‹_›

/-- Counting a lookup changes no answer. -/
theorem peek?_snd_get (t : Memo κ ν) (k k' : κ) : (t.get k).2.peek? k' = t.peek? k' := by
  unfold get
  split
  · rfl
  · rfl

end Memo

end SatMemo
