/-! # Rows of slots

    A row has `2 ^ bits` slots, all empty at first.  It is cut into pages of
    equal size, and only the pages that were written to take up room.  Reading a
    slot gives what was written to it last (`get?_empty`, `get?_set`). -/

namespace SatMemo

/-- Binary logarithm of the number of slots of a page of a row of `2 ^ bits`. -/
def Slots.pageBits (bits : Nat) : Nat :=
  min (bits / 2) 10

/-- Number of slots of a page of a row of `2 ^ bits`. -/
def Slots.pageSize (bits : Nat) : Nat :=
  1 <<< pageBits bits

/-- A row of slots for values. -/
structure Slots (α : Type) where
  bits   : Nat
  pages  : Array (Array (Option α))
  /-- There is a place for every page. -/
  count  : pages.size = 1 <<< (bits - Slots.pageBits bits)
  /-- A page that was written to has all its slots. -/
  filled : ∀ p ∈ pages, p = #[] ∨ p.size = Slots.pageSize bits

namespace Slots

variable {α : Type}

/-- A row of `2 ^ bits` empty slots. -/
def empty (bits : Nat) : Slots α where
  bits   := bits
  pages  := Array.replicate (1 <<< (bits - pageBits bits)) #[]
  count  := by simp
  filled := by
    intro p hp
    exact .inl (Array.eq_of_mem_replicate hp)

/-- What a slot holds. -/
def get? (s : Slots α) (i : Nat) : Option α :=
  (s.pages.getD (i / pageSize s.bits) #[]).getD (i % pageSize s.bits) none

/-- Write to a slot of a page. -/
def setIn (bits i : Nat) (v : α) (page : Array (Option α)) : Array (Option α) :=
  (if page.isEmpty then Array.replicate (pageSize bits) none else page).setIfInBounds
    (i % pageSize bits) (some v)

/-- Put a value in a slot, in place of what it held. -/
def set (s : Slots α) (i : Nat) (v : α) : Slots α :=
  match s with
  | ⟨bits, pages, count, filled⟩ =>
      { bits   := bits
        pages  := pages.modify (i / pageSize bits) (setIn bits i v)
        count  := by simpa using count
        filled := by
          intro p hp
          obtain ⟨k, hk, rfl⟩ := Array.mem_iff_getElem.1 hp
          have hk' : k < pages.size := by simpa using hk
          have := filled pages[k] (Array.getElem_mem hk')
          rw [Array.getElem_modify]
          split
          · right
            unfold setIn
            rcases this with h | h
            · simp [h]
            · split <;> simp [h]
          · exact this }

@[simp] theorem get?_empty (bits i : Nat) : (empty bits : Slots α).get? i = none := by
  unfold get? empty
  simp only [Array.getD_eq_getD_getElem?, Array.getElem?_replicate]
  split <;> simp

theorem pageSize_pos (bits : Nat) : 0 < pageSize bits := by
  simp only [pageSize, Nat.one_shiftLeft]
  exact Nat.two_pow_pos _

/-- A slot of the row belongs to one of its pages. -/
theorem div_lt_count {s : Slots α} {i : Nat} (h : i < 1 <<< s.bits) :
    i / pageSize s.bits < s.pages.size := by
  rw [s.count, pageSize]
  simp only [Nat.one_shiftLeft] at h ⊢
  apply Nat.div_lt_of_lt_mul
  rw [← Nat.pow_add]
  have : pageBits s.bits + (s.bits - pageBits s.bits) = s.bits := by
    unfold pageBits
    omega
  rwa [this]

/-- Writing to a page changes one of its slots. -/
theorem getD_setIn {bits : Nat} {page : Array (Option α)}
    (h : page = #[] ∨ page.size = pageSize bits) (i k : Nat) (v : α) :
    (setIn bits i v page).getD k none
      = if i % pageSize bits = k then some v else page.getD k none := by
  have hi := Nat.mod_lt i (pageSize_pos bits)
  unfold setIn
  simp only [Array.getD_eq_getD_getElem?, Array.getElem?_setIfInBounds]
  rcases h with rfl | h
  · by_cases hk : i % pageSize bits = k
    · simp [hk ▸ hi, hk]
    · simp only [hk, if_false, Array.isEmpty_empty, if_true, Array.getElem?_replicate]
      split <;> simp
  · have hne : page.isEmpty = false := by
      have := pageSize_pos bits
      simp only [Array.isEmpty, h, decide_eq_false_iff_not]
      omega
    by_cases hk : i % pageSize bits = k
    · simp [hne, h, hk ▸ hi, hk]
    · simp [hne, hk]

/-- The slot written to holds the value, and every other one what it held before. -/
theorem get?_set (s : Slots α) {i : Nat} (h : i < 1 <<< s.bits) (j : Nat) (v : α) :
    (s.set i v).get? j = if i = j then some v else s.get? j := by
  have hc := div_lt_count h
  have hd (n : Nat) := Nat.div_add_mod n (pageSize s.bits)
  show ((s.pages.modify (i / pageSize s.bits) (setIn s.bits i v)).getD
    (j / pageSize s.bits) #[]).getD (j % pageSize s.bits) none = _
  by_cases hp : i / pageSize s.bits = j / pageSize s.bits
  · have hj : j / pageSize s.bits < s.pages.size := hp ▸ hc
    have hpage : (s.pages.modify (i / pageSize s.bits) (setIn s.bits i v)).getD
        (j / pageSize s.bits) #[] = setIn s.bits i v s.pages[j / pageSize s.bits] := by
      simp [Array.getD_eq_getD_getElem?, hp, hj, Array.getElem_modify]
    rw [hpage, getD_setIn (s.filled _ (Array.getElem_mem hj))]
    by_cases hij : i = j
    · simp [hij]
    · have : i % pageSize s.bits ≠ j % pageSize s.bits := by
        intro hm
        exact hij (by rw [← hd i, ← hd j, hp, hm])
      simp [hij, this, get?, hj]
  · have hij : i ≠ j := fun hij => hp (hij ▸ rfl)
    simp [Array.getD_eq_getD_getElem?, Array.getElem?_modify, hp, hij, get?]

end Slots

end SatMemo
