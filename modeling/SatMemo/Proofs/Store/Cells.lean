import SatMemo.Store.Arena

/-! # What an arena holds

    An arena is read as the list of its values, `toList`, in which the value of
    index `i` stands at position `i - 1`, or as the list of its `pairs`.  A
    store that has one more value at the end of that list keeps the value of
    every index. -/

namespace SatMemo

namespace Arena

variable {α : Type}

/-! ## The value of an index -/

/-- The value of an index, read off the list of values. -/
theorem value_eq_ok_iff {a : Arena α} {i : Nat} {v : α} :
    a.value i = .ok v ↔ i ≠ 0 ∧ a.toList[i - 1]? = some v := by
  unfold value cell toList
  by_cases hi : i = 0
  · simp [hi, Except.map]
  · simp only [hi, if_false, ne_eq, not_false_eq_true, true_and, List.getElem?_map,
      Array.getElem?_toList]
    cases a.cells[i - 1]? with
    | none => simp [Except.map]
    | some c => simp [Except.map]

theorem length_toList (a : Arena α) : a.toList.length = a.size := by
  simp [toList, size]

/-- The indices that have a value are those from 1 up to the size. -/
theorem exists_value_iff {a : Arena α} {i : Nat} :
    (∃ v, a.value i = .ok v) ↔ 1 ≤ i ∧ i ≤ a.size := by
  constructor
  · rintro ⟨v, hv⟩
    obtain ⟨hi, hv⟩ := value_eq_ok_iff.1 hv
    have := (List.getElem?_eq_some_iff.1 hv).1
    rw [length_toList] at this
    omega
  · rintro ⟨h₁, h₂⟩
    have hlt : i - 1 < a.toList.length := by rw [length_toList]; omega
    exact ⟨a.toList[i - 1], value_eq_ok_iff.2 ⟨by omega, List.getElem?_eq_getElem hlt⟩⟩

theorem contains_iff {a : Arena α} {i : Nat} :
    a.contains i = true ↔ ∃ v, a.value i = .ok v := by
  rw [exists_value_iff]
  simp [contains]

theorem le_size_of_value {a : Arena α} {i : Nat} {v : α} (h : a.value i = .ok v) :
    1 ≤ i ∧ i ≤ a.size :=
  exists_value_iff.1 ⟨v, h⟩

/-- An empty arena has no values. -/
theorem value_empty_ne (bits i : Nat) (v : α) : (empty bits : Arena α).value i ≠ .ok v := by
  intro hv
  have hle := le_size_of_value hv
  exact absurd (Nat.le_trans hle.1 hle.2) (Nat.not_succ_le_zero 0)

/-- Arenas with the same values answer alike about an index below their size. -/
theorem value_of_toList_append {a b : Arena α} {vs : List α} (h : b.toList = a.toList ++ vs)
    {i : Nat} {v : α} (hv : a.value i = .ok v) : b.value i = .ok v := by
  obtain ⟨hi, hv⟩ := value_eq_ok_iff.1 hv
  refine value_eq_ok_iff.2 ⟨hi, ?_⟩
  have hlt := (List.getElem?_eq_some_iff.1 hv).1
  rw [h, List.getElem?_append_left hlt, hv]

theorem value_last {a b : Arena α} {v : α} (h : b.toList = a.toList ++ [v]) :
    b.value (a.size + 1) = .ok v := by
  refine value_eq_ok_iff.2 ⟨by omega, ?_⟩
  rw [h, Nat.add_sub_cancel, ← length_toList, List.getElem?_concat_length]

/-- What an arena with one more value says about an index. -/
theorem value_concat {a b : Arena α} {v w : α} (h : b.toList = a.toList ++ [v]) {i : Nat}
    (hw : b.value i = .ok w) : a.value i = .ok w ∨ i = a.size + 1 ∧ w = v := by
  obtain ⟨hi, hw'⟩ := value_eq_ok_iff.1 hw
  have hlt := (List.getElem?_eq_some_iff.1 hw').1
  rw [h, List.length_append, List.length_singleton, length_toList] at hlt
  by_cases hlast : i = a.size + 1
  · right
    subst hlast
    rw [value_last h] at hw
    exact ⟨rfl, (Except.ok.inj hw).symm⟩
  · left
    refine value_eq_ok_iff.2 ⟨hi, ?_⟩
    rw [h, List.getElem?_append_left (by rw [length_toList]; omega)] at hw'
    exact hw'

/-! ## Cells -/

theorem cell_eq_ok_iff {a : Arena α} {i : Nat} {c : Cell α} :
    a.cell i = .ok c ↔ i ≠ 0 ∧ a.cells[i - 1]? = some c := by
  unfold cell
  by_cases hi : i = 0
  · simp [hi]
  · cases a.cells[i - 1]? with
    | none => simp [hi]
    | some d => simp [hi]

theorem value_of_cell {a : Arena α} {i : Nat} {c : Cell α} (h : a.cell i = .ok c) :
    a.value i = .ok c.value := by
  rw [value, h]
  rfl

/-- Every value stands in a cell. -/
theorem cell_of_value {a : Arena α} {i : Nat} {v : α} (h : a.value i = .ok v) :
    ∃ next, a.cell i = .ok ⟨v, next⟩ := by
  unfold value at h
  cases hc : a.cell i with
  | error e => rw [hc] at h; cases h
  | ok c =>
    rw [hc] at h
    cases h
    exact ⟨c.next, rfl⟩

/-! ## Pairs -/

theorem mem_pairs {a : Arena α} {i : Nat} {v : α} :
    (i, v) ∈ a.pairs ↔ a.value i = .ok v := by
  rw [value_eq_ok_iff, pairs, List.mem_map]
  constructor
  · rintro ⟨⟨w, j⟩, hw, he⟩
    cases he
    obtain ⟨hle, hw⟩ := List.mk_mem_zipIdx_iff_le_and_getElem?_sub.1 hw
    exact ⟨by omega, hw⟩
  · rintro ⟨hi, hv⟩
    exact ⟨(v, i), List.mk_mem_zipIdx_iff_le_and_getElem?_sub.2 ⟨by omega, hv⟩, rfl⟩

/-- The pairs stand in the order of their indices. -/
theorem map_fst_pairs (a : Arena α) : a.pairs.map Prod.fst = List.range' 1 a.size := by
  rw [pairs, List.map_map, ← length_toList, ← List.zipIdx_map_snd]
  rfl

theorem pairs_concat {a b : Arena α} {v : α} (h : b.toList = a.toList ++ [v]) :
    b.pairs = a.pairs ++ [(a.size + 1, v)] := by
  rw [pairs, pairs, h, List.zipIdx_append, List.map_append, length_toList, Nat.add_comm 1]
  rfl

end Arena

end SatMemo
