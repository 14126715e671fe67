import SatMemo.Proofs.Store.Chains

/-! # Arenas number values once

    Insertion either finds a value where it stands or puts it at the end of the
    list of values, so that an index once given keeps its value, whatever the
    number of buckets and the key function are (`Wf.insert_cases`).  Neither a
    search nor an insertion faults (`Wf.find_eq`, `Wf.put_eq`). -/

namespace SatMemo

namespace Arena

variable {α : Type} [Keyed α] [DecidableEq α]

/-! ## Finding -/

/-- A search does not fault. -/
theorem Wf.find_eq {a : Arena α} (h : a.Wf) (v : α) : a.find v = .ok (a.find? v) := by
  have hs : ∃ spot, a.seek v = .ok spot := by
    by_cases hv : ∃ i, a.value i = .ok v
    · obtain ⟨i, hi⟩ := hv
      exact ⟨_, h.seek_of_value hi⟩
    · rcases h.seek_of_forall_ne (not_exists.1 hv) with ⟨_, hs⟩ | ⟨_, _, hs⟩
      · exact ⟨_, hs⟩
      · exact ⟨_, hs⟩
  obtain ⟨spot, hs⟩ := hs
  simp [find?, find, hs, Except.map]

theorem Wf.find?_of_value {a : Arena α} (h : a.Wf) {v : α} {i : Nat} (hv : a.value i = .ok v) :
    a.find? v = some i := by
  simp [find?, find, h.seek_of_value hv, Except.map, Spot.index?]

theorem Wf.find?_eq_none_iff {a : Arena α} (h : a.Wf) {v : α} :
    a.find? v = none ↔ ∀ i, a.value i ≠ .ok v := by
  constructor
  · intro hf i hv
    rw [h.find?_of_value hv] at hf
    cases hf
  · intro hv
    rcases h.seek_of_forall_ne hv with ⟨_, hs⟩ | ⟨_, _, hs⟩
    · simp [find?, find, hs, Except.map, Spot.index?]
    · simp [find?, find, hs, Except.map, Spot.index?]

/-- A value is found exactly at the index it has. -/
theorem Wf.find?_eq_some_iff {a : Arena α} (h : a.Wf) {v : α} {i : Nat} :
    a.find? v = some i ↔ a.value i = .ok v := by
  refine ⟨fun hf => ?_, h.find?_of_value⟩
  by_cases hv : ∃ j, a.value j = .ok v
  · obtain ⟨j, hj⟩ := hv
    rw [h.find?_of_value hj] at hf
    rwa [← Option.some.inj hf]
  · rw [h.find?_eq_none_iff.2 (not_exists.1 hv)] at hf
    cases hf

/-! ## Inserting -/

/-- A value that is stored at `i` is found there, and nothing changes. -/
theorem Wf.insert_of_value {a : Arena α} (h : a.Wf) {v : α} {i : Nat} (hv : a.value i = .ok v) :
    a.insert v = ⟨i, false, a⟩ := by
  simp only [insert, h.seek_of_value hv, place]

/-- A value that is not stored gets the next index. -/
theorem Wf.insert_of_forall_ne {a : Arena α} (h : a.Wf) {v : α} (hv : ∀ i, a.value i ≠ .ok v) :
    ∃ b, a.insert v = ⟨a.size + 1, true, b⟩ ∧ b.toList = a.toList ++ [v] ∧ b.Wf := by
  rcases h.seek_of_forall_ne hv with ⟨hnil, hs⟩ | ⟨j, hlast, hs⟩
  · refine ⟨_, ?_, toList_pushFirst a (a.bucket v) v, h.pushFirst hv hnil⟩
    simp only [insert, hs, place]
  · refine ⟨_, ?_, toList_pushBehind a j v, h.pushBehind hv hlast⟩
    simp only [insert, hs, place]

/-- The two outcomes of an insertion. -/
theorem Wf.insert_cases {a : Arena α} (h : a.Wf) (v : α) :
    (∃ i, a.value i = .ok v ∧ a.insert v = ⟨i, false, a⟩) ∨
    ((∀ i, a.value i ≠ .ok v) ∧
      ∃ b, a.insert v = ⟨a.size + 1, true, b⟩ ∧ b.toList = a.toList ++ [v] ∧ b.Wf) := by
  by_cases hv : ∃ i, a.value i = .ok v
  · obtain ⟨i, hi⟩ := hv
    exact .inl ⟨i, hi, h.insert_of_value hi⟩
  · exact .inr ⟨not_exists.1 hv, h.insert_of_forall_ne (not_exists.1 hv)⟩

/-- An insertion does not fault. -/
theorem Wf.put_eq {a : Arena α} (h : a.Wf) (v : α) : a.put v = .ok (a.insert v) := by
  have hf := h.find_eq v
  unfold find at hf
  unfold put insert
  cases hs : a.seek v with
  | error e => rw [hs] at hf; cases hf
  | ok spot => rfl

theorem Wf.insert {a : Arena α} (h : a.Wf) (v : α) : (a.insert v).arena.Wf := by
  rcases h.insert_cases v with ⟨i, _, he⟩ | ⟨_, b, he, _, hb⟩
  · rw [he]; exact h
  · rw [he]; exact hb

/-- The index that an insertion returns has the inserted value. -/
theorem Wf.value_insert {a : Arena α} (h : a.Wf) (v : α) :
    (a.insert v).arena.value (a.insert v).index = .ok v := by
  rcases h.insert_cases v with ⟨i, hi, he⟩ | ⟨_, b, he, hb, _⟩
  · rw [he]; exact hi
  · rw [he]; exact value_last hb

/-- An index keeps its value. -/
theorem Wf.value_insert_of_value {a : Arena α} (h : a.Wf) (v : α) {i : Nat} {w : α}
    (hw : a.value i = .ok w) : (a.insert v).arena.value i = .ok w := by
  rcases h.insert_cases v with ⟨j, _, he⟩ | ⟨_, b, he, hb, _⟩
  · rw [he]; exact hw
  · rw [he]; exact value_of_toList_append hb hw

/-- No index but the returned one gets a value. -/
theorem Wf.value_of_value_insert {a : Arena α} (h : a.Wf) (v : α) {i : Nat} {w : α}
    (hw : (a.insert v).arena.value i = .ok w) :
    a.value i = .ok w ∨ i = (a.insert v).index ∧ w = v := by
  rcases h.insert_cases v with ⟨j, _, he⟩ | ⟨_, b, he, hb, _⟩
  · rw [he] at hw ⊢; exact .inl hw
  · rw [he] at hw ⊢; exact value_concat hb hw

end Arena

end SatMemo
