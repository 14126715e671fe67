import SatMemo.Proofs.Store.Cells

/-! # Chains of an arena

    The invariant `Wf` of an arena is about its links: from the head of a
    bucket they run through the indices of all values that belong to the
    bucket, in increasing order, and then end.  So every index lies on one
    chain, the one of its value's bucket.

    A walk along such a chain stops within its budget, reads no cell but those
    of the chain, and tells where the value stands or which cell is the last
    one (`Wf.seek_of_value`, `Wf.seek_of_forall_ne`).  Linking a new value
    there keeps the invariant (`Wf.pushFirst`, `Wf.pushBehind`). -/

namespace SatMemo

namespace Arena

variable {α : Type}

/-! ## Paths -/

/-- The links lead from an index through a list of indices to the end. -/
inductive Path (a : Arena α) : Nat → List Nat → Prop where
  | done : Path a 0 []
  | step {i : Nat} {c : Cell α} {is : List Nat} (cell : a.cell i = .ok c)
      (rest : Path a c.next is) : Path a i (i :: is)

theorem cell_zero (a : Arena α) : a.cell 0 = .error .zeroIndex := rfl

/-- Only the path from the sentry is empty. -/
theorem Path.eq_zero_iff {a : Arena α} {i : Nat} {is : List Nat} (h : a.Path i is) :
    i = 0 ↔ is = [] := by
  cases h with
  | done => simp
  | step cell rest =>
    have : i ≠ 0 := by
      rintro rfl
      rw [cell_zero] at cell
      cases cell
    simp [this]

/-- A path stays one in an arena with the same cells along it. -/
theorem Path.congr {a b : Arena α} {i : Nat} {is : List Nat} (h : a.Path i is)
    (hcells : ∀ j ∈ is, b.cell j = a.cell j) : b.Path i is := by
  induction h with
  | done => exact .done
  | step cell rest ih =>
    refine .step ((hcells _ List.mem_cons_self).trans cell) (ih fun j hj => ?_)
    exact hcells j (List.mem_cons_of_mem _ hj)

/-- A path grows at its end: the last cell gets a link to a cell without one. -/
theorem Path.concat {a b : Arena α} {i j n : Nat} {is : List Nat} {c : Cell α} {v : α}
    (h : a.Path i is) (hnodup : is.Nodup) (hlast : is.getLast? = some j)
    (hcells : ∀ k ∈ is, k ≠ j → b.cell k = a.cell k) (hj : b.cell j = .ok ⟨c.value, n⟩)
    (hn : b.cell n = .ok ⟨v, 0⟩) : b.Path i (is ++ [n]) := by
  induction h with
  | done => cases hlast
  | @step i d is cell rest ih =>
    obtain ⟨hi, hnodup⟩ := List.nodup_cons.1 hnodup
    by_cases his : is = []
    · subst his
      have hij : i = j := by simpa using hlast
      subst hij
      exact .step hj (.step hn .done)
    · have hlast' : is.getLast? = some j := by
        rw [← hlast, List.getLast?_cons, List.getLast?_eq_some_getLast his]
        rfl
      have hij : i ≠ j := fun he => hi (he ▸ List.mem_of_getLast? hlast')
      refine .step ((hcells i List.mem_cons_self hij).trans cell) ?_
      exact ih hnodup hlast' fun k hk => hcells k (List.mem_cons_of_mem _ hk)

/-! ## Walking along a path -/

section Walks

variable [DecidableEq α] {a : Arena α} {v : α} {i : Nat} {is : List Nat}

/-- A walk stops at the first cell that holds the value. -/
theorem Path.walk_of_value (h : a.Path i is) {j : Nat} (hj : j ∈ is) (hv : a.value j = .ok v)
    (hone : ∀ k, a.value k = .ok v → k = j) {budget : Nat} (hb : is.length ≤ budget) :
    a.walk v budget i = .ok (.held j) := by
  induction h generalizing budget with
  | done => cases hj
  | @step i c is cell rest ih =>
    obtain ⟨budget, rfl⟩ : ∃ n, budget = n + 1 := ⟨budget - 1, by simp at hb; omega⟩
    have hc := value_of_cell cell
    unfold walk
    simp only [cell]
    by_cases hcv : c.value = v
    · rw [if_pos hcv, hone i (hcv ▸ hc)]
    · have hij : j ≠ i := by
        rintro rfl
        exact hcv (Except.ok.inj (hc.symm.trans hv))
      have hj : j ∈ is := List.mem_of_ne_of_mem hij hj
      have hnext : c.next ≠ 0 := fun h0 => List.ne_nil_of_mem hj (rest.eq_zero_iff.1 h0)
      rw [if_neg hcv, if_neg hnext]
      exact ih hj (by simpa using hb)

/-- A walk for a value that is not stored stops at the end. -/
theorem Path.walk_of_forall_ne (h : a.Path i is) {j : Nat} (hlast : is.getLast? = some j)
    (hv : ∀ k, a.value k ≠ .ok v) {budget : Nat} (hb : is.length ≤ budget) :
    a.walk v budget i = .ok (.behind j) := by
  induction h generalizing budget with
  | done => cases hlast
  | @step i c is cell rest ih =>
    obtain ⟨budget, rfl⟩ : ∃ n, budget = n + 1 := ⟨budget - 1, by simp at hb; omega⟩
    have hcv : c.value ≠ v := fun he => hv i (he ▸ value_of_cell cell)
    unfold walk
    simp only [cell]
    rw [if_neg hcv]
    by_cases his : is = []
    · subst his
      rw [if_pos (rest.eq_zero_iff.2 rfl)]
      have hij : i = j := by simpa using hlast
      rw [hij]
    · rw [if_neg (mt rest.eq_zero_iff.1 his)]
      refine ih ?_ (by simpa using hb)
      rw [← hlast, List.getLast?_cons, List.getLast?_eq_some_getLast his]
      rfl

end Walks

/-! ## Members of a bucket -/

theorem bucketCount_pos (a : Arena α) : 0 < a.bucketCount := by
  rw [bucketCount, Nat.one_shiftLeft]
  exact Nat.two_pow_pos _

section Keys

variable [Keyed α]

/-- The indices of the values that belong to a bucket. -/
def members (a : Arena α) (b : Nat) : List Nat :=
  (a.pairs.filter fun p => a.bucket p.2 = b).map Prod.fst

theorem mem_members {a : Arena α} {b i : Nat} :
    i ∈ a.members b ↔ ∃ v, a.value i = .ok v ∧ a.bucket v = b := by
  simp only [members, List.mem_map, List.mem_filter, decide_eq_true_eq]
  constructor
  · rintro ⟨⟨j, v⟩, ⟨hv, hb⟩, rfl⟩
    exact ⟨v, mem_pairs.1 hv, hb⟩
  · rintro ⟨v, hv, hb⟩
    exact ⟨(i, v), ⟨mem_pairs.2 hv, hb⟩, rfl⟩

theorem members_sublist (a : Arena α) (b : Nat) :
    (a.members b).Sublist (List.range' 1 a.size) := by
  rw [← map_fst_pairs]
  exact List.filter_sublist.map _

/-- The members are listed in strictly increasing order. -/
theorem members_pairwise (a : Arena α) (b : Nat) : (a.members b).Pairwise (· < ·) :=
  List.Pairwise.sublist (a.members_sublist b) List.pairwise_lt_range'

theorem nodup_members (a : Arena α) (b : Nat) : (a.members b).Nodup :=
  (a.members_pairwise b).imp Nat.ne_of_lt

theorem length_members_le (a : Arena α) (b : Nat) : (a.members b).length ≤ a.size := by
  simpa using (a.members_sublist b).length_le

theorem le_size_of_mem_members {a : Arena α} {b i : Nat} (h : i ∈ a.members b) :
    1 ≤ i ∧ i ≤ a.size := by
  obtain ⟨v, hv, _⟩ := mem_members.1 h
  exact le_size_of_value hv

theorem bucket_lt (a : Arena α) (v : α) : a.bucket v < a.bucketCount :=
  Nat.mod_lt _ a.bucketCount_pos

theorem bucket_congr {a b : Arena α} (h : b.bucketCount = a.bucketCount) (v : α) :
    b.bucket v = a.bucket v := by
  rw [bucket, bucket, h]

/-- A new value is the last member of its bucket. -/
theorem members_concat {a b : Arena α} {v : α} (hlist : b.toList = a.toList ++ [v])
    (hcount : b.bucketCount = a.bucketCount) (k : Nat) :
    b.members k = if a.bucket v = k then a.members k ++ [a.size + 1] else a.members k := by
  simp only [members, pairs_concat hlist, bucket_congr hcount, List.filter_append,
    List.map_append]
  by_cases hk : a.bucket v = k
  · simp [hk]
  · simp [hk]

end Keys

/-! ## Linking a value -/

theorem toList_pushFirst (a : Arena α) (b : Nat) (v : α) :
    (a.pushFirst b v).toList = a.toList ++ [v] := by
  simp [pushFirst, toList]

theorem head_pushFirst {a : Arena α} {b : Nat} (hb : b < a.bucketCount) (v : α) (k : Nat) :
    (a.pushFirst b v).head k = if b = k then a.size + 1 else a.head k := by
  show ((a.heads.set b (a.size + 1)).get? k).getD 0 = _
  rw [Slots.get?_set a.heads hb]
  split
  · rfl
  · rfl

theorem cell_pushFirst (a : Arena α) (b : Nat) (v : α) {i : Nat} (hi : 1 ≤ i ∧ i ≤ a.size) :
    (a.pushFirst b v).cell i = a.cell i := by
  have hlt : i - 1 < a.cells.size := by unfold size at hi; omega
  have hi0 : i ≠ 0 := by omega
  have hne : i - 1 ≠ a.cells.size := by omega
  simp only [cell, hi0, if_false, pushFirst, Array.getElem?_push, hne]
  rw [Array.getElem?_eq_getElem hlt]

theorem cell_pushFirst_size (a : Arena α) (b : Nat) (v : α) :
    (a.pushFirst b v).cell (a.size + 1) = .ok ⟨v, 0⟩ := by
  refine cell_eq_ok_iff.2 ⟨by omega, ?_⟩
  show (a.cells.push ⟨v, 0⟩)[a.cells.size + 1 - 1]? = _
  simp

theorem toList_pushBehind (a : Arena α) (i : Nat) (v : α) :
    (a.pushBehind i v).toList = a.toList ++ [v] := by
  simp only [pushBehind, toList, Array.toList_push, List.map_append, List.map_cons, List.map_nil]
  congr 1
  -- A link is no part of a value.
  apply List.ext_getElem?
  intro k
  simp only [List.getElem?_map, Array.getElem?_toList, Array.getElem?_modify]
  split
  · cases a.cells[k]? <;> rfl
  · rfl

theorem head_pushBehind (a : Arena α) (i : Nat) (v : α) (k : Nat) :
    (a.pushBehind i v).head k = a.head k := rfl

theorem cells_pushBehind (a : Arena α) (i : Nat) (v : α) :
    (a.pushBehind i v).cells
      = (a.cells.modify (i - 1) fun c => ⟨c.value, a.size + 1⟩).push ⟨v, 0⟩ := rfl

theorem cell_pushBehind (a : Arena α) {i j : Nat} (v : α) (hi : 1 ≤ i) (hij : j ≠ i)
    (hj : 1 ≤ j ∧ j ≤ a.size) : (a.pushBehind i v).cell j = a.cell j := by
  have hlt : j - 1 < a.cells.size := by unfold size at hj; omega
  have hj0 : j ≠ 0 := by omega
  have hne : j - 1 ≠ a.cells.size := by omega
  have hij' : i - 1 ≠ j - 1 := by omega
  simp only [cell, hj0, if_false, cells_pushBehind, Array.getElem?_push, Array.size_modify, hne,
    Array.getElem?_modify, hij']
  rw [Array.getElem?_eq_getElem hlt]

/-- The cell behind which a value is linked. -/
theorem cell_pushBehind_self {a : Arena α} {i : Nat} {c : Cell α} (v : α)
    (hc : a.cell i = .ok c) : (a.pushBehind i v).cell i = .ok ⟨c.value, a.size + 1⟩ := by
  obtain ⟨hi, hc⟩ := cell_eq_ok_iff.1 hc
  have hlt := (Array.getElem?_eq_some_iff.1 hc).1
  have hne : i - 1 ≠ a.cells.size := by omega
  refine cell_eq_ok_iff.2 ⟨hi, ?_⟩
  rw [cells_pushBehind, Array.getElem?_push, Array.size_modify, if_neg hne,
    Array.getElem?_modify, if_pos rfl, hc]
  rfl

theorem cell_pushBehind_size (a : Arena α) (i : Nat) (v : α) :
    (a.pushBehind i v).cell (a.size + 1) = .ok ⟨v, 0⟩ := by
  refine cell_eq_ok_iff.2 ⟨by omega, ?_⟩
  rw [cells_pushBehind, Array.getElem?_push, Array.size_modify, if_pos]
  exact Nat.add_sub_cancel ..

/-! ## The invariant -/

section Invariant

variable [Keyed α]

/-- Chains run through the members of their buckets, and no value is stored twice. -/
structure Wf (a : Arena α) : Prop where
  /-- From the head of a bucket the links lead through its members and end. -/
  chains   : ∀ b, a.Path (a.head b) (a.members b)
  distinct : ∀ {i j v}, a.value i = .ok v → a.value j = .ok v → i = j

theorem wf_empty (bits : Nat) : (empty bits : Arena α).Wf where
  chains := by
    intro b
    have hhead : (empty bits : Arena α).head b = 0 := by simp [head, empty]
    rw [hhead]
    exact .done
  distinct := fun hv _ => absurd hv (value_empty_ne bits _ _)

/-- With one more value that is new, no value is stored twice. -/
theorem Wf.distinct_concat {a b : Arena α} (h : a.Wf) {v : α} (hv : ∀ i, a.value i ≠ .ok v)
    (hlist : b.toList = a.toList ++ [v]) {i j : Nat} {w : α} (hi : b.value i = .ok w)
    (hj : b.value j = .ok w) : i = j := by
  rcases value_concat hlist hi with hi | ⟨hi, hwi⟩
  · rcases value_concat hlist hj with hj | ⟨_, hwj⟩
    · exact h.distinct hi hj
    · exact absurd (hwj ▸ hi) (hv i)
  · rcases value_concat hlist hj with hj | ⟨hj, _⟩
    · exact absurd (hwi ▸ hj) (hv j)
    · rw [hi, hj]

/-- A new value may be put first in a bucket that has no members. -/
theorem Wf.pushFirst {a : Arena α} (h : a.Wf) {v : α} (hv : ∀ i, a.value i ≠ .ok v)
    (hnil : a.members (a.bucket v) = []) : (a.pushFirst (a.bucket v) v).Wf where
  chains := by
    intro k
    rw [head_pushFirst (a.bucket_lt v), members_concat (toList_pushFirst a _ v) rfl]
    by_cases hk : a.bucket v = k
    · rw [if_pos hk, if_pos hk, ← hk, hnil]
      exact .step (cell_pushFirst_size a _ v) .done
    · rw [if_neg hk, if_neg hk]
      exact (h.chains k).congr fun j hj => cell_pushFirst a _ v (le_size_of_mem_members hj)
  distinct := h.distinct_concat hv (toList_pushFirst a _ v)

/-- A new value may be linked behind the last member of its bucket. -/
theorem Wf.pushBehind {a : Arena α} (h : a.Wf) {v : α} (hv : ∀ i, a.value i ≠ .ok v) {j : Nat}
    (hlast : (a.members (a.bucket v)).getLast? = some j) : (a.pushBehind j v).Wf where
  chains := by
    have hj := List.mem_of_getLast? hlast
    obtain ⟨w, hw, hbucket⟩ := mem_members.1 hj
    obtain ⟨next, hc⟩ := cell_of_value hw
    have hpos := (le_size_of_mem_members hj).1
    intro k
    rw [head_pushBehind, members_concat (toList_pushBehind a _ v) rfl]
    by_cases hk : a.bucket v = k
    · subst hk
      rw [if_pos rfl]
      refine (h.chains _).concat (a.nodup_members _) hlast (fun i hi hij => ?_)
        (cell_pushBehind_self v hc) (cell_pushBehind_size a j v)
      exact cell_pushBehind a v hpos hij (le_size_of_mem_members hi)
    · rw [if_neg hk]
      refine (h.chains k).congr fun i hi => ?_
      -- The cell that got the link belongs to another bucket.
      have hij : i ≠ j := by
        rintro rfl
        obtain ⟨w', hw', hk'⟩ := mem_members.1 hi
        rw [hw] at hw'
        cases hw'
        exact hk (hbucket.symm.trans hk')
      exact cell_pushBehind a v hpos hij (le_size_of_mem_members hi)
  distinct := h.distinct_concat hv (toList_pushBehind a _ v)

/-! ## Seeking a value -/

variable [DecidableEq α]

theorem Wf.seek_of_value {a : Arena α} (h : a.Wf) {v : α} {i : Nat} (hv : a.value i = .ok v) :
    a.seek v = .ok (.held i) := by
  have hmem : i ∈ a.members (a.bucket v) := mem_members.2 ⟨v, hv, rfl⟩
  have hpath := h.chains (a.bucket v)
  have hhead : a.head (a.bucket v) ≠ 0 := fun h0 =>
    List.ne_nil_of_mem hmem (hpath.eq_zero_iff.1 h0)
  unfold seek
  rw [if_neg hhead]
  exact hpath.walk_of_value hmem hv (fun k hk => h.distinct hk hv)
    (Nat.le_succ_of_le (a.length_members_le _))

/-- The spot of a value that is not stored is the end of the chain of its bucket. -/
theorem Wf.seek_of_forall_ne {a : Arena α} (h : a.Wf) {v : α} (hv : ∀ i, a.value i ≠ .ok v) :
    a.members (a.bucket v) = [] ∧ a.seek v = .ok .first ∨
    ∃ j, (a.members (a.bucket v)).getLast? = some j ∧ a.seek v = .ok (.behind j) := by
  have hpath := h.chains (a.bucket v)
  unfold seek
  cases hlast : (a.members (a.bucket v)).getLast? with
  | none =>
    have hnil := List.getLast?_eq_none_iff.1 hlast
    exact .inl ⟨hnil, if_pos (hpath.eq_zero_iff.2 hnil)⟩
  | some j =>
    have hhead : a.head (a.bucket v) ≠ 0 := fun h0 =>
      List.ne_nil_of_mem (List.mem_of_getLast? hlast) (hpath.eq_zero_iff.1 h0)
    rw [if_neg hhead]
    exact .inr ⟨j, rfl, hpath.walk_of_forall_ne hlast hv
      (Nat.le_succ_of_le (a.length_members_le _))⟩

end Invariant

end Arena

end SatMemo
