import Mathlib.Data.List.Basic
import SatMemo.Proofs.Store.Arena

/-! # Arenas are ordered sets

    A script of requests to a new arena is answered as by a list that takes up
    each value when it is first put: the numbers are the places in that list,
    counted from 1.  The list and its answers (`OrderedSet`) know neither
    buckets nor keys, so no number depends on them.

    One request keeps an arena in step with its list (`Numbers.perform`), and
    by induction so does a script (`Numbers.play`). -/

namespace SatMemo

namespace OrderedSet

variable {α : Type}

/-! ## Requests and answers -/

/-- A request to a store of numbered values. -/
inductive Request (α : Type) where
  | put (v : α)
  | find (v : α)

inductive Answer where
  | put (index : Nat) (fresh : Bool)
  | find (index : Option Nat)
deriving Repr, DecidableEq

/-- The values that a script puts, in order and with repetitions. -/
def puts (rs : List (Request α)) : List α :=
  rs.filterMap fun
    | .put v  => some v
    | .find _ => none

variable [DecidableEq α]

/-- The distinct values that a script puts, in the order of their first put. -/
def stored (rs : List (Request α)) : List α :=
  (puts rs).eraseDups

/-- The list after a request. -/
def after (l : List α) : Request α → List α
  | .put v  => if v ∈ l then l else l ++ [v]
  | .find _ => l

/-- The answer to a request, read off the list. -/
def answer (l : List α) : Request α → Answer
  | .put v  => if v ∈ l then .put (l.idxOf v + 1) false else .put (l.length + 1) true
  | .find v => .find (if v ∈ l then some (l.idxOf v + 1) else none)

/-- The answers to a script that starts from the list `l`. -/
def answers (l : List α) : List (Request α) → List Answer
  | []      => []
  | r :: rs => answer l r :: answers (after l r) rs

omit [DecidableEq α] in
theorem puts_cons (r : Request α) (rs : List (Request α)) :
    puts (r :: rs) = puts [r] ++ puts rs := by
  rw [← List.singleton_append, puts, List.filterMap_append]
  rfl

theorem eraseDups_concat (vs : List α) (v : α) :
    (vs ++ [v]).eraseDups = if v ∈ vs.eraseDups then vs.eraseDups else vs.eraseDups ++ [v] := by
  rw [List.eraseDups_append, List.removeAll]
  by_cases hv : v ∈ vs
  · simp [hv]
  · simp [hv, List.eraseDups_cons]

/-- The list takes up the distinct values in the order of their first put. -/
theorem foldl_after (vs : List α) (rs : List (Request α)) :
    rs.foldl after vs.eraseDups = (vs ++ puts rs).eraseDups := by
  induction rs generalizing vs with
  | nil => simp [puts]
  | cons r rs ih =>
    rw [List.foldl_cons, puts_cons, ← List.append_assoc]
    cases r with
    | put v =>
      have hstep : after vs.eraseDups (.put v) = (vs ++ puts [.put v]).eraseDups :=
        (eraseDups_concat vs v).symm
      rw [hstep, ih]
    | find v =>
      have hstep : after vs.eraseDups (.find v) = (vs ++ puts [.find v]).eraseDups := by
        simp [after, puts]
      rw [hstep, ih]

theorem foldl_after_nil (rs : List (Request α)) : rs.foldl after [] = stored rs :=
  foldl_after [] rs

end OrderedSet

namespace Arena

open OrderedSet

variable {α : Type} [Keyed α] [DecidableEq α]

/-! ## Scripts -/

/-- Carry out a request. -/
def perform (a : Arena α) : Request α → Except Fault (Answer × Arena α)
  | .put v  => (a.put v).map fun r => (.put r.index r.fresh, r.arena)
  | .find v => (a.find v).map fun i => (.find i, a)

/-- Carry out a script. -/
def play (a : Arena α) : List (Request α) → Except Fault (List Answer × Arena α)
  | []      => .ok ([], a)
  | r :: rs =>
      match a.perform r with
      | .error e     => .error e
      | .ok (x, a') => (a'.play rs).map fun (xs, b) => (x :: xs, b)

/-- The arena holds the values of the list, in that order, and its chains are in order. -/
structure Numbers (a : Arena α) (l : List α) : Prop where
  wf   : a.Wf
  list : a.toList = l

omit [DecidableEq α] in
theorem numbers_empty (bits : Nat) : (empty bits : Arena α).Numbers [] :=
  ⟨wf_empty bits, rfl⟩

section Places

variable {a : Arena α} {l : List α} {v : α}

omit [DecidableEq α] in
theorem Numbers.size_eq (h : a.Numbers l) : a.size = l.length := by
  rw [← h.list, length_toList]

omit [DecidableEq α] in
theorem Numbers.value_iff (h : a.Numbers l) {i : Nat} :
    a.value i = .ok v ↔ i ≠ 0 ∧ l[i - 1]? = some v := by
  rw [value_eq_ok_iff, h.list]

theorem Numbers.value_idxOf (h : a.Numbers l) (hv : v ∈ l) :
    a.value (l.idxOf v + 1) = .ok v :=
  h.value_iff.2 ⟨by omega, List.getElem?_idxOf hv⟩

omit [DecidableEq α] in
theorem Numbers.value_ne (h : a.Numbers l) (hv : v ∉ l) (i : Nat) : a.value i ≠ .ok v :=
  fun hi => hv (List.mem_of_getElem? (h.value_iff.1 hi).2)

/-- A value that is not in the list is stored at its end. -/
theorem Numbers.put_of_not_mem (h : a.Numbers l) (hv : v ∉ l) :
    ∃ b, a.put v = .ok ⟨l.length + 1, true, b⟩ ∧ b.Numbers (l ++ [v]) := by
  obtain ⟨b, hb, hlist, hwf⟩ := h.wf.insert_of_forall_ne (h.value_ne hv)
  exact ⟨b, by rw [h.wf.put_eq, hb, h.size_eq], hwf, by rw [hlist, h.list]⟩

theorem Numbers.put_of_mem (h : a.Numbers l) (hv : v ∈ l) :
    a.put v = .ok ⟨l.idxOf v + 1, false, a⟩ := by
  rw [h.wf.put_eq, h.wf.insert_of_value (h.value_idxOf hv)]

theorem Numbers.find_eq (h : a.Numbers l) (v : α) :
    a.find v = .ok (if v ∈ l then some (l.idxOf v + 1) else none) := by
  rw [h.wf.find_eq]
  by_cases hv : v ∈ l
  · rw [if_pos hv, h.wf.find?_of_value (h.value_idxOf hv)]
  · rw [if_neg hv, h.wf.find?_eq_none_iff.2 (h.value_ne hv)]

theorem Numbers.find_iff (h : a.Numbers l) {i : Nat} :
    a.find v = .ok (some i) ↔ i ≠ 0 ∧ l[i - 1]? = some v := by
  rw [h.wf.find_eq, Except.ok.injEq, h.wf.find?_eq_some_iff, h.value_iff]

end Places

/-- A request is answered as by the list. -/
theorem Numbers.perform {a : Arena α} {l : List α} (h : a.Numbers l) (r : Request α) :
    ∃ b, a.perform r = .ok (answer l r, b) ∧ b.Numbers (after l r) := by
  cases r with
  | put v =>
    simp only [Arena.perform, answer, after]
    by_cases hv : v ∈ l
    · refine ⟨a, ?_, ?_⟩
      · rw [h.put_of_mem hv, if_pos hv]
        rfl
      · rwa [if_pos hv]
    · obtain ⟨b, hb, hnum⟩ := h.put_of_not_mem hv
      refine ⟨b, ?_, ?_⟩
      · rw [hb, if_neg hv]
        rfl
      · rwa [if_neg hv]
  | find v =>
    refine ⟨a, ?_, h⟩
    rw [Arena.perform, h.find_eq]
    rfl

/-- A script is answered as by the list. -/
theorem Numbers.play {a : Arena α} {l : List α} (h : a.Numbers l) (rs : List (Request α)) :
    ∃ b, a.play rs = .ok (answers l rs, b) ∧ b.Numbers (rs.foldl after l) := by
  induction rs generalizing a l with
  | nil => exact ⟨a, rfl, h⟩
  | cons r rs ih =>
    obtain ⟨b, hb, hnum⟩ := h.perform r
    obtain ⟨c, hc, hnum⟩ := ih hnum
    refine ⟨c, ?_, hnum⟩
    rw [Arena.play, hb]
    simp only [hc]
    rfl

/-! ## What a script comes to -/

/-- A new arena of an allowed size, played any script, numbers the distinct values put, from 1
    and in the order of their first put.  It gives the answers of an ordered set, which depend
    neither on the number of buckets nor on the keys, and no walk along a chain faults, neither
    on the way nor afterwards. -/
theorem play_ordered {bits : Nat} (hbits : bits ≤ 31) (rs : List (Request α)) :
    ∃ a₀ a : Arena α, ofBits bits = .ok a₀ ∧ a₀.play rs = .ok (answers [] rs, a) ∧
      a.pairs = ((stored rs).zipIdx 1).map Prod.swap ∧
      (∀ i, a.contains i = true ↔ 1 ≤ i ∧ i ≤ (stored rs).length) ∧
      (∀ v i, a.find v = .ok (some i) ↔ 1 ≤ i ∧ (stored rs)[i - 1]? = some v) ∧
      (∀ v, v ∉ stored rs → a.find v = .ok none) ∧
      (∀ v k, (stored rs)[k]? = some v → a.put v = .ok ⟨k + 1, false, a⟩) ∧
      (∀ v, v ∉ stored rs → ∃ b, a.put v = .ok ⟨(stored rs).length + 1, true, b⟩ ∧
        b.pairs = a.pairs ++ [((stored rs).length + 1, v)] ∧
        ∀ i w, a.value i = .ok w → b.value i = .ok w) := by
  obtain ⟨a, hplay, hnum⟩ := (numbers_empty (α := α) bits).play rs
  rw [foldl_after_nil] at hnum
  refine ⟨empty bits, a, if_pos hbits, hplay, ?_, fun i => ?_, fun v i => ?_, fun v hv => ?_,
    fun v k hv => ?_, fun v hv => ?_⟩
  · rw [pairs, hnum.list]
  · rw [contains_iff, exists_value_iff, hnum.size_eq]
  · rw [hnum.find_iff, Nat.one_le_iff_ne_zero]
  · rw [hnum.find_eq, if_neg hv]
  · have hk : a.value (k + 1) = .ok v := hnum.value_iff.2 ⟨by omega, hv⟩
    rw [hnum.wf.put_eq, hnum.wf.insert_of_value hk]
  · obtain ⟨b, hb, hnum'⟩ := hnum.put_of_not_mem hv
    have hlist : b.toList = a.toList ++ [v] := by rw [hnum'.list, hnum.list]
    refine ⟨b, hb, ?_, fun i w hw => value_of_toList_append hlist hw⟩
    rw [pairs_concat hlist, hnum.size_eq]

/-- Five values of which four share one of two buckets: a first put, two collisions, a put
    again, and a search on either side of it. -/
theorem play_ordered_colliding :
    1 ≤ 31 ∧ answers [] [.put 5, .put 3, .find 7, .put 5, .put 7, .put 2, .find 7]
        = [.put 1 true, .put 2 true, .find none, .put 1 false, .put 3 true, .put 4 true,
          .find (some 3)] ∧
      ∃ a₀ a : Arena UInt64, ofBits 1 = .ok a₀ ∧
        a₀.play [.put 5, .put 3, .find 7, .put 5, .put 7, .put 2, .find 7]
          = .ok ([.put 1 true, .put 2 true, .find none, .put 1 false, .put 3 true, .put 4 true,
            .find (some 3)], a) ∧
        a.pairs = [(1, 5), (2, 3), (3, 7), (4, 2)] := by
  have hanswers : answers [] [.put (5 : UInt64), .put 3, .find 7, .put 5, .put 7, .put 2, .find 7]
      = [.put 1 true, .put 2 true, .find none, .put 1 false, .put 3 true, .put 4 true,
        .find (some 3)] := by decide
  have hbits : 1 ≤ 31 := by decide
  obtain ⟨a₀, a, hofBits, hplay, hpairs, -⟩ := play_ordered hbits
    [.put (5 : UInt64), .put 3, .find 7, .put 5, .put 7, .put 2, .find 7]
  refine ⟨hbits, hanswers, a₀, a, hofBits, ?_, ?_⟩
  · rw [hplay, hanswers]
  · rw [hpairs]
    decide

end Arena

end SatMemo
