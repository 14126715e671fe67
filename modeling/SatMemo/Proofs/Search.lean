import Mathlib.Logic.Relation
import Std.Data.TreeSet
import SatMemo.Error

/-! # Searches that visit every index once

    A search keeps the indices it has visited and those still pending.  In a turn it
    takes the first pending index: one that was visited before, or that is to be
    skipped, is dropped, and any other one is visited and its children put in front
    of what is pending.  The loop of these turns (`Search.turn`) has no bound.

    What every turn keeps is `Search.Sound`, and at the end it says that exactly the
    indices that can be reached were visited.  `gather` is the loop with a bound on
    the visits.  The bound does not matter if it is at least the number of indices
    (`exists_gather`). -/

namespace SatMemo

/-- A search between two turns. -/
structure Search where
  seen    : Std.TreeSet Nat
  pending : List Nat

namespace Search

/-- Nothing was visited yet, and one index is pending. -/
def start (root : Nat) : Search :=
  ⟨∅, [root]⟩

theorem mem_insert_iff {seen : Std.TreeSet Nat} {i j : Nat} :
    j ∈ seen.insert i ↔ i = j ∨ j ∈ seen := by
  rw [Std.TreeSet.mem_insert, Std.LawfulEqCmp.compare_eq_iff_eq]

theorem size_insert_of_not_mem {seen : Std.TreeSet Nat} {i : Nat} (h : i ∉ seen) :
    (seen.insert i).size = seen.size + 1 := by
  rw [Std.TreeSet.size_insert, if_neg (by rwa [Std.TreeSet.contains_iff_mem])]

theorem nodup_toList (seen : Std.TreeSet Nat) : seen.toList.Nodup := by
  refine Std.TreeSet.distinct_toList.imp ?_
  intro i j hij heq
  exact hij (Std.LawfulEqCmp.compare_eq_iff_eq.2 heq)

/-- Indices from 1 to `n` are no more than `n`. -/
theorem size_le {seen : Std.TreeSet Nat} {n : Nat} (h : ∀ i ∈ seen, 1 ≤ i ∧ i ≤ n) :
    seen.size ≤ n := by
  have hsub : seen.toList ⊆ List.range' 1 n := by
    intro i hi
    have hle := h i (Std.TreeSet.mem_toList.1 hi)
    rw [List.mem_range'_1]
    omega
  have hlength := (nodup_toList seen).length_le_of_subset hsub
  rwa [Std.TreeSet.length_toList, List.length_range'] at hlength

section Loop

variable (children : Nat → Except Fault (List Nat)) (skip : Nat)

/-! ## The loop -/

/-- One turn.  There is none left once nothing is pending. -/
def turn (w : Search) : Except Fault (Option Search) :=
  match w.pending with
  | []        => .ok none
  | i :: rest =>
      if i = skip ∨ i ∈ w.seen then
        .ok (some ⟨w.seen, rest⟩)
      else
        (children i).map fun next => some ⟨w.seen.insert i, next ++ rest⟩

/-- The search is in `w'` a turn after it was in `w`. -/
def Goes (w w' : Search) : Prop :=
  turn children skip w = .ok (some w')

/-- The search comes to `w'` after any number of turns from `w`. -/
def Later : Search → Search → Prop :=
  Relation.ReflTransGen (Goes children skip)

/-- The loop with a bound on the number of visits. -/
def gather : (budget : Nat) → (seen : Std.TreeSet Nat) → (pending : List Nat) →
    Except Fault (Std.TreeSet Nat)
  | budget, seen, pending =>
      match pending.dropWhile fun i => i == skip || seen.contains i with
      | []        => .ok seen
      | i :: rest =>
          match children i, budget with
          | .error fault, _      => .error fault
          | .ok _, 0             => .error .endlessDescent
          | .ok next, budget + 1 => gather budget (seen.insert i) (next ++ rest)

/-! ## What can be reached -/

/-- The index `j` is a child of `i`. -/
def Leads (i j : Nat) : Prop :=
  i ≠ skip ∧ ∃ next, children i = .ok next ∧ j ∈ next

/-- The index can be reached by going from children to children. -/
def Reaches : Nat → Nat → Prop :=
  Relation.ReflTransGen (Leads children skip)

/-- The index is visited, or it is skipped or will be visited. -/
def Due (w : Search) (i : Nat) : Prop :=
  i = skip ∨ i ∈ w.seen ∨ i ∈ w.pending

/-- Everything visited or pending can be reached, and what can be reached from there in one
    step is due. -/
structure Sound (root : Nat) (w : Search) : Prop where
  seen    : ∀ i ∈ w.seen, i ≠ skip ∧ Reaches children skip root i
  pending : ∀ i ∈ w.pending, Reaches children skip root i
  root    : Due skip w root
  closed  : ∀ i ∈ w.seen, ∀ j, Leads children skip i j → Due skip w j

end Loop

section Turns

variable {children : Nat → Except Fault (List Nat)} {skip root n budget i j : Nat}
  {w w' : Search} {seen cone : Std.TreeSet Nat} {pending rest next : List Nat}

/-! ## Turns -/

theorem goes_drop (hold : i = skip ∨ i ∈ seen) :
    Goes children skip ⟨seen, i :: rest⟩ ⟨seen, rest⟩ := by
  simp only [Goes, turn, if_pos hold]

theorem goes_visit (hnew : ¬ (i = skip ∨ i ∈ seen)) (hnext : children i = .ok next) :
    Goes children skip ⟨seen, i :: rest⟩ ⟨seen.insert i, next ++ rest⟩ := by
  simp only [Goes, turn, if_neg hnew, hnext]
  rfl

/-- What a turn can do. -/
theorem Goes.cases (h : Goes children skip w w') :
    ∃ i rest, w.pending = i :: rest ∧
      ((i = skip ∨ i ∈ w.seen) ∧ w' = ⟨w.seen, rest⟩ ∨
        ¬ (i = skip ∨ i ∈ w.seen) ∧ ∃ next, children i = .ok next ∧
          w' = ⟨w.seen.insert i, next ++ rest⟩) := by
  obtain ⟨seen, pending⟩ := w
  cases pending with
  | nil => cases h
  | cons i rest =>
    refine ⟨i, rest, rfl, ?_⟩
    by_cases hold : i = skip ∨ i ∈ seen
    · have heq := h.symm.trans (goes_drop hold)
      exact .inl ⟨hold, Option.some.inj (Except.ok.inj heq)⟩
    · cases hnext : children i with
      | error fault =>
        simp only [Goes, turn, if_neg hold, hnext] at h
        cases h
      | ok next =>
        have heq := h.symm.trans (goes_visit hold hnext)
        exact .inr ⟨hold, next, rfl, Option.some.inj (Except.ok.inj heq)⟩

/-- There is one way to the end, and every state on the way is a state of it. -/
theorem Later.of_ended {last : Search} (hlast : Later children skip w last)
    (hend : last.pending = []) (h : Later children skip w w') : Later children skip w' last := by
  have hunique : Relator.RightUnique (Goes children skip) := by
    intro w w₁ w₂ h₁ h₂
    exact Option.some.inj (Except.ok.inj (h₁.symm.trans h₂))
  rcases Relation.ReflTransGen.total_of_right_unique hunique h hlast with hrest | hback
  · exact hrest
  · -- The last state has no turn, so that nothing but itself comes after it.
    rcases hback.cases_head with rfl | ⟨w₁, hgo, _⟩
    · exact .refl
    · obtain ⟨i, rest, hpending, _⟩ := hgo.cases
      rw [hend] at hpending
      cases hpending

/-! ## What turns keep -/

theorem sound_start (root : Nat) : Sound children skip root (start root) where
  seen := fun i hi => absurd hi Std.TreeSet.not_mem_emptyc
  pending := by
    intro i hi
    rw [List.mem_singleton.1 hi]
    exact .refl
  root := .inr (.inr (List.mem_singleton.2 rfl))
  closed := fun i hi => absurd hi Std.TreeSet.not_mem_emptyc

/-- An index that is dropped is due for another reason than that it is pending. -/
theorem Due.drop (hold : i = skip ∨ i ∈ seen) (h : Due skip ⟨seen, i :: rest⟩ j) :
    Due skip ⟨seen, rest⟩ j := by
  rcases h with hj | hj | hj
  · exact .inl hj
  · exact .inr (.inl hj)
  · rcases List.mem_cons.1 hj with rfl | hj
    · exact hold.imp id .inl
    · exact .inr (.inr hj)

theorem Due.visit (next : List Nat) (h : Due skip ⟨seen, i :: rest⟩ j) :
    Due skip ⟨seen.insert i, next ++ rest⟩ j := by
  rcases h with hj | hj | hj
  · exact .inl hj
  · exact .inr (.inl (mem_insert_iff.2 (.inr hj)))
  · rcases List.mem_cons.1 hj with rfl | hj
    · exact .inr (.inl (mem_insert_iff.2 (.inl rfl)))
    · exact .inr (.inr (List.mem_append_right _ hj))

theorem Sound.drop (h : Sound children skip root ⟨seen, i :: rest⟩)
    (hold : i = skip ∨ i ∈ seen) : Sound children skip root ⟨seen, rest⟩ where
  seen := h.seen
  pending := fun j hj => h.pending j (List.mem_cons_of_mem _ hj)
  root := h.root.drop hold
  closed := fun j hj k hk => (h.closed j hj k hk).drop hold

theorem Sound.visit (h : Sound children skip root ⟨seen, i :: rest⟩)
    (hnew : ¬ (i = skip ∨ i ∈ seen)) (hnext : children i = .ok next) :
    Sound children skip root ⟨seen.insert i, next ++ rest⟩ := by
  have hskip : i ≠ skip := fun hi => hnew (.inl hi)
  have hi : Reaches children skip root i := h.pending i (List.mem_cons_self ..)
  refine ⟨?_, ?_, h.root.visit next, ?_⟩
  · intro j hj
    rcases mem_insert_iff.1 hj with rfl | hj
    · exact ⟨hskip, hi⟩
    · exact h.seen j hj
  · intro j hj
    rcases List.mem_append.1 hj with hj | hj
    · exact hi.tail ⟨hskip, next, hnext, hj⟩
    · exact h.pending j (List.mem_cons_of_mem _ hj)
  · intro j hj k hk
    rcases mem_insert_iff.1 hj with rfl | hj
    · -- The children of the index just visited are pending.
      obtain ⟨_, next', hnext', hmem⟩ := hk
      cases hnext.symm.trans hnext'
      exact .inr (.inr (List.mem_append_left _ hmem))
    · exact (h.closed j hj k hk).visit next

/-- A turn keeps the search sound. -/
theorem Sound.goes (h : Sound children skip root w) (hgo : Goes children skip w w') :
    Sound children skip root w' := by
  obtain ⟨seen, pending⟩ := w
  obtain ⟨i, rest, rfl, ⟨hold, rfl⟩ | ⟨hnew, next, hnext, rfl⟩⟩ := hgo.cases
  · exact h.drop hold
  · exact h.visit hnew hnext

theorem Sound.later (h : Sound children skip root w) (hl : Later children skip w w') :
    Sound children skip root w' := by
  induction hl with
  | refl => exact h
  | tail _ hgo ih => exact ih.goes hgo

/-- At the end, exactly what can be reached was visited. -/
theorem Sound.mem_seen_iff (h : Sound children skip root w) (hend : w.pending = []) :
    i ∈ w.seen ↔ i ≠ skip ∧ Reaches children skip root i := by
  have hseen : ∀ {j}, Due skip w j → j ≠ skip → j ∈ w.seen := by
    intro j hj hskip
    rcases hj with hj | hj | hj
    · exact absurd hj hskip
    · exact hj
    · rw [hend] at hj
      cases hj
  constructor
  · exact h.seen i
  · intro ⟨hskip, hreach⟩
    refine hseen ?_ hskip
    -- By induction on the way from the root: what is due and not skipped was visited.
    clear hskip
    induction hreach with
    | refl => exact h.root
    | tail _ hjk ih => exact h.closed _ (hseen ih hjk.1) _ hjk

/-! ## The bounded loop -/

/-- To drop what need not be visited takes one turn each. -/
theorem later_dropWhile (children : Nat → Except Fault (List Nat)) (skip : Nat)
    (seen : Std.TreeSet Nat) (pending : List Nat) :
    Later children skip ⟨seen, pending⟩
      ⟨seen, pending.dropWhile fun i => i == skip || seen.contains i⟩ := by
  induction pending with
  | nil => exact .refl
  | cons i rest ih =>
    rw [List.dropWhile_cons]
    by_cases hold : i = skip ∨ i ∈ seen
    · rw [if_pos (by simpa [← Std.TreeSet.contains_iff_mem] using hold)]
      exact ih.head (goes_drop hold)
    · rw [if_neg (by simpa [← Std.TreeSet.contains_iff_mem] using hold)]
      exact .refl

/-- The first index that is not dropped is new. -/
theorem not_of_dropWhile
    (hdrop : (pending.dropWhile fun i => i == skip || seen.contains i) = i :: rest) :
    ¬ (i = skip ∨ i ∈ seen) := by
  have hnew := List.head?_dropWhile_not (fun i => i == skip || seen.contains i) pending
  rw [hdrop] at hnew
  simpa [← Std.TreeSet.contains_iff_mem] using hnew

/-- The bounded loop comes to what the loop comes to. -/
theorem later_of_gather (h : gather children skip budget seen pending = .ok cone) :
    Later children skip ⟨seen, pending⟩ ⟨cone, []⟩ := by
  fun_induction gather children skip budget seen pending with
  | case1 budget seen pending hdrop =>
    rw [← Except.ok.inj h]
    have hl := later_dropWhile children skip seen pending
    rwa [hdrop] at hl
  | case2 => cases h
  | case3 => cases h
  | case4 seen pending i rest hdrop next budget hnext ih =>
    have hl := later_dropWhile children skip seen pending
    rw [hdrop] at hl
    exact (hl.tail (goes_visit (not_of_dropWhile hdrop) hnext)).trans (ih h)

/-- A bound on the number of indices is a bound on the visits. -/
theorem Sound.exists_gather (h : Sound children skip root ⟨seen, pending⟩)
    (hok : ∀ i, Reaches children skip root i → i ≠ skip → ∃ next, children i = .ok next)
    (hbound : ∀ i, Reaches children skip root i → i ≠ skip → 1 ≤ i ∧ i ≤ n)
    (hbudget : n ≤ budget + seen.size) :
    ∃ cone, gather children skip budget seen pending = .ok cone := by
  fun_induction gather children skip budget seen pending with
  | case1 budget seen pending hdrop => exact ⟨seen, rfl⟩
  | case2 budget seen pending i rest hdrop fault hfault =>
    -- A new index has children.
    have hs := h.later (hdrop ▸ later_dropWhile children skip seen pending)
    have hnew := not_of_dropWhile hdrop
    obtain ⟨next, hnext⟩ := hok i (hs.pending i (List.mem_cons_self ..)) fun hi => hnew (.inl hi)
    rw [hfault] at hnext
    cases hnext
  | case3 seen pending i rest hdrop next hnext =>
    -- All indices would be visited, and yet one is new.
    have hs := h.later (hdrop ▸ later_dropWhile children skip seen pending)
    have hnew := not_of_dropWhile hdrop
    have hle := size_le fun j hj =>
      have hj := (hs.visit hnew hnext).seen j hj
      hbound j hj.2 hj.1
    rw [size_insert_of_not_mem fun hmem => hnew (.inr hmem)] at hle
    omega
  | case4 seen pending i rest hdrop next budget hnext ih =>
    have hs := h.later (hdrop ▸ later_dropWhile children skip seen pending)
    have hnew := not_of_dropWhile hdrop
    refine ih (hs.visit hnew hnext) ?_
    rw [size_insert_of_not_mem fun hmem => hnew (.inr hmem)]
    omega

/-- A search among the indices from 1 to `n` ends, and visits exactly what can be reached. -/
theorem exists_gather
    (hok : ∀ i, Reaches children skip root i → i ≠ skip → ∃ next, children i = .ok next)
    (hbound : ∀ i, Reaches children skip root i → i ≠ skip → 1 ≤ i ∧ i ≤ n) :
    ∃ cone, gather children skip n ∅ [root] = .ok cone ∧
      Later children skip (start root) ⟨cone, []⟩ ∧
      ∀ i, i ∈ cone ↔ i ≠ skip ∧ Reaches children skip root i := by
  obtain ⟨cone, hcone⟩ :=
    (sound_start root).exists_gather hok hbound (Nat.le_add_right n (∅ : Std.TreeSet Nat).size)
  have hl := later_of_gather hcone
  exact ⟨cone, hcone, hl, fun i => ((sound_start root).later hl).mem_seen_iff rfl⟩

end Turns

end Search

end SatMemo
