import Mathlib.Data.Set.Card
import Mathlib.Data.Set.Finite.List
import SatMemo.Proofs.BoolFn

/-! # Paths through nested branches

    A path through branches on `Cs` is a list of signs: `true` where the branch is
    taken.  Its condition is the condition at the start together with those of the
    branches, each as its sign has it; a list of fewer signs is the beginning of a
    path.

    Feasible paths, and beginnings that are cut off, are counted from the first
    sign on: both counts add up from those behind the two ways to go
    (`ncard_feasiblePaths_cons`, `ncard_prunedPaths_cons`). -/

namespace SatMemo

namespace BoolFn

variable {F C : BoolFn} {Cs : List BoolFn} {signs : List Bool}

/-- The condition of a branch that is taken or not. -/
def signed (C : BoolFn) (taken : Bool) : BoolFn :=
  if taken then C else C.not

/-- The condition of a path from `F` through branches on `Cs`. -/
def path (F : BoolFn) (Cs : List BoolFn) (signs : List Bool) : BoolFn :=
  all (F :: List.zipWith signed Cs signs)

theorem path_nil (F : BoolFn) (Cs : List BoolFn) : path F Cs [] = F := by
  funext α
  unfold path
  rw [List.zipWith_nil_right, all_apply, List.all_cons, List.all_nil, Bool.and_true]

theorem path_cons (F C : BoolFn) (Cs : List BoolFn) (taken : Bool) (signs : List Bool) :
    path F (C :: Cs) (taken :: signs) = path (all [F, signed C taken]) Cs signs := by
  funext α
  unfold path
  simp only [List.zipWith_cons_cons, all_apply, List.all_cons, List.all_nil, Bool.and_true,
    Bool.and_assoc]

/-- A path is no easier than its start. -/
theorem satisfiable_of_path (h : (path F Cs signs).Satisfiable) : F.Satisfiable := by
  obtain ⟨α, hα⟩ := h
  unfold path at hα
  rw [all_apply, List.all_cons, Bool.and_eq_true] at hα
  exact ⟨α, hα.1⟩

theorem signed_apply (C : BoolFn) (α : Nat → Bool) : signed C (C α) α = true := by
  unfold signed
  cases h : C α with
  | true => exact h
  | false =>
    show (!C α) = true
    rw [h]
    rfl

/-- An assignment goes one way at every branch. -/
theorem path_apply {α : Nat → Bool} (hα : F α = true) (Cs : List BoolFn) :
    path F Cs (Cs.map fun C => C α) α = true := by
  unfold path
  rw [all_apply, List.all_cons, hα, Bool.true_and, List.all_eq_true]
  intro G hG
  obtain ⟨i, hi, rfl⟩ := List.mem_iff_getElem.1 hG
  rw [List.getElem_zipWith, List.getElem_map]
  exact signed_apply _ α

/-! ## Sets of paths -/

/-- The paths to the end whose conditions can be true. -/
def feasiblePaths (F : BoolFn) (Cs : List BoolFn) : Set (List Bool) :=
  { signs | signs.length = Cs.length ∧ (path F Cs signs).Satisfiable }

/-- The beginnings of paths whose conditions cannot be true, though those of all shorter
    beginnings can. -/
def prunedPaths (F : BoolFn) (Cs : List BoolFn) : Set (List Bool) :=
  { signs | signs.length ≤ Cs.length ∧ ¬ (path F Cs signs).Satisfiable ∧
    ∀ k < signs.length, (path F Cs (signs.take k)).Satisfiable }

theorem finite_feasiblePaths (F : BoolFn) (Cs : List BoolFn) : (feasiblePaths F Cs).Finite :=
  (List.finite_length_eq Bool Cs.length).subset fun _ h => h.1

theorem finite_prunedPaths (F : BoolFn) (Cs : List BoolFn) : (prunedPaths F Cs).Finite :=
  (List.finite_length_le Bool Cs.length).subset fun _ h => h.1

/-- Lists of signs are counted by the first of them. -/
theorem ncard_eq_of_first {A : Set (List Bool)} (hfinite : A.Finite) (hnil : [] ∉ A) :
    A.ncard = { signs | true :: signs ∈ A }.ncard + { signs | false :: signs ∈ A }.ncard := by
  have hinj (b : Bool) : Function.Injective (List.cons b) := List.cons_injective
  have hsplit : A = List.cons true '' { signs | true :: signs ∈ A } ∪
      List.cons false '' { signs | false :: signs ∈ A } := by
    ext signs
    constructor
    · intro h
      cases signs with
      | nil => exact absurd h hnil
      | cons b signs =>
        cases b with
        | true => exact .inl ⟨signs, h, rfl⟩
        | false => exact .inr ⟨signs, h, rfl⟩
    · intro h
      obtain ⟨signs, h, rfl⟩ | ⟨signs, h, rfl⟩ := h
      · exact h
      · exact h
  have hdisjoint : Disjoint (List.cons true '' { signs | true :: signs ∈ A })
      (List.cons false '' { signs | false :: signs ∈ A }) := by
    rw [Set.disjoint_left]
    intro signs h h'
    obtain ⟨t, _, rfl⟩ := h
    obtain ⟨t', _, heq⟩ := h'
    cases heq
  have hpart (b : Bool) : (List.cons b '' { signs | b :: signs ∈ A }).Finite := by
    apply hfinite.subset
    intro signs h
    obtain ⟨t, ht, rfl⟩ := h
    exact ht
  have hunion := Set.ncard_union_eq hdisjoint (hpart true) (hpart false)
  rw [← hsplit] at hunion
  rw [hunion, Set.ncard_image_of_injective _ (hinj true),
    Set.ncard_image_of_injective _ (hinj false)]

/-! ## Counting from the start -/

/-- From a condition that cannot be true no path is feasible. -/
theorem feasiblePaths_of_unsatisfiable (hF : ¬ F.Satisfiable) : feasiblePaths F Cs = ∅ := by
  rw [Set.eq_empty_iff_forall_notMem]
  intro signs h
  exact hF (satisfiable_of_path h.2)

/-- It is cut off at once. -/
theorem prunedPaths_of_unsatisfiable (hF : ¬ F.Satisfiable) : prunedPaths F Cs = {[]} := by
  ext signs
  constructor
  · intro ⟨_, _, hshorter⟩
    cases signs with
    | nil => rfl
    | cons b signs =>
      have hstart := hshorter 0 (Nat.succ_pos _)
      rw [List.take_zero, path_nil] at hstart
      exact absurd hstart hF
  · intro h
    cases h
    refine ⟨Nat.zero_le _, ?_, nofun⟩
    rw [path_nil]
    exact hF

theorem feasiblePaths_nil (hF : F.Satisfiable) : feasiblePaths F [] = {[]} := by
  ext signs
  constructor
  · intro h
    exact List.eq_nil_of_length_eq_zero h.1
  · intro h
    cases h
    refine ⟨rfl, ?_⟩
    rw [path_nil]
    exact hF

/-- The start itself is not cut off. -/
theorem nil_notMem_prunedPaths (hF : F.Satisfiable) : [] ∉ prunedPaths F Cs := by
  intro ⟨_, hunsat, _⟩
  rw [path_nil] at hunsat
  exact hunsat hF

theorem prunedPaths_nil (hF : F.Satisfiable) : prunedPaths F [] = ∅ := by
  rw [Set.eq_empty_iff_forall_notMem]
  intro signs h
  have hnil : signs = [] := List.eq_nil_of_length_eq_zero (Nat.le_zero.1 h.1)
  exact nil_notMem_prunedPaths hF (hnil ▸ h)

theorem cons_mem_feasiblePaths {b : Bool} :
    b :: signs ∈ feasiblePaths F (C :: Cs) ↔ signs ∈ feasiblePaths (all [F, signed C b]) Cs := by
  unfold feasiblePaths
  rw [Set.mem_ofPred_eq, Set.mem_ofPred_eq, path_cons, List.length_cons, List.length_cons,
    Nat.add_right_cancel_iff]

theorem cons_mem_prunedPaths (hF : F.Satisfiable) {b : Bool} :
    b :: signs ∈ prunedPaths F (C :: Cs) ↔ signs ∈ prunedPaths (all [F, signed C b]) Cs := by
  unfold prunedPaths
  rw [Set.mem_ofPred_eq, Set.mem_ofPred_eq, path_cons, List.length_cons, List.length_cons,
    Nat.add_le_add_iff_right]
  apply and_congr_right
  intro _
  apply and_congr_right
  intro _
  constructor
  · intro h k hk
    have hnext := h (k + 1) (Nat.succ_lt_succ hk)
    rwa [List.take_succ_cons, path_cons] at hnext
  · intro h k hk
    cases k with
    | zero =>
      rw [List.take_zero, path_nil]
      exact hF
    | succ k =>
      rw [List.take_succ_cons, path_cons]
      exact h k (Nat.lt_of_succ_lt_succ hk)

/-- A feasible path goes on one way or the other. -/
theorem ncard_feasiblePaths_cons (F C : BoolFn) (Cs : List BoolFn) :
    (feasiblePaths F (C :: Cs)).ncard
      = (feasiblePaths (all [F, C]) Cs).ncard + (feasiblePaths (all [F, C.not]) Cs).ncard := by
  have hnil : [] ∉ feasiblePaths F (C :: Cs) := fun h => nomatch h.1
  rw [ncard_eq_of_first (finite_feasiblePaths F (C :: Cs)) hnil]
  simp only [cons_mem_feasiblePaths]
  rfl

/-- So does one that is cut off later. -/
theorem ncard_prunedPaths_cons (hF : F.Satisfiable) (C : BoolFn) (Cs : List BoolFn) :
    (prunedPaths F (C :: Cs)).ncard
      = (prunedPaths (all [F, C]) Cs).ncard + (prunedPaths (all [F, C.not]) Cs).ncard := by
  rw [ncard_eq_of_first (finite_prunedPaths F (C :: Cs)) (nil_notMem_prunedPaths hF)]
  simp only [cons_mem_prunedPaths hF]
  rfl

/-- Some path is feasible if the start is. -/
theorem ncard_feasiblePaths_pos (hF : F.Satisfiable) (Cs : List BoolFn) :
    0 < (feasiblePaths F Cs).ncard := by
  obtain ⟨α, hα⟩ := hF
  rw [Set.ncard_pos (finite_feasiblePaths F Cs)]
  exact ⟨Cs.map fun C => C α, List.length_map _, α, path_apply hα Cs⟩

end BoolFn

end SatMemo
