import Mathlib.Data.Set.Card
import SatMemo.Proofs.BoolFn

/-! # Functions with their upper variables fixed

    Fix all variables of a function above some number, each to a constant, and
    another function is left.  The functions that arise in this way, constants apart
    and complements counted as one, are the cofactor classes of the function.  They
    say nothing of any diagram. -/

namespace SatMemo

namespace BoolFn

/-- The function with every variable above `k` fixed to its value in `β`. -/
def fixAbove (k : Nat) (β : Nat → Bool) (F : BoolFn) : BoolFn :=
  fun α => F fun v => if v ≤ k then α v else β v

/-- The function and its complement. -/
def upToSign (F : BoolFn) : Set BoolFn :=
  {F, F.not}

def IsConst (F : BoolFn) : Prop :=
  ∃ b, F = const b

/-- The classes of the functions, other than constants, that are left of `F` when for some `k`
    all variables above `k` are fixed. -/
def cofactorClasses (F : BoolFn) : Set (Set BoolFn) :=
  {c | ∃ k β, ¬ (F.fixAbove k β).IsConst ∧ c = (F.fixAbove k β).upToSign}

variable {F G : BoolFn}

/-! ## Signs -/

@[simp] theorem not_not (F : BoolFn) : F.not.not = F := by
  funext α
  simp

@[simp] theorem not_const (b : Bool) : (const b).not = const (!b) := rfl

@[simp] theorem upToSign_not (F : BoolFn) : F.not.upToSign = F.upToSign := by
  rw [upToSign, upToSign, not_not, Set.pair_comm]

theorem mem_upToSign_iff : G ∈ F.upToSign ↔ G = F ∨ G = F.not := by
  simp [upToSign]

/-- Two functions are of one class if they are equal, or complements. -/
theorem upToSign_eq_iff : F.upToSign = G.upToSign ↔ F = G ∨ F = G.not := by
  constructor
  · intro h
    rw [← mem_upToSign_iff, ← h, mem_upToSign_iff]
    exact .inl rfl
  · intro h
    rcases h with rfl | rfl
    · rfl
    · exact upToSign_not G

theorem isConst_not_iff : F.not.IsConst ↔ F.IsConst := by
  constructor
  · intro ⟨b, hb⟩
    exact ⟨!b, by rw [← not_not F, hb, not_const]⟩
  · intro ⟨b, hb⟩
    exact ⟨!b, by rw [hb, not_const]⟩

theorem isConst_congr (h : F.upToSign = G.upToSign) : F.IsConst ↔ G.IsConst := by
  rcases upToSign_eq_iff.1 h with rfl | rfl
  · rfl
  · exact isConst_not_iff

/-! ## Fixing variables -/

theorem fixAbove_not (k : Nat) (β : Nat → Bool) (F : BoolFn) :
    F.not.fixAbove k β = (F.fixAbove k β).not := rfl

theorem upToSign_fixAbove_congr (k : Nat) (β : Nat → Bool) (h : F.upToSign = G.upToSign) :
    (F.fixAbove k β).upToSign = (G.fixAbove k β).upToSign := by
  rcases upToSign_eq_iff.1 h with rfl | rfl
  · rfl
  · rw [fixAbove_not, upToSign_not]

/-- To fix more variables after others is to fix all of them at once. -/
theorem fixAbove_fixAbove (k k' : Nat) (β β' : Nat → Bool) (F : BoolFn) :
    (F.fixAbove k β).fixAbove k' β'
      = F.fixAbove (min k k') fun v => if v ≤ k then β' v else β v := by
  funext α
  unfold fixAbove
  congr 1
  funext v
  by_cases hk : v ≤ k
  · by_cases hk' : v ≤ k' <;> simp [hk, hk']
  · simp [hk]

theorem fixAbove_const (k : Nat) (β : Nat → Bool) (b : Bool) :
    (const b).fixAbove k β = const b := rfl

variable {v k : Nat} {β : Nat → Bool}

/-- To fix variables that a function does not look at changes nothing. -/
theorem Below.fixAbove_eq (h : F.Below v) (hk : v ≤ k + 1) : F.fixAbove k β = F := by
  funext α
  apply h
  intro i hi
  exact if_pos (by omega)

theorem Below.fixAbove (h : F.Below v) (k : Nat) (β : Nat → Bool) : (F.fixAbove k β).Below v := by
  intro α α' heq
  apply h
  intro i hi
  rw [heq i hi]

/-- A constant has no cofactor classes. -/
theorem cofactorClasses_const (b : Bool) : (const b).cofactorClasses = ∅ := by
  rw [Set.eq_empty_iff_forall_notMem]
  intro c ⟨k, β, hne, _⟩
  exact hne ⟨b, fixAbove_const k β b⟩

/-! ## Conjunction with a variable above -/

section Above

theorem all_var_apply (F : BoolFn) (v : Nat) (α : Nat → Bool) :
    all [F, var v] α = (F α && α v) := by
  simp [all_apply]

/-- A function that can be true, and a variable it does not look at: their conjunction does. -/
theorem not_below_conjunction (h : F.Below v) (hF : F.Satisfiable) :
    ¬ (all [F, var v]).Below v := by
  intro hbelow
  obtain ⟨α, hα, htrue⟩ := h.exists_with hF true
  obtain ⟨α', hα', hfalse⟩ : ∃ α', (∀ i, i < v → α i = α' i) ∧ α' v = false :=
    ⟨fun i => if i = v then false else α i, fun i hi => (if_neg (by omega)).symm, if_pos rfl⟩
  have heq := hbelow hα'
  rw [all_var_apply, all_var_apply, hα, htrue, hfalse, Bool.and_false] at heq
  cases heq

/-- With the variable above fixed, what is left is that of the function, or false. -/
theorem fixAbove_conjunction (h : k < v) :
    (all [F, var v]).fixAbove k β = if β v then F.fixAbove k β else const false := by
  funext α
  have hv : ¬ v ≤ k := by omega
  show all [F, var v] _ = _
  rw [all_var_apply, if_neg hv]
  cases β v <;> simp [fixAbove]

theorem below_conjunction (h : F.Below v) : (all [F, var v]).Below (v + 1) := by
  apply below_all
  intro G hG
  rcases List.mem_cons.1 hG with rfl | hG
  · exact h.mono (Nat.le_succ v)
  · rw [List.mem_singleton.1 hG]
    exact below_var (Nat.lt_succ_self v)

/-- The conjunction is not of the class of any function without the variable. -/
theorem upToSign_conjunction_ne (h : F.Below v) (hF : F.Satisfiable) (hG : G.Below v) :
    (all [F, var v]).upToSign ≠ G.upToSign := by
  intro heq
  apply not_below_conjunction h hF
  rcases upToSign_eq_iff.1 heq with heq | heq
  · rwa [heq]
  · rw [heq]
    exact hG.not

/-- A conjunction with a variable above has one more cofactor class, its own. -/
theorem cofactorClasses_conjunction (hv : 1 ≤ v) (h : F.Below v) (hF : F.Satisfiable) :
    (all [F, var v]).cofactorClasses
      = insert (all [F, var v]).upToSign F.cofactorClasses := by
  ext c
  constructor
  · intro ⟨k, β, hne, hc⟩
    by_cases hk : k < v
    · rw [fixAbove_conjunction hk] at hne hc
      cases hβ : β v with
      | false => exact absurd ⟨false, by simp [hβ]⟩ hne
      | true =>
        rw [hβ, if_pos rfl] at hne hc
        exact .inr ⟨k, β, hne, hc⟩
    · rw [(below_conjunction h).fixAbove_eq (by omega)] at hc
      exact .inl hc
  · intro hc
    rcases hc with hc | ⟨k, β, hne, hc⟩
    · have hown : (all [F, var v]).fixAbove v (fun _ => true) = all [F, var v] :=
        (below_conjunction h).fixAbove_eq (Nat.le_refl _)
      refine ⟨v, fun _ => true, ?_, by rw [hown, hc]⟩
      rw [hown]
      intro ⟨b, hb⟩
      exact upToSign_conjunction_ne h hF (below_const b) (congrArg upToSign hb)
    · -- The conjunct is left of the conjunction once the variable is true.
      have hown : (all [F, var v]).fixAbove (v - 1) (fun _ => true) = F := by
        rw [fixAbove_conjunction (by omega), if_pos rfl]
        exact h.fixAbove_eq (by omega)
      have hleft := fixAbove_fixAbove (v - 1) k (fun _ => true) β (all [F, var v])
      rw [hown] at hleft
      rw [hleft] at hne hc
      exact ⟨_, _, hne, hc⟩

theorem encard_cofactorClasses_conjunction (hv : 1 ≤ v) (h : F.Below v) (hF : F.Satisfiable) :
    (all [F, var v]).cofactorClasses.encard = F.cofactorClasses.encard + 1 := by
  rw [cofactorClasses_conjunction hv h hF]
  apply Set.encard_insert_of_notMem
  intro ⟨k, β, _, hc⟩
  exact upToSign_conjunction_ne h hF (h.fixAbove k β) hc

/-- A variable has one cofactor class. -/
theorem encard_cofactorClasses_var (hv : 1 ≤ v) : (var v).cofactorClasses.encard = 1 := by
  have hvar : all [const true, var v] = var v := by
    funext α
    rw [all_var_apply, const_apply, Bool.true_and, var_apply]
  have hcard := encard_cofactorClasses_conjunction hv (below_const true) ⟨fun _ => true, rfl⟩
  rwa [hvar, cofactorClasses_const, Set.encard_empty, zero_add] at hcard

end Above

end BoolFn

end SatMemo
