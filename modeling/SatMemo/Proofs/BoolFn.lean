/-! # Boolean functions

    What a formula means: a truth value for every assignment of the numbered
    variables.  Every call that makes something is read as one of the operations
    below, applied to the functions of its operands, so that two objects stand
    for the same formula up to equivalence exactly if their functions are
    equal. -/

namespace SatMemo

abbrev BoolFn := (Nat → Bool) → Bool

namespace BoolFn

/-! ## Operations -/

def const (b : Bool) : BoolFn :=
  fun _ => b

def var (v : Nat) : BoolFn :=
  fun α => α v

def not (F : BoolFn) : BoolFn :=
  fun α => !F α

/-- Conjunction of a list; of the empty list, true. -/
def all (Fs : List BoolFn) : BoolFn :=
  fun α => Fs.all fun F => F α

/-- Disjunction of a list; of the empty list, false. -/
def any (Fs : List BoolFn) : BoolFn :=
  fun α => Fs.any fun F => F α

/-- `G` where `F` is true and `H` where it is false. -/
def ite (F G H : BoolFn) : BoolFn :=
  fun α => if F α then G α else H α

/-- The function in another numbering of the variables. -/
def rename (ν : Nat → Nat) (F : BoolFn) : BoolFn :=
  fun α => F fun i => α (ν i)

/-- Some assignment makes the function true. -/
def Satisfiable (F : BoolFn) : Prop :=
  ∃ α, F α = true

/-! ## Small laws -/

@[simp] theorem const_apply (b : Bool) (α : Nat → Bool) : const b α = b := rfl

@[simp] theorem var_apply (v : Nat) (α : Nat → Bool) : var v α = α v := rfl

@[simp] theorem not_apply (F : BoolFn) (α : Nat → Bool) : F.not α = !F α := rfl

@[simp] theorem ite_apply (F G H : BoolFn) (α : Nat → Bool) :
    ite F G H α = if F α then G α else H α := rfl

theorem all_apply (Fs : List BoolFn) (α : Nat → Bool) : all Fs α = Fs.all fun F => F α := rfl

theorem any_apply (Fs : List BoolFn) (α : Nat → Bool) : any Fs α = Fs.any fun F => F α := rfl

/-! ## Names -/

/-- Where no two variables have the same name, any values of them come from values of the
    names. -/
theorem exists_values_of_names {p : Nat → Prop} {name : Nat → String}
    (hname : ∀ {j k}, p j → p k → name j = name k → j = k) (α : Nat → Bool) :
    ∃ ρ : String → Bool, ∀ k, p k → ρ (name k) = α k := by
  classical
  refine ⟨fun s => decide (∃ k, p k ∧ name k = s ∧ α k = true), fun k hk => ?_⟩
  rw [Bool.eq_iff_iff, decide_eq_true_iff]
  constructor
  · rintro ⟨j, hj, hjk, hα⟩
    rwa [← hname hj hk hjk]
  · intro hα
    exact ⟨k, hk, rfl, hα⟩

/-! ## Lists -/

section Lists

variable {ι τ : Type}

/-- Only what holds of the elements of a list matters. -/
theorem list_all_congr {xs : List ι} {p q : ι → Bool} (h : ∀ x ∈ xs, p x = q x) :
    xs.all p = xs.all q := by
  rw [Bool.eq_iff_iff, List.all_eq_true, List.all_eq_true]
  exact forall₂_congr fun x hx => by rw [h x hx]

theorem list_any_congr {xs : List ι} {p q : ι → Bool} (h : ∀ x ∈ xs, p x = q x) :
    xs.any p = xs.any q := by
  rw [Bool.eq_iff_iff, List.any_eq_true, List.any_eq_true]
  exact exists_congr fun x => and_congr_right fun hx => by rw [h x hx]

variable {xs : List (τ × BoolFn)} {value : τ → Bool} {α : Nat → Bool}

/-- If every object has the value of its function, so have all of them together. -/
theorem all_fst_eq (h : ∀ x ∈ xs, value x.1 = x.2 α) :
    (xs.map Prod.fst).all value = all (xs.map Prod.snd) α := by
  rw [all_apply, List.all_map, List.all_map]
  exact list_all_congr h

theorem any_fst_eq (h : ∀ x ∈ xs, value x.1 = x.2 α) :
    (xs.map Prod.fst).any value = any (xs.map Prod.snd) α := by
  rw [any_apply, List.any_map, List.any_map]
  exact list_any_congr h

end Lists

theorem rename_apply (ν : Nat → Nat) (F : BoolFn) (α : Nat → Bool) :
    F.rename ν α = F fun i => α (ν i) := rfl

theorem rename_all (ν : Nat → Nat) (Fs : List BoolFn) :
    (all Fs).rename ν = all (Fs.map (rename ν)) := by
  funext α
  rw [rename_apply, all_apply, all_apply, List.all_map]
  rfl

theorem rename_any (ν : Nat → Nat) (Fs : List BoolFn) :
    (any Fs).rename ν = any (Fs.map (rename ν)) := by
  funext α
  rw [rename_apply, any_apply, any_apply, List.any_map]
  rfl

/-- A numbering without repetitions makes no difference to satisfiability. -/
theorem satisfiable_rename_iff (ν ν' : Nat → Nat) (hν : ∀ i, ν' (ν i) = i) {F : BoolFn} :
    (F.rename ν).Satisfiable ↔ F.Satisfiable := by
  constructor
  · rintro ⟨α, hα⟩
    exact ⟨_, hα⟩
  · rintro ⟨α, hα⟩
    refine ⟨fun i => α (ν' i), ?_⟩
    rw [rename_apply]
    simpa only [hν] using hα

/-! ## Functions of the first variables -/

section FirstVariables

variable {v w : Nat} {F : BoolFn} {Fs : List BoolFn}

/-- The function looks at the first `v` variables only. -/
def Below (v : Nat) (F : BoolFn) : Prop :=
  ∀ ⦃α β : Nat → Bool⦄, (∀ i, i < v → α i = β i) → F α = F β

theorem below_const (b : Bool) : Below v (const b) :=
  fun _ _ _ => rfl

theorem below_var (h : w < v) : Below v (var w) :=
  fun _ _ hαβ => hαβ w h

theorem Below.not (h : F.Below v) : F.not.Below v :=
  fun _ _ hαβ => congrArg Bool.not (h hαβ)

theorem below_all (h : ∀ F ∈ Fs, F.Below v) : (all Fs).Below v :=
  fun _ _ hαβ => list_all_congr fun F hF => h F hF hαβ

theorem below_any (h : ∀ F ∈ Fs, F.Below v) : (any Fs).Below v :=
  fun _ _ hαβ => list_any_congr fun F hF => h F hF hαβ

theorem Below.mono (h : F.Below v) (hvw : v ≤ w) : F.Below w :=
  fun _ _ hαβ => h fun i hi => hαβ i (Nat.lt_of_lt_of_le hi hvw)

/-- A value of the function is had with either value of the next variable. -/
theorem Below.exists_with (h : F.Below v) (hF : F.Satisfiable) (b : Bool) :
    ∃ α, F α = true ∧ α v = b := by
  obtain ⟨α, hα⟩ := hF
  refine ⟨fun i => if i = v then b else α i, ?_, if_pos rfl⟩
  rw [← hα]
  exact h fun i hi => if_neg (Nat.ne_of_lt hi)

/-- A literal over the next variable is no constraint. -/
theorem Below.satisfiable_and (h : F.Below v) {L : BoolFn} (b : Bool)
    (hL : ∀ α, α v = b → L α = true) : (all [F, L]).Satisfiable ↔ F.Satisfiable := by
  constructor
  · rintro ⟨α, hα⟩
    rw [all_apply, List.all_eq_true] at hα
    exact ⟨α, hα F (List.mem_cons_self ..)⟩
  · intro hF
    obtain ⟨α, hα, hb⟩ := h.exists_with hF b
    refine ⟨α, ?_⟩
    rw [all_apply, List.all_eq_true]
    intro G hG
    rcases List.mem_cons.1 hG with rfl | hG
    · exact hα
    · rw [List.mem_singleton.1 hG]
      exact hL α hb

theorem satisfiable_var (v : Nat) : (var v).Satisfiable :=
  ⟨fun _ => true, rfl⟩

theorem satisfiable_not_var (v : Nat) : (var v).not.Satisfiable :=
  ⟨fun _ => false, rfl⟩

end FirstVariables

end BoolFn

end SatMemo
