import SatMemo.Cnf.Basic
import SatMemo.Worklist

/-! # Search by branching

    An exact search by unit propagation and branching.  A clause of one literal
    forces that literal; where there is none, the search branches on the first
    literal of the first clause.  Every step takes a literal out of the clauses,
    so the search ends. -/

namespace SatMemo

namespace Cnf

/-- The clauses under the assumption of `l`: those with `l` are settled, and the other
    literal of its variable is of no more use. -/
def assume (l : Literal) (clauses : List Clause) : List Clause :=
  (clauses.filter fun c => l ∉ c).map fun c => c.filter fun k => k ≠ -l

/-- Number of literals, counted with repetition. -/
def literalCount (clauses : List Clause) : Nat :=
  totalWeight List.length clauses

/-- The literal of the first clause that has only one. -/
def unit? : List Clause → Option Literal
  | []         => none
  | [l] :: _   => some l
  | _ :: rest  => unit? rest

/-! ## An assumption shortens the clauses -/

@[simp] theorem literalCount_cons (c : Clause) (cs : List Clause) :
    literalCount (c :: cs) = c.length + literalCount cs := rfl

theorem assume_cons (l : Literal) (c : Clause) (cs : List Clause) :
    assume l (c :: cs) =
      if l ∈ c then assume l cs else c.filter (fun k => k ≠ -l) :: assume l cs := by
  by_cases h : l ∈ c <;> simp [assume, h]

theorem literalCount_assume_le (l : Literal) (cs : List Clause) :
    literalCount (assume l cs) ≤ literalCount cs := by
  induction cs with
  | nil => simp [assume]
  | cons c cs ih =>
      rw [assume_cons]
      split
      · simp only [literalCount_cons]; omega
      · have := List.length_filter_le (fun k => k ≠ -l) c
        simp only [literalCount_cons]; omega

/-- Assuming a literal that occurs, with either sign, leaves fewer literals. -/
theorem literalCount_assume_lt {l : Literal} {cs : List Clause}
    (h : ∃ c ∈ cs, l ∈ c ∨ -l ∈ c) : literalCount (assume l cs) < literalCount cs := by
  induction cs with
  | nil => simp at h
  | cons c cs ih =>
      have hle := literalCount_assume_le l cs
      rw [assume_cons]
      split
      · rename_i hc
        have := List.length_pos_of_mem hc
        simp only [literalCount_cons]; omega
      · rename_i hc
        simp only [literalCount_cons]
        by_cases hn : -l ∈ c
        · have : (c.filter fun k => k ≠ -l).length < c.length :=
            List.length_filter_lt_length_iff_exists.2 ⟨-l, hn, by simp⟩
          omega
        · have := List.length_filter_le (fun k => k ≠ -l) c
          have := ih (by
            obtain ⟨d, hd, h⟩ := h
            rcases List.mem_cons.1 hd with rfl | hd
            · exact absurd h (by simp [hc, hn])
            · exact ⟨d, hd, h⟩)
          omega

theorem mem_of_unit? {l : Literal} {cs : List Clause} (h : unit? cs = some l) : [l] ∈ cs := by
  fun_induction unit? cs with
  | case1 => simp at h
  | case2 => simp_all
  | case3 _ _ _ ih => exact List.mem_cons_of_mem _ (ih h)

/-! ## The search -/

/-- Can all the clauses be made true at once? -/
def branch (clauses : List Clause) : Bool :=
  match _h : unit? clauses with
  | some l => branch (assume l clauses)
  | none   =>
      match clauses with
      | []              => true
      | [] :: _         => false
      | (l :: c) :: cs  =>
          branch (assume l ((l :: c) :: cs)) || branch (assume (-l) ((l :: c) :: cs))
termination_by literalCount clauses
decreasing_by
  · exact literalCount_assume_lt ⟨[l], mem_of_unit? _h, by simp⟩
  · exact literalCount_assume_lt ⟨l :: c, by simp, by simp⟩
  · exact literalCount_assume_lt ⟨l :: c, by simp, by simp⟩

/-! ## The search is exact -/

/-- Where `l` is true, assuming it changes nothing. -/
theorem eval_assume {α : Nat → Bool} {l : Literal} (h : l.eval α = true) (cs : List Clause) :
    eval α (assume l cs) = eval α cs := by
  have hn : (-l).eval α = false := by simp [h]
  rw [Bool.eq_iff_iff, eval_eq_true_iff, eval_eq_true_iff]
  constructor
  · intro H c hc
    by_cases hl : l ∈ c
    · exact ⟨l, hl, h⟩
    · have hm : c.filter (fun k => k ≠ -l) ∈ assume l cs :=
        List.mem_map.2 ⟨c, List.mem_filter.2 ⟨hc, by simpa using hl⟩, rfl⟩
      obtain ⟨k, hk, he⟩ := H _ hm
      exact ⟨k, (List.mem_filter.1 hk).1, he⟩
  · intro H d hd
    obtain ⟨c, hc, rfl⟩ := List.mem_map.1 hd
    obtain ⟨k, hk, he⟩ := H c (List.mem_filter.1 hc).1
    refine ⟨k, List.mem_filter.2 ⟨hk, ?_⟩, he⟩
    have : k ≠ -l := by
      rintro rfl
      simp [hn] at he
    simpa using this

/-- An assignment for the clauses under an assumption can be changed to make the assumption
    true as well. -/
theorem exists_of_assume {l : Literal} {cs : List Clause}
    (h : ∃ α, eval α (assume l cs) = true) : ∃ α, eval α cs = true ∧ l.eval α = true := by
  obtain ⟨α, hα⟩ := h
  let β : Nat → Bool := fun v => if v = l.var then !l.isNegated else α v
  have hl : l.eval β = true := by simp [β, Literal.eval]
  refine ⟨β, ?_, hl⟩
  rw [← eval_assume hl, eval_eq_true_iff]
  intro d hd
  obtain ⟨k, hk, he⟩ := eval_eq_true_iff.1 hα d hd
  refine ⟨k, hk, ?_⟩
  obtain ⟨c, hc, rfl⟩ := List.mem_map.1 hd
  have hk1 : k ≠ -l := by simpa using (List.mem_filter.1 hk).2
  have hk2 : k ≠ l := by
    rintro rfl
    have := (List.mem_filter.1 hc).2
    exact absurd (List.mem_filter.1 hk).1 (by simpa using this)
  have : k.var ≠ l.var := fun hv => (Literal.eq_or_eq_neg hv).elim hk2 hk1
  simpa [β, Literal.eval, this] using he

/-- The clauses can be made true exactly if they can under `l` or under its complement. -/
theorem exists_iff_assume (l : Literal) (cs : List Clause) :
    (∃ α, eval α cs = true)
      ↔ (∃ α, eval α (assume l cs) = true) ∨ ∃ α, eval α (assume (-l) cs) = true := by
  constructor
  · rintro ⟨α, hα⟩
    cases h : l.eval α with
    | true => exact .inl ⟨α, by rw [eval_assume h, hα]⟩
    | false => exact .inr ⟨α, by rw [eval_assume (by simp [h]), hα]⟩
  · rintro (h | h)
    · exact (exists_of_assume h).imp fun _ => And.left
    · exact (exists_of_assume h).imp fun _ => And.left

theorem branch_iff (cs : List Clause) : branch cs = true ↔ ∃ α, eval α cs = true := by
  fun_induction branch cs with
  | case1 cs l h ih =>
      rw [ih, exists_iff_assume l cs]
      refine ⟨.inl, fun H => H.elim id ?_⟩
      rintro ⟨α, hα⟩
      obtain ⟨β, hβ, hl⟩ := exists_of_assume ⟨α, hα⟩
      obtain ⟨k, hk, he⟩ := eval_eq_true_iff.1 hβ [l] (mem_of_unit? h)
      simp at hk
      subst hk
      simp [he] at hl
  | case2 => simp [eval]
  | case3 => simp [eval]
  | case4 l c cs _ ih₁ ih₂ => rw [Bool.or_eq_true, ih₁, ih₂, ← exists_iff_assume]

end Cnf

end SatMemo
