import SatMemo.Cnf.Basic

/-! # Consequences of clauses

    A consequence is a clause together with the proof that it follows from given
    ones.  New consequences are derived by unit propagation: suppose every
    literal of a clause false, read further literals off known consequences, and
    if one of these is contradicted, the clause follows.  Which consequences to
    look at, and in which order, may be guessed in any way. -/

namespace SatMemo

namespace Cnf

variable {F : List Clause}

/-- A clause that follows from `F`. -/
structure Consequence (F : List Clause) where
  literals : Array Literal
  entailed : Entails F literals.toList

/-! ## Known literals -/

/-- Literals, marked by their codes, that are known to be true.  With a mark above `now` a
    literal is true wherever `F` is, with the mark `now` wherever `F` and the assumed
    literals are.  Lower marks are left over from earlier assumptions and mean nothing. -/
structure Known (F : List Clause) (assumed : List Literal) where
  marks   : Array Nat
  now     : Nat
  lasting : ∀ α, eval α F = true →
    ∀ l : Literal, now < marks.getD l.code 0 → l.eval α = true
  current : ∀ α, eval α F = true → (∀ l ∈ assumed, l.eval α = true) →
    ∀ l : Literal, marks.getD l.code 0 = now → l.eval α = true

namespace Known

variable {assumed : List Literal}

/-- Room for the literals whose codes are below `size`, with nothing known. -/
def empty (F : List Clause) (size : Nat) : Known F [] where
  marks := Array.replicate size 0
  now   := 1
  lasting := by
    intro α _ l hl
    by_cases h : l.code < size <;> simp [Array.getD, h] at hl
  current := by
    intro α _ _ l hl
    by_cases h : l.code < size <;> simp [Array.getD, h] at hl

/-- Is a literal known to be false? -/
def isFalse (k : Known F assumed) (l : Literal) : Bool :=
  k.now ≤ k.marks.getD (-l).code 0

theorem eval_of_le {k : Known F assumed} {l : Literal} (h : k.now ≤ k.marks.getD l.code 0)
    {α : Nat → Bool} (hF : eval α F = true) (hA : ∀ l ∈ assumed, l.eval α = true) :
    l.eval α = true := by
  rcases Nat.lt_or_eq_of_le h with h | h
  · exact k.lasting α hF l h
  · exact k.current α hF hA l h.symm

theorem eval_of_isFalse {k : Known F assumed} {l : Literal} (h : k.isFalse l = true)
    {α : Nat → Bool} (hF : eval α F = true) (hA : ∀ l ∈ assumed, l.eval α = true) :
    l.eval α = false := by
  have := eval_of_le (of_decide_eq_true h) hF hA
  simpa using this

/-- The mark of a literal that is found to be true.  Where nothing is assumed it is meant to
    last. -/
def stamp (k : Known F assumed) : Nat :=
  if assumed.isEmpty then k.now + (1 <<< 60) else k.now

theorem eq_nil_of_lt_stamp {k : Known F assumed} (h : k.now < k.stamp) : assumed = [] := by
  unfold stamp at h
  split at h
  · exact List.isEmpty_iff.1 ‹_›
  · exact absurd h (Nat.lt_irrefl _)

theorem getD_setIfInBounds (marks : Array Nat) (i j m : Nat) :
    i = j ∧ (marks.setIfInBounds i m).getD j 0 = m ∨
      (marks.setIfInBounds i m).getD j 0 = marks.getD j 0 := by
  by_cases hij : i = j
  · subst hij
    by_cases hi : i < marks.size <;> simp [Array.getD_eq_getD_getElem?, hi]
  · right
    simp [Array.getD_eq_getD_getElem?, hij]

/-- Mark one more literal. -/
def mark (k : Known F assumed) (l : Literal)
    (h : ∀ α, eval α F = true → (∀ l ∈ assumed, l.eval α = true) → l.eval α = true) :
    Known F assumed where
  marks := k.marks.setIfInBounds l.code k.stamp
  now   := k.now
  lasting := by
    intro α hF l' hl'
    rcases getD_setIfInBounds k.marks l.code l'.code k.stamp with ⟨hc, hm⟩ | hm
    · obtain rfl : l = l' := congrArg Literal.mk hc
      exact h α hF (by simp [eq_nil_of_lt_stamp (hm ▸ hl')])
    · exact k.lasting α hF l' (hm ▸ hl')
  current := by
    intro α hF hA l' hl'
    rcases getD_setIfInBounds k.marks l.code l'.code k.stamp with ⟨hc, _⟩ | hm
    · obtain rfl : l = l' := congrArg Literal.mk hc
      exact h α hF hA
    · exact k.current α hF hA l' (hm ▸ hl')

/-- Mark literals that are all assumed. -/
def markAll (k : Known F assumed) : (ls : List Literal) → (∀ l ∈ ls, l ∈ assumed) → Known F assumed
  | [], _      => k
  | l :: ls, h =>
      (k.mark l fun _ _ hA => hA l (h l (by simp))).markAll ls
        fun l' hl' => h l' (List.mem_cons_of_mem _ hl')

/-- Assume other literals, none of which is marked yet. -/
def renew (k : Known F assumed) (ls : List Literal) : Known F ls where
  marks   := k.marks
  now     := k.now + 1
  lasting := fun α hF l hl => k.lasting α hF l (Nat.lt_of_succ_lt hl)
  current := fun α hF _ l hl => k.lasting α hF l (by omega)

/-- Assume other literals. -/
def suppose (k : Known F assumed) (ls : List Literal) : Known F ls :=
  (k.renew ls).markAll ls fun _ h => h

/-! ## Unit propagation -/

/-- What comes of looking at a consequence. -/
inductive Outcome (F : List Clause) (assumed : List Literal) where
  /-- The assumptions are not all true anywhere where `F` is. -/
  | contradiction (k : Known F assumed)
      (h : ∀ α, eval α F = true → ¬ ∀ l ∈ assumed, l.eval α = true)
  /-- Perhaps one more literal is known. -/
  | known (k : Known F assumed)

theorem exists_open {k : Known F assumed} {c : Consequence F} {α : Nat → Bool}
    (hF : eval α F = true) (hA : ∀ l ∈ assumed, l.eval α = true) :
    ∃ l ∈ c.literals.filter (fun l => !k.isFalse l), l.eval α = true := by
  obtain ⟨l, hl, he⟩ := List.any_eq_true.1 (c.entailed α hF)
  refine ⟨l, ?_, he⟩
  refine Array.mem_filter.2 ⟨Array.mem_toList_iff.1 hl, ?_⟩
  cases h : k.isFalse l with
  | false => rfl
  | true => simp [eval_of_isFalse h hF hA] at he

/-- Look at a consequence: if all its literals but one are known to be false, that one is
    true. -/
def use (k : Known F assumed) (c : Consequence F) : Outcome F assumed :=
  match h : (c.literals.filter fun l => !k.isFalse l).toList with
  | []  => .contradiction k fun α hF hA => by
      obtain ⟨l, hl, _⟩ := exists_open (k := k) (c := c) hF hA
      rw [← Array.mem_toList_iff, h] at hl
      simp at hl
  | [l] => .known <| k.mark l fun α hF hA => by
      obtain ⟨l', hl', he⟩ := exists_open (k := k) (c := c) hF hA
      rw [← Array.mem_toList_iff, h] at hl'
      simp at hl'
      exact hl' ▸ he
  | _   => .known k

/-- Look at consequences in turn, up to a contradiction. -/
def useAll (k : Known F assumed) : List (Consequence F) → Outcome F assumed
  | []      => .known k
  | c :: cs =>
      match k.use c with
      | .contradiction k h => .contradiction k h
      | .known k           => k.useAll cs

end Known

/-! ## Deriving clauses -/

/-- The clause `target` as a consequence, if looking at `hints` in turn contradicts the
    supposition that all its literals are false. -/
def derive? (facts : Known F []) (target : Array Literal) (hints : List (Consequence F)) :
    Option (Consequence F) × Known F [] :=
  match (facts.suppose (target.toList.map fun l => -l)).useAll hints with
  | .known k           => (none, k.renew [])
  | .contradiction k h =>
      let derived : Consequence F :=
        { literals := target
          entailed := by
            intro α hF
            apply Classical.byContradiction
            intro hc
            refine h α hF fun l hl => ?_
            obtain ⟨l', hl', rfl⟩ := List.mem_map.1 hl
            have : l'.eval α = false := by
              cases he : l'.eval α with
              | false => rfl
              | true => exact absurd (List.any_eq_true.2 ⟨l', hl', he⟩) hc
            simp [this] }
      (some derived, k.renew [])

end Cnf

end SatMemo
