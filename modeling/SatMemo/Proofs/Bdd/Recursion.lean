import SatMemo.Proofs.Bdd.Formed

/-! # If-then-else as a recursion

    The list of tasks and the stack of results of `ite` work off a plain
    recursion: one step, and, if it splits, the high half, the low half and the
    branch over both answers.  `ite_eq_solve` says so for whole runs, state and
    events included; every property of `ite` is proved about the recursion.

    The recursion is as deep as the indices of the three operands allow.  A
    split replaces an operand by a child, whose index is smaller, and puts
    nothing greater in the place of the others, so that the sum of the indices
    goes down.  The order of variables plays no part in this. -/

namespace SatMemo

namespace Bdd

/-! ## The recursion -/

/-- Answer a triple, splitting it at most `depth` levels deep. -/
def solve : (depth : Nat) → Bdd → Triple → Reply Bdd Edge
  | 0, m, _         => .fail .endlessDescent m
  | depth + 1, m, t =>
      match m.step t with
      | (.error fault, m)  => .fail fault m
      | (.ok (.done r), m) => .ok r m
      | (.ok (.split v key flip high low), m) =>
          (solve depth m high).andThen fun e₁ m =>
            (solve depth m low).andThen fun e₀ m =>
              (m.join v key e₀ e₁).andThen fun r m => .ok (r.negateIf flip) m

/-- What is left to do once the first task is answered. -/
def resume (rest : List Task) (results : List Edge) (events : List Event) (r : Reply Bdd Edge) :
    Reply Bdd Edge :=
  match r with
  | ⟨.ok e, m, later⟩        => m.runTasks rest (e :: results) (later.reverse ++ events)
  | ⟨.error fault, m, later⟩ => ⟨.error fault, m, events.reverse ++ later⟩

/-- A join reports one event or none, and none if it faults. -/
theorem join_cases (m : Bdd) (v : Nat) (key : Triple) (low high : Edge) :
    (∃ r m', m.join v key low high = ⟨.ok r, m', [.joined key.f key.g key.h r]⟩) ∨
    ∃ fault m', m.join v key low high = .fail fault m' := by
  unfold join
  split
  · exact .inl ⟨_, _, rfl⟩
  · exact .inr ⟨_, _, rfl⟩

/-- The list of tasks works off a call as the recursion does, whatever is behind it. -/
theorem runTasks_call (depth : Nat) (m : Bdd) (t : Triple) (rest : List Task)
    (results : List Edge) (events : List Event) :
    m.runTasks (.call depth t :: rest) results events
      = resume rest results events (solve depth m t) := by
  induction depth generalizing m t rest results events with
  | zero =>
    rw [runTasks]
    simp [solve, resume, Reply.fail]
  | succ depth ih =>
    rw [runTasks, solve]
    rcases hs : m.step t with ⟨fault | step, m₁⟩
    · simp [resume, Reply.fail]
    · cases step with
      | done r => simp [resume, Reply.ok]
      | split v key flip high low =>
        simp only
        rw [ih]
        -- The high half first; its answer goes to the bottom of the results.
        rcases h₁ : solve depth m₁ high with ⟨fault | e₁, m₂, events₁⟩
        · simp [resume, Reply.andThen]
        · simp only [resume, Reply.andThen]
          rw [ih]
          rcases h₀ : solve depth m₂ low with ⟨fault | e₀, m₃, events₀⟩
          · simp [resume]
          · simp only [resume]
            rw [runTasks]
            -- Then the low half; the two answers are joined.
            rcases join_cases m₃ v key e₀ e₁ with ⟨r, m₄, hj⟩ | ⟨fault, m₄, hj⟩
            · simp [hj, Reply.ok]
            · simp [hj, Reply.fail]

/-- If-then-else is the recursion from the diagram's own depth. -/
theorem ite_eq_solve (m : Bdd) (f g h : Edge) :
    m.ite f g h = solve m.splitDepth m ⟨f, g, h⟩ := by
  rw [ite, runTasks_call]
  rcases solve m.splitDepth m ⟨f, g, h⟩ with ⟨fault | r, m', events⟩
  · simp [resume]
  · simp [resume, runTasks]

end Bdd

end SatMemo
