import SatMemo.Proofs.Oracle.Scripts

/-! # Answers by position

    The handles of a reading stay what they are while the script goes on, so one
    reading, that of the whole script, says what every question in it is about.
    The answer to a question stands in the list of answers where the question
    stands in the script, and it is the verdict on the handle by that reading,
    however much was made, built and asked before. -/

namespace SatMemo

namespace Oracle

open Library (Lawful)

/-! ## Readings of longer scripts -/

namespace Reading

variable {r : Reading} {c : Call Nat} {script later : Script} {k : Nat}

theorem run_append : r.run (script ++ later) = (r.run script).run later :=
  List.foldl_append

theorem admits_append :
    r.Admits (script ++ later) ↔ r.Admits script ∧ (r.run script).Admits later := by
  induction script generalizing r with
  | nil =>
    show r.Admits later ↔ True ∧ r.Admits later
    rw [true_and]
  | cons c script ih =>
    show (_ ∧ (r.after c).Admits (script ++ later)) ↔ (_ ∧ (r.after c).Admits script) ∧ _
    rw [ih, and_assoc]
    rfl

/-- A call returns a handle or none. -/
theorem handles_after : r.handles <+: (r.after c).handles := by
  cases c with
  | build k => exact List.prefix_refl _
  | isSatisfiable k => exact List.prefix_refl _
  | _ => exact List.prefix_append _ _

theorem handles_run : r.handles <+: (r.run script).handles := by
  induction script generalizing r with
  | nil => exact List.prefix_refl _
  | cons c script ih => exact handles_after.trans ih

/-- A handle stays what it is. -/
theorem handle_run (hk : k < r.handles.length) : (r.run script).handle k = r.handle k := by
  have hprefix : r.handles <+: (r.run script).handles := handles_run
  obtain ⟨more, hmore⟩ := hprefix
  unfold handle
  rw [← hmore, List.getD_eq_getElem?_getD, List.getD_eq_getElem?_getD,
    List.getElem?_append_left hk]

/-- Every operand is one of the handles in the end. -/
theorem operand_lt (h : r.Admits script) {j : Nat} (hj : script[j]? = some c)
    (hk : k ∈ c.operands) : k < (r.run script).handles.length := by
  induction script generalizing r j with
  | nil => cases hj
  | cons c' script ih =>
    obtain ⟨hc, hscript⟩ := h
    cases j with
    | zero =>
      obtain rfl : c' = c := Option.some.inj hj
      have hlt : k < r.handles.length := hc k hk
      exact Nat.lt_of_lt_of_le hlt handles_run.length_le
    | succ j => exact ih hscript hj

open Classical in
/-- The right answer to a question about the handle. -/
noncomputable def verdict (r : Reading) (k : Nat) : Bool :=
  decide (r.handle k).Satisfiable

theorem verdict_iff : r.verdict k = true ↔ (r.handle k).Satisfiable := by
  classical
  exact decide_eq_true_iff

theorem verdict_run (hk : k < r.handles.length) : (r.run script).verdict k = r.verdict k := by
  unfold verdict
  rw [handle_run hk]

end Reading

/-- So does the node that it is. -/
theorem handle_append {answers : List Answer} {k : Nat} (hk : k < (handles answers).length)
    (more : List Answer) : handle (answers ++ more) k = handle answers k := by
  have hhandles : handles (answers ++ more) = handles answers ++ handles more := by
    unfold handles
    exact List.filterMap_append
  unfold handle
  rw [hhandles, List.getD_eq_getElem?_getD, List.getD_eq_getElem?_getD,
    List.getElem?_append_left hk]

/-! ## Scripts on faithful oracles -/

/-- To each call its answer, and every question about a handle has the right one. -/
structure Replies (r : Reading) (script : Script) (answers : List Answer) : Prop where
  length   : answers.length = script.length
  verdicts : ∀ ⦃j k : Nat⦄, script[j]? = some (.isSatisfiable k) →
    answers[j]? = some (.verdict (r.verdict k))

variable {ε σ τ : Type} [Library ε] [Lawful ε] [Decider σ τ] {s₀ : σ} {o o' : Oracle ε σ τ}
  {r : Reading} {answers : List Answer} {a : Answer} {k : Nat}

/-- The answer that makes the reading right again after a question. -/
theorem Follows.answer_eq (h : Follows s₀ r answers o)
    (h' : Follows s₀ (r.after (.isSatisfiable k)) (answers ++ [a]) o') :
    a = .verdict (r.verdict k) := by
  have hlast : Oracle.verdicts (answers ++ [a]) = Oracle.verdicts answers ++ [r.verdict k] := by
    rw [h'.verdicts, h.verdicts]
    unfold Reading.verdicts
    rw [Reading.after, List.map_append]
    rfl
  have hsplit : Oracle.verdicts (answers ++ [a])
      = Oracle.verdicts answers ++ Oracle.verdicts [a] := by
    unfold Oracle.verdicts
    exact List.filterMap_append
  have hone : Oracle.verdicts [a] = [r.verdict k] :=
    List.append_cancel_left (hsplit.symm.trans hlast)
  cases a with
  | node n => cases hone
  | entry i => cases hone
  | verdict b => exact congrArg Answer.verdict (List.cons.inj hone).1

/-- A script on a faithful oracle, with the answers by position. -/
theorem Follows.gives_replies (hexact : Decider.Exact s₀) (h : Follows s₀ r answers o)
    {script : Script} (hscript : r.Admits script) :
    ∃ more o', play script answers o = .ok (answers ++ more) o' ∧
      Replies (r.run script) script more ∧ Follows s₀ (r.run script) (answers ++ more) o' := by
  induction script generalizing r answers o with
  | nil =>
    refine ⟨[], o, ?_, ⟨rfl, nofun⟩, ?_⟩
    · rw [List.append_nil]
      rfl
    · rw [List.append_nil]
      exact h
  | cons c script ih =>
    obtain ⟨hc, hscript⟩ := hscript
    obtain ⟨a, o₁, hperform, h₁⟩ := h.gives_perform hexact c hc
    obtain ⟨more, o', hplay, hreplies, h'⟩ := ih h₁ hscript
    rw [List.append_assoc] at hplay h'
    refine ⟨a :: more, o', (bind_ok hperform).trans hplay, ⟨?_, ?_⟩, h'⟩
    · exact congrArg (· + 1) hreplies.length
    · intro j k hj
      cases j with
      | zero =>
        -- The handle was returned before, so the rest of the script leaves it alone.
        obtain rfl : c = .isSatisfiable k := Option.some.inj hj
        have hk : k < r.handles.length := hc k (List.mem_singleton.2 rfl)
        have hkeep : (r.run (.isSatisfiable k :: script)).verdict k = r.verdict k :=
          Reading.verdict_run hk
        rw [hkeep, h.answer_eq h₁]
        rfl
      | succ j => exact hreplies.verdicts hj

/-- A script on a new oracle. -/
theorem exists_replies (hexact : Decider.Exact s₀) {lib : ε} (hwf : Lawful.Wf lib)
    (settings : Settings) (watched : Bool) (setup : List Event) {script : Script}
    (hscript : Reading.empty.Admits script) :
    ∃ answers o, play script [] (start lib s₀ settings watched setup) = .ok answers o ∧
      Replies (Reading.empty.run script) script answers := by
  have h : Follows s₀ .empty [] (start lib s₀ settings watched setup) :=
    follows_start hwf settings watched setup
  obtain ⟨answers, o, hplay, hreplies, -⟩ := h.gives_replies hexact hscript
  exact ⟨answers, o, hplay, hreplies⟩

end Oracle

end SatMemo
