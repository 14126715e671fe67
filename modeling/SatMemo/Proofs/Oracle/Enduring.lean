import SatMemo.Proofs.Cnf.Exact
import SatMemo.Proofs.Oracle.Failing
import SatMemo.Proofs.Oracle.Exactness

/-! # Runs that endure failures

    `endure` makes the calls of a script one after the other and goes on when one
    of them is refused.  With a decider that falters only questions are refused,
    and they do no harm: whatever is answered is what the decider inside would
    have let answer, entries last until they are decided, and what was refused can
    be asked again without another bounded check.

    The schedule of failures is any function, so it fails at will: for whatever
    reasons a decider may leave queries unanswered, in a given run it does so
    according to some schedule.  In the same way a solver may be interrupted
    whenever it likes, as long as what it does answer is right. -/

namespace SatMemo

namespace Oracle

open Library (contains Lawful Extends)

variable {δ ε σ τ : Type} [Library ε]

/-! ## Going on -/

/-- Make the calls of a script, after calls that were answered with `answers`, also when some
    are refused: what each of them came to, and the oracle in the end. -/
def endure [Decider σ τ] : Script → List Answer → Oracle ε σ τ →
    List (Except Stop Answer) × Oracle ε σ τ
  | [], _, o                => ([], o)
  | c :: script, answers, o =>
      match perform (c.map (handle answers)) o with
      | .ok a o₁ =>
          let rest := endure script (answers ++ [a]) o₁
          (.ok a :: rest.1, rest.2)
      | .error stop o₁ =>
          let rest := endure script answers o₁
          (.error stop :: rest.1, rest.2)

/-- The answers among the outcomes. -/
def accepted (outcomes : List (Except Stop Answer)) : List Answer :=
  outcomes.filterMap Except.toOption

theorem append_accepted (answers : List Answer) (a : Answer)
    (outcomes : List (Except Stop Answer)) :
    answers ++ accepted (.ok a :: outcomes) = answers ++ [a] ++ accepted outcomes := by
  rw [List.append_assoc]
  rfl

section Endure

variable [Decider σ τ] {o o₁ : Oracle ε σ τ} {answers : List Answer} {script later : Script}
  {c : Call Nat}

theorem endure_of_ok {a : Answer} (h : perform (c.map (handle answers)) o = .ok a o₁) :
    endure (c :: script) answers o = (.ok a :: (endure script (answers ++ [a]) o₁).1,
      (endure script (answers ++ [a]) o₁).2) := by
  rw [endure, h]

theorem endure_of_error {stop : Stop}
    (h : perform (c.map (handle answers)) o = .error stop o₁) :
    endure (c :: script) answers o = (.error stop :: (endure script answers o₁).1,
      (endure script answers o₁).2) := by
  rw [endure, h]

/-- A script goes on where another one has ended. -/
theorem endure_append : endure (script ++ later) answers o =
    ((endure script answers o).1 ++
        (endure later (answers ++ accepted (endure script answers o).1)
          (endure script answers o).2).1,
      (endure later (answers ++ accepted (endure script answers o).1)
        (endure script answers o).2).2) := by
  induction script generalizing answers o with
  | nil =>
    show endure later answers o = _
    rw [show accepted (endure [] answers o).1 = [] from rfl, List.append_nil]
    rfl
  | cons c script ih =>
    cases hperform : perform (c.map (handle answers)) o with
    | ok a o₁ =>
      rw [List.cons_append, endure_of_ok hperform, endure_of_ok hperform, ih, append_accepted]
      rfl
    | error stop o₁ =>
      rw [List.cons_append, endure_of_error hperform, endure_of_error hperform, ih]
      rfl

/-- A script that plays to its end meets no failure. -/
theorem endure_of_play {answers' : List Answer}
    (h : play script answers o = .ok answers' o₁) :
    answers ++ accepted (endure script answers o).1 = answers' ∧
      (endure script answers o).2 = o₁ := by
  induction script generalizing answers o with
  | nil =>
    cases h
    exact ⟨List.append_nil _, rfl⟩
  | cons c script ih =>
    unfold play at h
    cases hperform : perform (c.map (handle answers)) o with
    | ok a o' =>
      rw [bind_ok hperform] at h
      rw [endure_of_ok hperform, append_accepted]
      exact ih h
    | error stop o' => cases (bind_error hperform).symm.trans h

end Endure

/-! ## Readings and refused questions -/

namespace Reading

variable {r : Reading} {script : Script} {c : Call Nat}

/-- What was asked has no part in the rest of a reading. -/
theorem after_asked (asked : List BoolFn) :
    ∃ asked', { r with asked }.after c = { r.after c with asked := asked' } := by
  cases c <;> exact ⟨_, rfl⟩

theorem run_asked (asked : List BoolFn) :
    ∃ asked', { r with asked }.run script = { r.run script with asked := asked' } := by
  induction script generalizing r asked with
  | nil => exact ⟨asked, rfl⟩
  | cons c script ih =>
    obtain ⟨asked₁, h₁⟩ := after_asked (r := r) (c := c) asked
    obtain ⟨asked', h'⟩ := ih (r := r.after c) asked₁
    refine ⟨asked', ?_⟩
    rw [← h₁] at h'
    exact h'

theorem admits_asked (asked : List BoolFn) :
    { r with asked }.Admits script ↔ r.Admits script := by
  induction script generalizing r asked with
  | nil => exact Iff.rfl
  | cons c script ih =>
    obtain ⟨asked₁, h₁⟩ := after_asked (r := r) (c := c) asked
    show (_ ∧ ({ r with asked }.after c).Admits script) ↔ (_ ∧ (r.after c).Admits script)
    rw [h₁, ih]

end Reading

/-! ## One call -/

section Calls

variable [Decider δ τ] [Decider σ τ] [Lawful ε] {inner : δ → σ} {s₀ : σ} {o o' : Oracle ε δ τ}
  {r : Reading} {answers : List Answer}

/-- A call of a script is answered as it would be with the decider inside, or it is a question
    that meets a failure. -/
theorem Follows.perform_cases (hinner : Decider.Falters inner)
    (hexact : Decider.Exact s₀) (h : Follows s₀ r answers (o.inside inner)) (c : Call Nat)
    (hc : ∀ k ∈ c.operands, k < r.handles.length) :
    (∃ a o₁, perform (c.map (handle answers)) o = .ok a o₁ ∧
      Follows s₀ (r.after c) (answers ++ [a]) (o₁.inside inner)) ∨
    ∃ k stop o₁, c = .isSatisfiable k ∧ perform (c.map (handle answers)) o = .error stop o₁ ∧
      Setback (handle answers k) o stop o₁ ∧ Spent (handle answers k) o₁ ∧
      Follows s₀ r answers (o₁.inside inner) := by
  -- The call is answered if it is mirrored.
  have hanswered : Mirrored inner (perform (c.map (handle answers)))
      (perform (c.map (handle answers))) o →
      ∃ a o₁, perform (c.map (handle answers)) o = .ok a o₁ ∧
        Follows s₀ (r.after c) (answers ++ [a]) (o₁.inside inner) := by
    intro hmirrored
    obtain ⟨a, o₁', hperform', h'⟩ := h.gives_perform hexact c hc
    obtain ⟨o₁, hperform, rfl⟩ := hmirrored.exists_ok hperform'
    exact ⟨a, o₁, hperform, h'⟩
  by_cases hquestion : ∃ k, c = .isSatisfiable k
  · obtain ⟨k, rfl⟩ := hquestion
    have hk := h.operand (hc k (List.mem_singleton.2 rfl))
    obtain hmirrored | ⟨stop, o₁, hrun, hsetback, hspent, h'⟩ := h.question_cases hinner hexact hk.1
    · exact .inl (hanswered (hmirrored.bind fun _ _ _ => rfl))
    · exact .inr ⟨k, stop, o₁, rfl, bind_error hrun, hsetback, hspent, h'⟩
  · refine .inl (hanswered (mirrors_perform_of_no_query hinner.passesOn ?_ o))
    intro n hn
    cases c with
    | isSatisfiable k => exact hquestion ⟨k, rfl⟩
    | _ => cases hn

end Calls

/-! ## Scripts -/

section Scripts

variable [Decider δ τ] [Decider σ τ] [Lawful ε] {inner : δ → σ} {s₀ : σ}
  {o o' o₁ : Oracle ε δ τ} {r : Reading} {answers : List Answer} {script : Script}
  {outcomes : List (Except Stop Answer)}

/-- What the calls of a script came to, made when others had been answered with `answers`. -/
structure Endured (inner : δ → σ) (s₀ : σ) (r : Reading) (answers : List Answer)
    (script : Script) (o : Oracle ε δ τ) (outcomes : List (Except Stop Answer))
    (o' : Oracle ε δ τ) : Prop where
  follows : ∃ asked, Follows s₀ { r.run script with asked } (answers ++ accepted outcomes)
    (o'.inside inner)
  lasting : Lasting o o'
  noted   : Noted o o'
  length  : outcomes.length = script.length
  /-- A question that is answered has the right answer. -/
  right   : ∀ ⦃j k : Nat⦄ ⦃a : Answer⦄, script[j]? = some (.isSatisfiable k) →
    outcomes[j]? = some (.ok a) → a = .verdict ((r.run script).verdict k)
  /-- A call that is refused is a question, whose node is not checked again. -/
  refused : ∀ ⦃j : Nat⦄ ⦃stop : Stop⦄, outcomes[j]? = some (.error stop) →
    ∃ failure k, stop = .error (.decider failure) ∧ script[j]? = some (.isSatisfiable k) ∧
      Spent (handle (answers ++ accepted outcomes) k) o'

omit [Decider δ τ] in
/-- A call that was answered, before the others. -/
theorem Endured.cons_ok {c : Call Nat} {a : Answer}
    (h : Endured inner s₀ (r.after c) (answers ++ [a]) script o₁ outcomes o')
    (hlasting : Lasting o o₁) (hnoted : Noted o o₁)
    (ha : ∀ k, c = .isSatisfiable k → a = .verdict ((r.run (c :: script)).verdict k)) :
    Endured inner s₀ r answers (c :: script) o (.ok a :: outcomes) o' := by
  constructor
  case follows =>
    rw [append_accepted]
    exact h.follows
  case lasting => exact hlasting.trans h.lasting
  case noted => exact hnoted.trans h.noted
  case length => exact congrArg (· + 1) h.length
  case right =>
    intro j k b hj hb
    cases j with
    | zero =>
      obtain rfl : a = b := Except.ok.inj (Option.some.inj hb)
      exact ha k (Option.some.inj hj)
    | succ j => exact h.right hj hb
  case refused =>
    intro j stop hj
    rw [append_accepted]
    cases j with
    | zero => cases hj
    | succ j => exact h.refused hj

omit [Decider δ τ] in
/-- A question that was refused, before the others. -/
theorem Endured.cons_error {k : Nat} {failure : DeciderError}
    (h : Endured inner s₀ r answers script o₁ outcomes o') (hlasting : Lasting o o₁)
    (hnoted : Noted o o₁) (hk : k < (handles answers).length)
    (hspent : Spent (handle answers k) o₁) :
    Endured inner s₀ r answers (.isSatisfiable k :: script) o
      (.error (.error (.decider failure)) :: outcomes) o' := by
  -- The question changes nothing in the reading but what was asked.
  obtain ⟨asked, hrun⟩ : ∃ asked, r.run (.isSatisfiable k :: script)
      = { r.run script with asked } := Reading.run_asked (r.asked ++ [r.handle k])
  have hverdict (m : Nat) :
      (r.run (.isSatisfiable k :: script)).verdict m = (r.run script).verdict m := by
    rw [hrun]
    rfl
  constructor
  case follows =>
    rw [hrun]
    exact h.follows
  case lasting => exact hlasting.trans h.lasting
  case noted => exact hnoted.trans h.noted
  case length => exact congrArg (· + 1) h.length
  case right =>
    intro j m a hj ha
    cases j with
    | zero => cases ha
    | succ j =>
      rw [hverdict]
      exact h.right hj ha
  case refused =>
    intro j stop hj
    cases j with
    | zero =>
      cases hj
      refine ⟨failure, k, rfl, rfl, ?_⟩
      rw [handle_append hk]
      exact hspent.noted h.noted
    | succ j => exact h.refused hj

/-- A script: one call after the other. -/
theorem Follows.endured (hinner : Decider.Falters inner) (hexact : Decider.Exact s₀)
    (h : Follows s₀ r answers (o.inside inner)) (hscript : r.Admits script) :
    Endured inner s₀ r answers script o (endure script answers o).1 (endure script answers o).2 := by
  -- By induction on the calls.  Refused or not, the oracle inside goes on to follow the reading.
  induction script generalizing r answers o with
  | nil =>
    refine ⟨⟨r.asked, ?_⟩, .of_eq rfl, .of_eq rfl rfl rfl, rfl, nofun, nofun⟩
    rw [show answers ++ accepted (endure [] answers o).1 = answers from List.append_nil _]
    exact h
  | cons c script ih =>
    obtain ⟨hc, hscript⟩ := hscript
    have hops : ∀ n ∈ (c.map (handle answers)).operands, contains o.library n = true := by
      rw [Call.operands_map]
      exact h.held hc
    have hcases := h.perform_cases hinner hexact c hc
    -- The call does not end the run, so that entries last and checks stay noted.
    have hfaults : ¬ Faults (c.map (handle answers)) o := by
      rintro ⟨fault, o₂, hfault⟩
      obtain ⟨a, o₁, hperform, -⟩ | ⟨k, stop, o₁, -, hperform, hsetback, -⟩ := hcases
      · cases hperform.symm.trans hfault
      · obtain ⟨failure, rfl⟩ := hsetback.failure
        cases hperform.symm.trans hfault
    have hwf : Lawful.Wf o.library := h.wf
    have hlasting := lasting_perform hfaults
    have hnoted := noted_perform hwf hops hfaults
    obtain ⟨a, o₁, hperform, h₁⟩ | ⟨k, stop, o₁, rfl, hperform, hsetback, hspent, h₁⟩ := hcases
    · rw [after_ok hperform] at hlasting hnoted
      rw [endure_of_ok hperform]
      refine (ih h₁ hscript).cons_ok hlasting hnoted ?_
      -- The handle asked about stays what it is in the rest of the script.
      rintro k rfl
      have hk : k < r.handles.length := hc k (List.mem_singleton.2 rfl)
      have hkeep : (r.run (.isSatisfiable k :: script)).verdict k = r.verdict k :=
        Reading.verdict_run hk
      rw [hkeep]
      exact h.answer_eq h₁
    · obtain ⟨failure, rfl⟩ := hsetback.failure
      rw [after_error hperform] at hlasting hnoted
      rw [endure_of_error hperform]
      have hk : k < (handles answers).length := by
        rw [h.count]
        exact hc k (List.mem_singleton.2 rfl)
      have hscript : r.Admits script := (Reading.admits_asked _).1 hscript
      exact (ih h₁ hscript).cons_error hlasting hnoted hk hspent

end Scripts

/-! ## No harm -/

section Harm

variable [Decider δ τ] [Decider σ τ]

/-- A script does no worse for the failures than with `clean`, whose decider answers every
    query. -/
structure Unharmed (o₀ : Oracle ε δ τ) (clean : Oracle ε σ τ) (script : Script) : Prop where
  /-- Every call is made, and only questions meet failures. -/
  refused : (endure script [] o₀).1.length = script.length ∧
    ∀ ⦃j : Nat⦄ ⦃stop : Stop⦄, (endure script [] o₀).1[j]? = some (.error stop) →
      ∃ failure k, stop = .error (.decider failure) ∧ script[j]? = some (.isSatisfiable k)
  /-- Without failures every call is answered, and a question that is answered nevertheless has
      the same answer. -/
  agree   : ∃ answers o, play script [] clean = .ok answers o ∧ answers.length = script.length ∧
    ∀ ⦃j k : Nat⦄ ⦃a : Answer⦄, script[j]? = some (.isSatisfiable k) →
      (endure script [] o₀).1[j]? = some (.ok a) → answers[j]? = some a
  /-- An entry that is open in the end was like that at any time since it was made. -/
  lasting : ∀ ⦃earlier later : Script⦄, script = earlier ++ later →
    Lasting (endure earlier [] o₀).2 (endure script [] o₀).2
  /-- In the end, all that a question about a handle can fail with is a setback. -/
  setback : ∀ n ∈ handles (accepted (endure script [] o₀).1), ∀ ⦃stop o'⦄,
    isSatisfiable n (endure script [] o₀).2 = .error stop o' →
      Setback n (endure script [] o₀).2 stop o'
  /-- To repeat a question that has failed takes no bounded check. -/
  retry   : ∀ ⦃j k : Nat⦄ ⦃stop : Stop⦄, script[j]? = some (.isSatisfiable k) →
    (endure script [] o₀).1[j]? = some (.error stop) →
      Unchecked (endure script [] o₀).2
        (after (isSatisfiable (handle (accepted (endure script [] o₀).1) k))
          (endure script [] o₀).2)

variable [Lawful ε] {inner : δ → σ} {s₀ : σ} {o o' : Oracle ε δ τ} {r : Reading}
  {answers : List Answer} {n : NodeId}

/-- A question that fails meets a setback. -/
theorem Follows.setback (hinner : Decider.Falters inner) (hexact : Decider.Exact s₀)
    (h : Follows s₀ r answers (o.inside inner)) (hn : contains o.library n = true)
    {stop : Stop} (hrun : isSatisfiable n o = .error stop o') : Setback n o stop o' := by
  obtain hmirrored | ⟨stop', o₁, hrun', hsetback, -, -⟩ := h.question_cases hinner hexact hn
  · obtain ⟨reps, hfaithful⟩ := h.faithful
    obtain ⟨b, o₁', hanswer, -⟩ := hfaithful.gives_isSatisfiable hexact hn
    obtain ⟨o₁, hanswer', -⟩ := hmirrored.exists_ok hanswer
    cases hanswer'.symm.trans hrun
  · cases hrun'.symm.trans hrun
    exact hsetback

theorem Follows.not_faults (hinner : Decider.Falters inner) (hexact : Decider.Exact s₀)
    (h : Follows s₀ r answers (o.inside inner)) (hn : contains o.library n = true) :
    ¬ Faults (.isSatisfiable n) o := by
  rintro ⟨fault, o', hfault⟩
  cases hrun : isSatisfiable n o with
  | ok b o₁ => cases (bind_ok hrun).symm.trans hfault
  | error stop o₁ =>
    obtain ⟨failure, rfl⟩ := (h.setback hinner hexact hn hrun).failure
    cases (bind_error hrun).symm.trans hfault

omit [Decider σ τ] [Lawful ε] in
theorem after_perform_question (n : NodeId) (o : Oracle ε δ τ) :
    after (perform (.isSatisfiable n)) o = after (isSatisfiable n) o := by
  cases hrun : isSatisfiable n o with
  | ok b o' =>
    rw [after_ok hrun]
    exact after_ok (bind_ok hrun)
  | error stop o' =>
    rw [after_error hrun]
    exact after_error (bind_error hrun)

variable {lib : ε} {d₀ : δ}

/-- The decider may have another name, which is reported. -/
theorem follows_inside (hd : inner d₀ = s₀) (hwf : Lawful.Wf lib) (settings : Settings)
    (watched : Bool) (setup : List Event) :
    Follows s₀ .empty [] ((start lib d₀ settings watched setup).inside inner) := by
  have h : Follows s₀ .empty [] (start lib s₀ settings watched setup) :=
    follows_start hwf settings watched setup
  have hlarger : Larger (start lib s₀ settings watched setup)
      ((start lib d₀ settings watched setup).inside inner) :=
    ⟨hwf, .refl _, hd, rfl, rfl, rfl⟩
  obtain ⟨reps, hfaithful⟩ := h.faithful
  exact h.later ⟨reps, hfaithful.larger hlarger rfl⟩ hlarger.later

theorem unharmed_start (hinner : Decider.Falters inner) (hexact : Decider.Exact s₀)
    (hd : inner d₀ = s₀) (hwf : Lawful.Wf lib) (settings : Settings) (watched : Bool)
    (setup : List Event) {script : Script} (hscript : Reading.empty.Admits script) :
    Unharmed (start lib d₀ settings watched setup) (start lib s₀ settings watched setup)
      script := by
  have h : Follows s₀ .empty [] ((start lib d₀ settings watched setup).inside inner) :=
    follows_inside hd hwf settings watched setup
  have hend := h.endured hinner hexact hscript
  obtain ⟨asked, hfollows⟩ := hend.follows
  rw [List.nil_append] at hfollows
  constructor
  case refused =>
    refine ⟨hend.length, ?_⟩
    intro j stop hj
    obtain ⟨failure, k, hstop, hk, -⟩ := hend.refused hj
    exact ⟨failure, k, hstop, hk⟩
  case agree =>
    obtain ⟨answers, o, hplay, hreplies⟩ :=
      exists_replies hexact hwf settings watched setup hscript
    refine ⟨answers, o, hplay, hreplies.length, ?_⟩
    intro j k a hj ha
    rw [hend.right hj ha]
    exact hreplies.verdicts hj
  case lasting =>
    rintro earlier later rfl
    -- What comes after the first part of the script is a script that is endured.
    obtain ⟨hearlier, hlater⟩ := Reading.admits_append.1 hscript
    obtain ⟨asked₁, hfollows₁⟩ := (h.endured hinner hexact hearlier).follows
    have hrest := hfollows₁.endured hinner hexact ((Reading.admits_asked asked₁).2 hlater)
    rw [endure_append]
    exact hrest.lasting
  case setback =>
    intro n hn stop o' hrun
    exact hfollows.setback hinner hexact (hfollows.contains_handle hn) hrun
  case retry =>
    intro j k stop hj hstop
    obtain ⟨failure, k', -, hj', hspent⟩ := hend.refused hstop
    rw [List.nil_append] at hspent
    obtain ⟨⟩ := hj.symm.trans hj'
    have hk : k < (Reading.empty.run script).handles.length :=
      Reading.operand_lt hscript hj (List.mem_singleton.2 rfl)
    have hn := (hfollows.operand hk).1
    rw [← after_perform_question]
    exact hspent.unchecked hfollows.wf hn rfl (hfollows.not_faults hinner hexact hn)

end Harm

/-! ## Schedules and interruptions -/

section Hardy

variable [Lawful ε] {lib : ε}

/-- No script comes to harm, whichever queries fail. -/
def Hardy [Decider σ τ] (lib : ε) (s₀ : σ) (settings : Settings) (watched : Bool)
    (setup : List Event) : Prop :=
  ∀ (schedule : Nat → Option DeciderError) (script : Script), Reading.empty.Admits script →
    Unharmed (start lib (⟨s₀, 0, schedule⟩ : Failing σ) settings watched setup)
      (start lib s₀ settings watched setup) script

/-- No script comes to harm with a solver that is right, whenever it is interrupted.  The solver
    `S` that it is compared with never is. -/
def Interruptible (lib : ε) (S : Cnf.Solver) (settings : Settings) (watched : Bool)
    (setup : List Event) : Prop :=
  ∀ S' : Cnf.Solver, S'.Sound → ∀ script : Script, Reading.empty.Admits script →
    Unharmed (start lib (Encoder.start : Encoder S') settings watched setup)
      (start lib (Encoder.start : Encoder S) settings watched setup) script

theorem hardy_start [Decider σ τ] {s₀ : σ} (hexact : Decider.Exact s₀) (hwf : Lawful.Wf lib)
    (settings : Settings) (watched : Bool) (setup : List Event) :
    Hardy lib s₀ settings watched setup :=
  fun _ _ hscript => unharmed_start Failing.falters hexact rfl hwf settings watched setup hscript

theorem interruptible_start {S : Cnf.Solver} (hS : S.Exact) (hwf : Lawful.Wf lib)
    (settings : Settings) (watched : Bool) (setup : List Event) :
    Interruptible lib S settings watched setup :=
  fun _ hS' _ hscript => unharmed_start (Encoder.falters hS hS') (Encoder.exact_start hS) rfl hwf
    settings watched setup hscript

end Hardy

/-- **Failures do no harm.**  Let `S` be an exact solver.  With valid settings, new libraries and
    new deciders can be had.  Joined in any way, and whichever queries fail, they leave no script
    worse off: a question that fails is a setback, questions that are answered have the answers
    they would have had, and entries and bounded checks are not lost.  The same is true of an
    encoder whose solver may be interrupted at any query, compared with one that has `S`. -/
theorem fresh_hardy (S : Cnf.Solver) (hS : S.Exact) (G : Generator) (s : Settings)
    (hs : s.validate = .ok ()) (watched : Bool) (setup : List Event) :
    ∃ (nary : Nary) (aig : Aig G) (bdd : Bdd),
      Nary.ofBits s.storageBits = .ok nary ∧
      Aig.ofBits s.storageBits s.seed G = .ok aig ∧
      Bdd.ofBits s.storageBits s.memoBits = .ok bdd ∧
      Hardy nary (Encoder.start : Encoder S) s watched setup ∧
      Hardy nary bdd s watched setup ∧
      Hardy aig (Encoder.start : Encoder S) s watched setup ∧
      Hardy aig bdd s watched setup ∧
      Interruptible nary S s watched setup ∧
      Interruptible aig S s watched setup := by
  obtain ⟨nary, aig, bdd, hnary, haig, hbdd, hwf, hwf', hexact⟩ := Settings.exists_parts G hs
  have hencoder : Decider.Exact (Encoder.start : Encoder S) := Encoder.exact_start hS
  refine ⟨nary, aig, bdd, hnary, haig, hbdd, ?_, ?_, ?_, ?_, ?_, ?_⟩
  · exact hardy_start hencoder hwf s watched setup
  · exact hardy_start hexact hwf s watched setup
  · exact hardy_start hencoder hwf' s watched setup
  · exact hardy_start hexact hwf' s watched setup
  · exact interruptible_start hS hwf s watched setup
  · exact interruptible_start hS hwf' s watched setup

/-- The solver that learns, interrupted at every other query. -/
def moody : Cnf.Solver where
  solve number clauses l :=
    if number % 2 = 0 then none else Cnf.Solver.learning.solve number clauses l

theorem sound_moody : moody.Sound := by
  intro number clauses l b h
  change (if number % 2 = 0 then none else _) = some b at h
  split at h
  · cases h
  · exact Cnf.Solver.exact_learning.sound h

/-- A variable that is asked about twice.  The first time the query fails: by the schedule, and
    again by an interruption. -/
theorem fresh_hardy_variable :
    let s : Settings := { precheck := true, storageBits := 4 }
    let schedule := fun i => if i = 0 then some (.failed "no") else none
    let script : Script := [.newVariable, .isSatisfiable 0, .isSatisfiable 0]
    ∃ nary : Nary, Nary.ofBits s.storageBits = .ok nary ∧
      (let o₀ := start nary (⟨Encoder.start, 0, schedule⟩ : Failing Encoder) s false []
       Unharmed o₀ (start nary (Encoder.start : Encoder) s false []) script ∧
        (endure script [] o₀).1
          = [.ok (.node ⟨1⟩), .error (.error (.decider (.failed "no"))), .ok (.verdict true)]) ∧
      (let o₀ := start nary (Encoder.start : Encoder moody) s false []
       Unharmed o₀ (start nary (Encoder.start : Encoder) s false []) script ∧
        (endure script [] o₀).1
          = [.ok (.node ⟨1⟩), .error (.error (.decider .interrupted)), .ok (.verdict true)]) := by
  intro s schedule script
  obtain ⟨nary, aig, bdd, hnary, -, -, hhardy, -, -, -, hinterruptible, -⟩ :=
    fresh_hardy .learning Cnf.Solver.exact_learning .xoshiro s rfl false []
  have hscript : Reading.empty.Admits script := by
    simp [script, Reading.Admits, Reading.after, Reading.returned, Call.operands, Reading.empty]
  refine ⟨nary, hnary, ⟨hhardy schedule script hscript, ?_⟩,
    hinterruptible moody sound_moody script hscript, ?_⟩
  all_goals
    obtain rfl := Except.ok.inj ((Nary.ofBits_eq (by decide)).symm.trans hnary)
    decide +kernel

end Oracle

end SatMemo
