import SatMemo.Cnf.Decider
import SatMemo.Library.Nary
import SatMemo.Proofs.Oracle.Consult

/-! # Verdicts are final

    `Balanced` is what the table of entries has to do with the ledger of a run: it
    holds after every call, also after one that ends the run.

    The library and the decider may behave in any way they like, except that the
    decider's constant false has to be the same object at all times: answers may
    be wrong, may differ from one query to the next, and may be missing. -/

namespace SatMemo

variable {α β ε σ τ : Type}

namespace Oracle

variable [Library ε] [Decider σ τ]

/-! ## What the entries have to do with the ledger -/

/-- The entries and the queries of a run, at any point of it. -/
structure Balanced (falsity : τ) (o : Oracle ε (Recorder σ τ) τ) (l : Ledger τ) : Prop where
  /-- There is one entry for each object obtained. -/
  size   : o.entries.size = l.births.length
  /-- An entry holds the object it was made for, or the constant false once it is
      unsatisfiable. -/
  kept   : ∀ ⦃i : Nat⦄ ⦃b : Kind × τ⦄ ⦃e : Entry τ⦄, l.births[i]? = some b →
    o.entries[i]? = some e → Entry.Kept falsity b e
  /-- The ledger lists every query that was put. -/
  asked  : l.queries.map Query.asked = o.decider.asked
  /-- A query is put on behalf of an entry that is open and no constant, and it is about the
      object that the entry was made for. -/
  opened : ∀ q ∈ l.queries, q.status = some .unknown ∧ ∃ b, l.births[q.entry]? = some b ∧
    b.1 ≠ .constTrue ∧ b.1 ≠ .constFalse ∧ q.asked.object = b.2
  /-- On behalf of an entry at most one query is answered. -/
  once   : ∀ i, (l.queries.filter fun q => q.entry = i ∧ q.verdict?.isSome).length ≤ 1

/-- The answers of the queries, too, are in the entries.  It is so until a fault keeps an
    answer from being recorded. -/
structure Recorded (falsity : τ) (o : Oracle ε (Recorder σ τ) τ) (l : Ledger τ) : Prop
    extends Balanced falsity o l where
  answered : ∀ q ∈ l.queries, ∀ b, q.verdict? = some b →
    ∃ e, o.entries[q.entry]? = some e ∧ e.status = .ofBool b

/-- Every entry of `o` is in `o'`, at most with a verdict that it did not have. -/
def Progress (falsity : τ) (o o' : Oracle ε (Recorder σ τ) τ) : Prop :=
  ∀ ⦃i : Nat⦄ ⦃e : Entry τ⦄, o.entries[i]? = some e →
    ∃ e', o'.entries[i]? = some e' ∧ Entry.Moves falsity e e'

section Steps

variable {falsity : τ} {o o' : Oracle ε (Recorder σ τ) τ} {l : Ledger τ}

omit [Library ε] [Decider σ τ]

theorem Progress.of_eq (he : o'.entries = o.entries) : Progress falsity o o' :=
  fun _ e h => ⟨e, he ▸ h, .inl rfl⟩

/-- Nothing of what was there is touched by building. -/
theorem Adds.getElem? (h : Adds falsity o o') {i : Nat} {e : Entry τ}
    (hi : o.entries[i]? = some e) : o'.entries[i]? = some e := by
  obtain ⟨new, -, he, -, -⟩ := h
  obtain ⟨hlt, -⟩ := Array.getElem?_eq_some_iff.1 hi
  rw [he, Array.getElem?_append_left hlt, hi]

theorem Adds.progress (h : Adds falsity o o') : Progress falsity o o' :=
  fun _ e hi => ⟨e, h.getElem? hi, .inl rfl⟩

/-- The entries that building adds are as they were born. -/
theorem Balanced.built (h : Balanced falsity o l) (hadds : Adds falsity o o') :
    Balanced falsity o' (l.built o o') := by
  obtain ⟨new, hnew, he, hm, ha⟩ := hadds
  have hbirths : (l.built o o').births = l.births ++ new := by
    unfold Ledger.built
    rw [hm, List.drop_left]
  constructor
  case size => simp [hbirths, he, h.size]
  case kept =>
    intro i b e hb hi
    rw [hbirths] at hb
    rw [he] at hi
    -- Old entries are as they were, and new ones as they were born.
    by_cases hlt : i < l.births.length
    · rw [List.getElem?_append_left hlt] at hb
      rw [Array.getElem?_append_left (by rw [h.size]; exact hlt)] at hi
      exact h.kept hb hi
    · have hle := Nat.le_of_not_lt hlt
      rw [List.getElem?_append_right hle] at hb
      rw [Array.getElem?_append_right (by rw [h.size]; exact hle), h.size] at hi
      simp only [List.getElem?_toArray, List.getElem?_map, hb, Option.map_some,
        Option.some.injEq] at hi
      rw [← hi]
      exact Entry.kept_born (hnew b (List.mem_of_getElem? hb))
  case asked =>
    rw [ha]
    exact h.asked
  case opened =>
    intro q hq
    obtain ⟨hs, b, hb, hrest⟩ := h.opened q hq
    obtain ⟨hlt, -⟩ := List.getElem?_eq_some_iff.1 hb
    refine ⟨hs, b, ?_, hrest⟩
    rw [hbirths, List.getElem?_append_left hlt, hb]
  case once => exact h.once

theorem Recorded.built (h : Recorded falsity o l) (hadds : Adds falsity o o') :
    Recorded falsity o' (l.built o o') where
  toBalanced := h.toBalanced.built hadds
  answered := by
    intro q hq b hb
    obtain ⟨e, he, hs⟩ := h.answered q hq b hb
    exact ⟨e, hadds.getElem? he, hs⟩

/-- A ledger stays balanced if neither entries nor queries change. -/
theorem Recorded.of_quiet (h : Recorded falsity o l) (hq : Quiet o o') :
    Recorded falsity o' l where
  size := by
    rw [hq.1]
    exact h.size
  kept := fun _ _ _ hb he => h.kept hb (hq.1 ▸ he)
  asked := h.asked.trans hq.2.symm
  opened := h.opened
  once := h.once
  answered := fun q hm b hb => hq.1.symm ▸ h.answered q hm b hb

variable {i : Nat} {e : Entry τ}

theorem consulted_of_quiet (hq : Quiet o o') : l.consulted i o o' = l := by
  unfold Ledger.consulted
  rw [hq.2, List.drop_length]
  simp

theorem consulted_queries (he : o.entries[i]? = some e) (hopen : e.status = .unknown)
    {asked : List (Asked τ)} (ha : o'.decider.asked = o.decider.asked ++ asked) :
    (l.consulted i o o').queries = l.queries ++ asked.map fun a => ⟨i, some .unknown, a⟩ := by
  unfold Ledger.consulted
  rw [ha, List.drop_left, he, Option.map_some, hopen]

/-- No query for an open entry was answered yet. -/
theorem Recorded.filter_eq_nil (h : Recorded falsity o l) (he : o.entries[i]? = some e)
    (hopen : e.status = .unknown) :
    l.queries.filter (fun q => q.entry = i ∧ q.verdict?.isSome) = [] := by
  rw [List.filter_eq_nil_iff]
  intro q hq hanswered
  obtain ⟨rfl, hsome⟩ := of_decide_eq_true hanswered
  obtain ⟨b, hb⟩ := Option.isSome_iff_exists.1 hsome
  obtain ⟨e', he', hs⟩ := h.answered q hq b hb
  obtain rfl : e = e' := Option.some.inj (he.symm.trans he')
  rw [hopen] at hs
  cases b <;> cases hs

/-- One query at most on behalf of an open entry keeps the ledger balanced, whether its
    answer gets into the entry or not. -/
theorem Recorded.queried (h : Recorded falsity o l) (he : o.entries[i]? = some e)
    (hopen : e.status = .unknown) {asked : List (Asked τ)}
    (ha : o'.decider.asked = o.decider.asked ++ asked)
    (hasked : asked = [] ∨ ∃ a, asked = [⟨e.object, a⟩])
    (he' : o'.entries = o.entries ∨
      ∃ b, o'.entries = o.entries.setIfInBounds i (e.settled falsity b)) :
    Balanced falsity o' (l.consulted i o o') := by
  have hqueries := consulted_queries (l := l) he hopen ha
  have hlt : i < l.births.length := by
    rw [← h.size]
    exact (Array.getElem?_eq_some_iff.1 he).1
  obtain ⟨born, hborn⟩ : ∃ b, l.births[i]? = some b := ⟨_, List.getElem?_eq_getElem hlt⟩
  have hkept : Entry.Kept falsity born e := h.kept hborn he
  constructor
  case size =>
    rcases he' with he' | ⟨b, he'⟩
    · rw [he']
      exact h.size
    · rw [he', Array.size_setIfInBounds]
      exact h.size
  case kept =>
    intro j b e₁ hb hj
    rcases he' with he' | ⟨verdict, he'⟩
    · exact h.kept hb (he' ▸ hj)
    · rw [he'] at hj
      rcases Entry.eq_of_put hj with hj | ⟨rfl, rfl⟩
      · exact h.kept hb hj
      · obtain rfl : born = b := Option.some.inj (hborn.symm.trans hb)
        exact hkept.settled hopen verdict
  case asked =>
    rw [hqueries, List.map_append, h.asked, ha, List.map_map]
    exact congrArg _ (List.map_id asked)
  case opened =>
    intro q hq
    rw [hqueries] at hq
    rcases List.mem_append.1 hq with hq | hq
    · exact h.opened q hq
    · obtain ⟨a, hmem, rfl⟩ := List.mem_map.1 hq
      rcases hasked with rfl | ⟨answer, rfl⟩
      · cases hmem
      · rw [List.mem_singleton.1 hmem]
        exact ⟨rfl, born, hborn, hkept.opened hopen⟩
  case once =>
    intro j
    rw [hqueries, List.filter_append, List.length_append]
    by_cases hij : i = j
    · subst hij
      rw [h.filter_eq_nil he hopen]
      refine Nat.le_trans (Nat.add_le_add_left (List.length_filter_le _ _) _) ?_
      rcases hasked with rfl | ⟨answer, rfl⟩
      · exact Nat.zero_le 1
      · exact Nat.le_refl 1
    · -- What is asked now is asked on behalf of one entry.
      have hnone : (asked.map fun a => (⟨i, some .unknown, a⟩ : Query τ)).filter
          (fun q => q.entry = j ∧ q.verdict?.isSome) = [] := by
        rw [List.filter_eq_nil_iff]
        intro q hq hanswered
        obtain ⟨a, -, rfl⟩ := List.mem_map.1 hq
        exact hij (of_decide_eq_true hanswered).1
      rw [hnone]
      exact h.once j

theorem progress_settled (he : o.entries[i]? = some e) (hopen : e.status = .unknown) {b : Bool}
    (he' : o'.entries = o.entries.setIfInBounds i (e.settled falsity b)) :
    Progress falsity o o' := by
  intro j e₁ hj
  rw [he', Array.getElem?_setIfInBounds]
  by_cases hij : i = j
  · subst hij
    obtain rfl : e = e₁ := Option.some.inj (he.symm.trans hj)
    rw [if_pos rfl, if_pos (Array.getElem?_eq_some_iff.1 he).1]
    exact ⟨_, rfl, Entry.moves_settled hopen b⟩
  · rw [if_neg hij]
    exact ⟨e₁, hj, .inl rfl⟩

end Steps

/-- How a call takes a run on. -/
structure Advances (falsity : τ) (o : Oracle ε (Recorder σ τ) τ) (o' : Oracle ε (Recorder σ τ) τ)
    (l' : Ledger τ) (r : Except Stop α) : Prop where
  balanced : Balanced falsity o' l'
  progress : Progress falsity o o'
  recorded : (∀ fault, r ≠ .error (.fault fault)) → Recorded falsity o' l'
  excused  : ∀ stop, r = .error stop → Excused ε σ stop

section Steps

variable {falsity : τ} {o o' : Oracle ε (Recorder σ τ) τ} {l : Ledger τ}

/-- What a consultation does to a run. -/
theorem Recorded.consulted (h : Recorded falsity o l) {i : Nat} {r : Except Stop Bool}
    (hc : Consulted falsity i o r o') : Advances falsity o o' (l.consulted i o o') r := by
  cases hc with
  | kept hq hstop =>
    rw [consulted_of_quiet hq]
    exact ⟨(h.of_quiet hq).toBalanced, .of_eq hq.1, fun _ => h.of_quiet hq, hstop⟩
  | @asked e a stop o' he hopen he' ha hstop hfault =>
    have hbalanced : Balanced falsity o' (l.consulted i o o') :=
      h.queried he hopen ha (.inr ⟨a, rfl⟩) (.inl he')
    refine ⟨hbalanced, .of_eq he', fun hnone => ⟨hbalanced, ?_⟩, ?_⟩
    · intro q hq b hb
      rw [consulted_queries he hopen ha] at hq
      rcases List.mem_append.1 hq with hq | hq
      · rw [he']
        exact h.answered q hq b hb
      · -- An answer that was not recorded means a fault.
        obtain ⟨_, hmem, rfl⟩ := List.mem_map.1 hq
        rw [List.mem_singleton.1 hmem] at hb
        obtain ⟨fault, rfl⟩ := hfault b (Query.answer_of_verdict? hb)
        exact absurd rfl (hnone fault)
    · rintro _ ⟨⟩
      exact hstop
  | @settled e b asked o' he hopen he' ha hasked =>
    have hbalanced : Balanced falsity o' (l.consulted i o o') :=
      h.queried he hopen ha (hasked.imp_right fun h => ⟨_, h⟩) (.inr ⟨b, he'⟩)
    refine ⟨hbalanced, progress_settled he hopen he', fun _ => ⟨hbalanced, ?_⟩, nofun⟩
    intro q hq b' hb
    rw [consulted_queries he hopen ha] at hq
    rw [he', Array.getElem?_setIfInBounds]
    rcases List.mem_append.1 hq with hq | hq
    · obtain ⟨e₁, he₁, hs⟩ := h.answered q hq b' hb
      -- An entry that has an answer is not open.
      have hne : i ≠ q.entry := by
        rintro rfl
        obtain rfl : e = e₁ := Option.some.inj (he.symm.trans he₁)
        rw [hopen] at hs
        cases b' <;> cases hs
      rw [if_neg hne]
      exact ⟨e₁, he₁, hs⟩
    · obtain ⟨a, hmem, rfl⟩ := List.mem_map.1 hq
      rcases hasked with rfl | rfl
      · cases hmem
      · rw [List.mem_singleton.1 hmem] at hb
        obtain rfl : b = b' := by
          cases Query.answer_of_verdict? hb
          rfl
        rw [if_pos rfl, if_pos (Array.getElem?_eq_some_iff.1 he).1]
        exact ⟨_, rfl, e.status_settled falsity b⟩

theorem Recorded.advances_built (h : Recorded falsity o l) {r : Except Stop α}
    (hadds : Adds falsity o o') (hstop : ∀ stop, r = .error stop → Excused ε σ stop) :
    Advances falsity o o' (l.built o o') r :=
  ⟨h.toBalanced.built hadds, hadds.progress, fun _ => h.built hadds, hstop⟩

/-- What a call made of its value does not matter. -/
theorem Advances.map {r : Except Stop α} (h : Advances falsity o o' l r) (f : α → β) :
    Advances falsity o o' l (r.map f) := by
  cases r with
  | ok a => exact ⟨h.balanced, h.progress, fun _ => h.recorded nofun, nofun⟩
  | error stop =>
    refine ⟨h.balanced, h.progress, fun hnone => h.recorded ?_, ?_⟩
    · rintro fault ⟨⟩
      exact hnone fault rfl
    · rintro _ ⟨⟩
      exact h.excused stop rfl

omit [Library ε] [Decider σ τ] in
theorem Progress.trans {o₁ o₂ o₃ : Oracle ε (Recorder σ τ) τ} (h : Progress falsity o₁ o₂)
    (h' : Progress falsity o₂ o₃) : Progress falsity o₁ o₃ := by
  intro i e he
  obtain ⟨e', he', hmoves⟩ := h he
  obtain ⟨e'', he'', hmoves'⟩ := h' he'
  exact ⟨e'', he'', hmoves.trans hmoves'⟩

theorem Advances.of_progress {o₁ o₂ : Oracle ε (Recorder σ τ) τ} {r : Except Stop α}
    (h : Advances falsity o₂ o' l r) (hp : Progress falsity o₁ o₂) :
    Advances falsity o₁ o' l r :=
  ⟨h.balanced, hp.trans h.progress, h.recorded, h.excused⟩

theorem ends_making {make : Oracle ε (Recorder σ τ) τ → NodeId × Oracle ε (Recorder σ τ) τ}
    (h : Recorded falsity o l) (hq : Quiet o (make o).2) :
    Ends (making make) o fun r o' => Advances falsity o o' l r :=
  ⟨(h.of_quiet hq).toBalanced, .of_eq hq.1, fun _ => h.of_quiet hq, nofun⟩

omit [Library ε] [Decider σ τ] in
theorem quiet_grow (make : ε → Grown ε) (o : Oracle ε (Recorder σ τ) τ) :
    Quiet o (o.grow make).2 := by
  cases o
  exact ⟨rfl, rfl⟩

/-- A call takes a run on. -/
theorem Recorded.perform (h : Recorded falsity o l) (hfalsity : FalsityIs σ falsity)
    (c : Call NodeId) :
    Ends (Oracle.perform c) o fun r o' => Advances falsity o o' (l.after c o) r := by
  cases c with
  | makeTrue => exact ends_making h (quiet_grow _ o)
  | makeFalse => exact ends_making h (quiet_grow _ o)
  | newVariable => exact ends_making h (quiet_grow _ { o with varCount := o.varCount + 1 })
  | makeNot n => exact ends_making h (quiet_grow _ o)
  | makeAnd m n => exact ends_making h (quiet_grow _ o)
  | makeOr m n => exact ends_making h (quiet_grow _ o)
  | makeAll ns => exact ends_making h (quiet_grow _ o)
  | makeAny ns => exact ends_making h (quiet_grow _ o)
  | build n =>
    have hbuild := keeps_build_adding hfalsity n o
    unfold Ends at *
    simp only [Oracle.perform, Ledger.after, Oracle.after]
    cases hp : build n o with
    | ok i o₁ =>
      rw [hp] at hbuild
      rw [bind_ok hp]
      exact (h.advances_built hbuild.1 hbuild.2).map Answer.entry
    | error stop o₁ =>
      rw [hp] at hbuild
      rw [bind_error hp]
      exact (h.advances_built hbuild.1 hbuild.2).map Answer.entry
  | isSatisfiable n =>
    have hbuild := keeps_build_adding hfalsity n o
    unfold Ends at *
    simp only [Oracle.perform, Ledger.after, Oracle.after, isSatisfiable_eq]
    cases hp : build n o with
    | ok i o₁ =>
      rw [hp] at hbuild
      have hconsult := ends_consult hfalsity n i o₁
      have h₁ : Recorded falsity o₁ (l.built o o₁) := h.built hbuild.1
      unfold Ends at hconsult
      cases hc : consult n i o₁ with
      | ok b o₂ =>
        rw [hc] at hconsult
        rw [bind_ok (by rw [bind_ok hp]; exact hc)]
        simp only [hc]
        exact ((h₁.consulted hconsult).map Answer.verdict).of_progress hbuild.1.progress
      | error stop o₂ =>
        rw [hc] at hconsult
        rw [bind_error (by rw [bind_ok hp]; exact hc)]
        simp only [hc]
        exact ((h₁.consulted hconsult).map Answer.verdict).of_progress hbuild.1.progress
    | error stop o₁ =>
      rw [hp] at hbuild
      rw [bind_error (bind_error hp)]
      exact (h.advances_built hbuild.1 hbuild.2).map Answer.entry

end Steps

/-! ## Whole runs -/

section Runs

variable {falsity : τ} {o o' : Oracle ε (Recorder σ τ) τ} {l l' : Ledger τ}

omit [Library ε] in
theorem recorded_start [Library ε] (lib : ε) (d : σ) (settings : Settings) (watched : Bool)
    (setup : List Event) :
    Recorded falsity (start lib (Recorder.start d) settings watched setup) .empty where
  size := rfl
  kept := nofun
  asked := rfl
  opened := nofun
  once := fun _ => Nat.zero_le 1
  answered := nofun

/-- A call that ends no run keeps the record. -/
theorem Recorded.after (h : Recorded falsity o l) (hfalsity : FalsityIs σ falsity)
    {c : Call NodeId} (hc : ¬ Faults c o) :
    Recorded falsity (Oracle.after (Oracle.perform c) o) (l.after c o) := by
  have hstep := h.perform hfalsity c
  unfold Ends at hstep
  unfold Oracle.after
  cases hp : Oracle.perform c o with
  | ok a o' =>
    rw [hp] at hstep
    exact hstep.recorded nofun
  | error stop o' =>
    rw [hp] at hstep
    refine hstep.recorded ?_
    rintro fault ⟨⟩
    exact hc ⟨fault, o', hp⟩

theorem Run.recorded (hr : Run o l o' l') (hfalsity : FalsityIs σ falsity)
    (h : Recorded falsity o l) : Recorded falsity o' l' := by
  induction hr with
  | nil => exact h
  | call c _ hc ih => exact ih.after hfalsity hc

theorem Run.progress (hr : Run o l o' l') (hfalsity : FalsityIs σ falsity)
    (h : Recorded falsity o l) : Progress falsity o o' := by
  induction hr with
  | nil => exact .of_eq rfl
  | @call o₁ l₁ c hr hc ih =>
    have hstep := (hr.recorded hfalsity h).perform hfalsity c
    exact ih.trans (hstep.mono fun _ _ h => h.progress).of_after

/-- **Verdicts are final**, whatever the library and the decider answer.  At a point `o` of a
    run, at a later point `o₁`, and after one more call, which may be the last:

    - entries and queries balance: an open or satisfiable entry holds the object it was made
      for, an unsatisfiable one the constant false, and every query was put on behalf of an
      open entry that is no constant, at most one of them with an answer;
    - between the points an entry stays as it is, unless it is open and gets a verdict;
    - no call stops because an entry would get a second verdict;
    - the oracle without a record starts alike and does the same. -/
theorem verdicts_final (hfalsity : FalsityIs σ falsity) {lib : ε} {d : σ} {settings : Settings}
    {watched : Bool} {setup : List Event}
    (hr : Run (start lib (Recorder.start d) settings watched setup) .empty o l)
    (hr₁ : Run o l o' l') (c : Call NodeId) :
    Balanced falsity o' l' ∧ Balanced falsity (after (perform c) o') (l'.after c o') ∧
    Progress falsity o o' ∧ Progress falsity o' (after (perform c) o') ∧
    (∀ o₂, perform c o' = .error (.fault .decidedAgain) o₂ →
      Library.Raises ε .decidedAgain ∨ Decider.Raises σ .decidedAgain) ∧
    (start lib (Recorder.start d) settings watched setup).erase
      = start lib d settings watched setup ∧
    perform c o'.erase = eraseResult (perform c o') := by
  have hstart : Recorded falsity (start lib (Recorder.start d) settings watched setup) .empty :=
    recorded_start lib d settings watched setup
  have h : Recorded falsity o l := hr.recorded hfalsity hstart
  have h' : Recorded falsity o' l' := hr₁.recorded hfalsity h
  have hstep := h'.perform hfalsity c
  refine ⟨h'.toBalanced, (hstep.mono fun _ _ h => h.balanced).of_after,
    hr₁.progress hfalsity h, (hstep.mono fun _ _ h => h.progress).of_after, ?_,
    rfl, mirrors_perform c o'⟩
  intro o₂ hp
  exact (hstep.of_error hp).excused _ rfl rfl

/-- A variable is made and asked about. -/
theorem verdicts_final_newVariable :
    ∃ (lib : Nary) (d : Encoder) (o : Oracle Nary (Recorder Encoder Literal) Literal)
      (l : Ledger Literal),
      Run (start lib (Recorder.start d) {} false []) .empty o l ∧
        Balanced Encoder.falsity (after (perform (.isSatisfiable ⟨1⟩)) o)
          (l.after (.isSatisfiable ⟨1⟩) o) := by
  have hfalsity : FalsityIs Encoder Encoder.falsity := by
    rintro s x ⟨⟩
    rfl
  let o₀ : Oracle Nary (Recorder Encoder Literal) Literal :=
    start (Nary.mk (.empty 4)) (Recorder.start Encoder.start) {} false []
  have hr : Run o₀ .empty _ _ := Run.nil.call .newVariable fun ⟨_, _, h⟩ => nomatch h
  exact ⟨_, _, _, _, hr, (verdicts_final hfalsity hr .nil (.isSatisfiable ⟨1⟩)).2.1⟩

end Runs

end Oracle

end SatMemo
