import SatMemo.Proofs.Oracle.Ledger

/-! # Consultations

    A consultation puts at most one query, and only if the entry is open; it
    records at most one verdict, in that entry.  `Consulted` lists what it may
    come to, for a library and a decider that behave in any way they like. -/

namespace SatMemo

variable {ε σ τ : Type}

namespace Oracle

variable [Library ε] [Decider σ τ]

/-! ## What consulting does -/

theorem ends_entryAt (i : Nat) (o : Oracle ε (Recorder σ τ) τ) :
    Ends (entryAt i) o fun r o' => o' = o ∧
      match r with
      | .ok e       => o.entries[i]? = some e
      | .error stop => Excused ε σ stop := by
  cases he : o.entries[i]? with
  | some e =>
    unfold Ends
    rw [entryAt_eq he]
    exact ⟨rfl, rfl⟩
  | none =>
    unfold Ends
    rw [entryAt_eq_error he]
    exact ⟨rfl, nofun⟩

omit [Decider σ τ] in
theorem overlooks_quiet : Overlooks (quiet ε σ τ) where
  check := fun _ _ _ => ⟨rfl, rfl⟩
  checks := fun _ _ => ⟨rfl, rfl⟩
  checked := fun _ _ => ⟨rfl, rfl⟩
  journal := fun _ _ => ⟨rfl, rfl⟩

/-- A query is put once, and its answer is passed on. -/
theorem ends_queryDecider (x : τ) (o : Oracle ε (Recorder σ τ) τ) :
    Ends (queryDecider x) o fun r o' =>
      o'.entries = o.entries ∧ ∃ a, o'.decider.asked = o.decider.asked ++ [⟨x, a⟩] ∧
        match r with
        | .ok b       => a = .ok (.ok b)
        | .error stop => (∀ b, a ≠ .ok (.ok b)) ∧ Excused ε σ stop := by
  have hcall : Ends (callDecider fun d => Recorder.ask d x) o fun r o' =>
      o'.entries = o.entries ∧ ∃ a, o'.decider.asked = o.decider.asked ++ [⟨x, a⟩] ∧
        match r with
        | .ok answer  => a = .ok answer
        | .error stop => (∀ b, a ≠ .ok (.ok b)) ∧ Excused ε σ stop := by
    cases o with
    | mk library decider index entries checked varCount settings stats watched journal =>
      rcases hquery : Decider.query decider.inner x with ⟨fault | answer, s, events⟩
      · unfold Ends callDecider Recorder.ask
        simp only [hquery]
        exact ⟨rfl, _, rfl, nofun, (blamed_decider (.query (congrArg Reply.result hquery))).2⟩
      · unfold Ends callDecider Recorder.ask
        simp only [hquery]
        exact ⟨rfl, _, rfl, rfl⟩
  refine hcall.bind ?_ ?_
  · rintro answer o₁ ⟨he, a, ha, rfl⟩
    cases answer with
    | ok b => exact ⟨he, _, ha, rfl⟩
    | error error => exact ⟨he, _, ha, nofun, nofun⟩
  · rintro stop o₁ ⟨he, a, ha, hstop⟩
    exact ⟨he, a, ha, hstop⟩

/-- A verdict goes into an open entry, unless the constant false cannot be had. -/
theorem ends_recordVerdict {falsity : τ} (hfalsity : FalsityIs σ falsity) {i : Nat}
    {e : Entry τ} {o : Oracle ε (Recorder σ τ) τ} (he : o.entries[i]? = some e)
    (hopen : e.status = .unknown) (b : Bool) :
    Ends (recordVerdict i b) o fun r o' => o'.decider.asked = o.decider.asked ∧
      match r with
      | .ok _       => o'.entries = o.entries.setIfInBounds i (e.settled falsity b)
      | .error stop => o'.entries = o.entries ∧ Blamed ε σ stop := by
  refine (ends_make (ε := ε) .constFalse (fun h => .makeFalse h) (fun _ => hfalsity _ _) o).bind
    ?_ ?_
  · rintro x o₁ ⟨⟨he₁, ha₁⟩, -, hx⟩
    -- Whatever the decider is, its constant false is the one object.
    obtain rfl : x = falsity := hx rfl
    have hdecided := Entry.decided_eq hopen b x
    have hentry : entryAt i o₁ = .ok e o₁ := entryAt_eq (by rw [he₁, he])
    unfold Ends
    simp only [bind, EStateM.bind, hentry, hdecided]
    exact ⟨ha₁, congrArg (·.setIfInBounds i (e.settled x b)) he₁⟩
  · rintro stop o₁ ⟨⟨he₁, ha₁⟩, -, hstop⟩
    exact ⟨ha₁, he₁, hstop⟩

/-- What a consultation of entry `i` comes to. -/
inductive Consulted (falsity : τ) (i : Nat) (o : Oracle ε (Recorder σ τ) τ) :
    Except Stop Bool → Oracle ε (Recorder σ τ) τ → Prop where
  /-- Nothing was asked and nothing was recorded. -/
  | kept {r : Except Stop Bool} {o' : Oracle ε (Recorder σ τ) τ} :
      Quiet o o' → (∀ stop, r = .error stop → Excused ε σ stop) → Consulted falsity i o r o'
  /-- A query gave no verdict, or a fault kept the verdict from being recorded. -/
  | asked {e : Entry τ} {a : Except Fault (Except DeciderError Bool)} {stop : Stop}
      {o' : Oracle ε (Recorder σ τ) τ} :
      o.entries[i]? = some e → e.status = .unknown → o'.entries = o.entries →
      o'.decider.asked = o.decider.asked ++ [⟨e.object, a⟩] → Excused ε σ stop →
      (∀ b, a = .ok (.ok b) → ∃ fault, stop = .fault fault) →
      Consulted falsity i o (.error stop) o'
  /-- A verdict was recorded, of the bounded check or of one query. -/
  | settled {e : Entry τ} {b : Bool} {asked : List (Asked τ)}
      {o' : Oracle ε (Recorder σ τ) τ} :
      o.entries[i]? = some e → e.status = .unknown →
      o'.entries = o.entries.setIfInBounds i (e.settled falsity b) →
      o'.decider.asked = o.decider.asked ++ asked →
      asked = [] ∨ asked = [⟨e.object, .ok (.ok b)⟩] → Consulted falsity i o (.ok b) o'

/-- The end of a consultation: the verdict is recorded and given. -/
theorem ends_recorded {falsity : τ} (hfalsity : FalsityIs σ falsity) {i : Nat} {e : Entry τ}
    {o o₁ : Oracle ε (Recorder σ τ) τ} {b : Bool} {asked : List (Asked τ)}
    (he : o.entries[i]? = some e) (hopen : e.status = .unknown)
    (he₁ : o₁.entries = o.entries) (ha₁ : o₁.decider.asked = o.decider.asked ++ asked)
    (hasked : asked = [] ∨ asked = [⟨e.object, .ok (.ok b)⟩]) :
    Ends (recordVerdict i b >>= fun _ => pure b) o₁ (Consulted falsity i o) := by
  refine (ends_recordVerdict hfalsity (he₁ ▸ he) hopen b).bind ?_ ?_
  · rintro _ o₂ ⟨ha₂, he₂⟩
    exact .settled he hopen (by rw [he₂, he₁]) (by rw [ha₂, ha₁]) hasked
  · rintro stop o₂ ⟨ha₂, he₂, hstop⟩
    rcases hasked with rfl | rfl
    · -- Without a query, a verdict that is not recorded leaves no trace.
      refine .kept ⟨he₂.trans he₁, by rw [ha₂, ha₁, List.append_nil]⟩ ?_
      rintro _ ⟨⟩
      exact hstop.2
    · exact .asked he hopen (he₂.trans he₁) (by rw [ha₂, ha₁]) hstop.2 fun _ _ => hstop.1

theorem ends_consult {falsity : τ} (hfalsity : FalsityIs σ falsity) (n : NodeId) (i : Nat)
    (o : Oracle ε (Recorder σ τ) τ) : Ends (consult n i) o (Consulted falsity i o) := by
  refine (ends_entryAt i o).bind ?_ ?_
  rotate_left
  · rintro stop _ ⟨rfl, hstop⟩
    refine .kept ⟨rfl, rfl⟩ ?_
    rintro _ ⟨⟩
    exact hstop
  rintro e o ⟨rfl, he⟩
  -- A known verdict is given as it is.
  cases hverdict : e.status.verdict? with
  | some b => exact .kept ⟨rfl, rfl⟩ nofun
  | none =>
    have hopen : e.status = .unknown := Status.eq_unknown_of_verdict? hverdict
    refine (keeps_checkVerdict? overlooks_quiet (excused_library (σ := σ)) n o).bind ?_ ?_
    · rintro verdict? o₁ ⟨⟨he₁, ha₁⟩, -⟩
      -- The bounded check may have one.
      cases verdict? with
      | some b =>
        let o₂ : Oracle ε (Recorder σ τ) τ :=
          { o₁ with stats := { o₁.stats with checkHits := o₁.stats.checkHits + 1 } }
        have hrest : Ends (recordVerdict i b >>= fun _ => pure b) o₂ (Consulted falsity i o) :=
          ends_recorded hfalsity he hopen he₁ (ha₁.trans (List.append_nil _).symm) (.inl rfl)
        exact hrest.congr rfl
      | none =>
        -- Otherwise the decider is asked, once.
        refine (ends_queryDecider e.object o₁).bind ?_ ?_
        · rintro b o₂ ⟨he₂, a, ha₂, rfl⟩
          let o₃ : Oracle ε (Recorder σ τ) τ :=
            { o₂ with stats := { o₂.stats with queries := o₂.stats.queries + 1 } }
          have he₃ : o₃.entries = o.entries := he₂.trans he₁
          have ha₃ : o₃.decider.asked = o.decider.asked ++ [⟨e.object, .ok (.ok b)⟩] := by
            rw [← ha₁]
            exact ha₂
          have hrest : Ends (reportQuery n b >>= fun _ => recordVerdict i b >>= fun _ => pure b)
              o₃ (Consulted falsity i o) := by
            refine (keeps_reportQuery overlooks_quiet (blamed_library (σ := σ)) n b o₃).bind ?_ ?_
            · rintro _ o₄ ⟨⟨he₄, ha₄⟩, -⟩
              exact ends_recorded hfalsity he hopen (he₄.trans he₃) (ha₄.trans ha₃) (.inr rfl)
            · rintro stop o₄ ⟨⟨he₄, ha₄⟩, hstop⟩
              obtain ⟨hfault, hstop⟩ := hstop stop rfl
              exact .asked he hopen (he₄.trans he₃) (ha₄.trans ha₃) hstop fun _ _ => hfault
          exact hrest.congr rfl
        · rintro stop o₂ ⟨he₂, a, ha₂, hnone, hstop⟩
          refine .asked he hopen (he₂.trans he₁) (by rw [ha₂, ha₁]) hstop ?_
          intro b hb
          exact absurd hb (hnone b)
    · rintro stop o₁ ⟨hq, hstop⟩
      refine .kept hq ?_
      rintro _ ⟨⟩
      exact hstop stop rfl

end Oracle

end SatMemo
