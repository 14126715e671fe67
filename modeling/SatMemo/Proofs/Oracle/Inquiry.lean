import SatMemo.Proofs.Oracle.Settling
import SatMemo.Proofs.Oracle.Shelving

/-! # What consulting an entry comes to, short of a fault

    The bounded check is run at most once for a class, and its outcome is noted
    (`Probed`).  An entry that is decided is left alone.  An open one takes the
    verdict of the check, or else that of the decider; if the decider refuses to
    answer, nothing but the check has left a trace (`Inquired`).

    The library and the decider may be of any kind. -/

namespace SatMemo

namespace Oracle

open Library (contains)

variable {ε σ τ : Type} [Library ε] [Decider σ τ] {o o₁ o' : Oracle ε σ τ} {n : NodeId} {i : Nat}
  {b : Bool} {e : Entry τ}

/-! ## The bounded check -/

/-- The verdict of the bounded check of a node, if it is wanted and has one, and what is left
    behind. -/
inductive Probed (n : NodeId) (o : Oracle ε σ τ) : Option Bool → Oracle ε σ τ → Prop where
  | unwanted : o.settings.precheck = false → Probed n o none o
  /-- A check of the class was run before. -/
  | known {status : Status} : o.settings.precheck = true →
      o.checked.find? o.library n = .ok (some status) → Probed n o status.verdict? o
  /-- The check is run now, and its outcome noted. -/
  | run {status : Status} {lib : ε} {events : List Event} {checked : ClassMap Status} :
      o.settings.precheck = true → o.checked.find? o.library n = .ok none →
      Library.checkBounded o.library n o.settings.patterns = ⟨.ok status, lib, events⟩ →
      o.checked.insert lib n status = .ok checked →
      Probed n o status.verdict? { o with
        library := lib
        checked
        stats := { o.stats with checks := o.stats.checks + 1 }
        journal := (o.journal ++ events).push (.checked n status) }

omit [Decider σ τ] in
theorem settles_checkVerdict? (n : NodeId) (o : Oracle ε σ τ) :
    Settles (checkVerdict? n) o fun r o' =>
      ∃ verdict?, r = .ok verdict? ∧ Probed n o verdict? o' := by
  unfold checkVerdict?
  refine Settles.step rfl ?_
  by_cases hwanted : o.settings.precheck = true
  · rw [if_pos hwanted]
    have hstatus : Settles (checkStatus n) o fun r o' =>
        ∃ status : Status, r = .ok status ∧ Probed n o status.verdict? o' := by
      unfold checkStatus
      refine Settles.step rfl ?_
      apply Settles.orFault_bind
      intro status? hfind
      cases status? with
      | some status => exact Settles.pure ⟨status, rfl, .known hwanted hfind⟩
      | none =>
        apply Settles.callLibrary_bind
        intro status lib events hcheck
        refine Settles.step rfl (Settles.step rfl (Settles.step rfl ?_))
        apply Settles.orFault_bind
        intro checked hinsert
        refine Settles.step rfl (Settles.pure ⟨status, rfl, ?_⟩)
        exact .run hwanted hfind hcheck hinsert
    refine hstatus.bind ?_ ?_
    · rintro status o₁ ⟨_, hr, hprobed⟩
      cases hr
      exact Settles.pure ⟨status.verdict?, rfl, hprobed⟩
    · rintro e o₁ ⟨_, hr, -⟩
      cases hr
  · rw [if_neg hwanted]
    exact Settles.pure ⟨none, rfl, .unwanted (Bool.eq_false_of_not_eq_true hwanted)⟩

/-- The check has nothing to do with entries. -/
structure Spared (o o' : Oracle ε σ τ) : Prop where
  decider   : o'.decider = o.decider
  index     : o'.index = o.index
  entries   : o'.entries = o.entries
  varCount  : o'.varCount = o.varCount
  settings  : o'.settings = o.settings
  hits      : o'.stats.hits = o.stats.hits
  misses    : o'.stats.misses = o.stats.misses
  queries   : o'.stats.queries = o.stats.queries
  checkHits : o'.stats.checkHits = o.stats.checkHits

omit [Decider σ τ] in
theorem Probed.spared {verdict? : Option Bool} (h : Probed n o verdict? o') : Spared o o' := by
  cases h with
  | unwanted _ => exact ⟨rfl, rfl, rfl, rfl, rfl, rfl, rfl, rfl, rfl⟩
  | known _ _ => exact ⟨rfl, rfl, rfl, rfl, rfl, rfl, rfl, rfl, rfl⟩
  | run _ _ _ _ => exact ⟨rfl, rfl, rfl, rfl, rfl, rfl, rfl, rfl, rfl⟩

/-! ## Consulting -/

/-- What consulting the entry `i` of a formula comes to. -/
inductive Inquired (n : NodeId) (i : Nat) (o : Oracle ε σ τ) :
    Except Error Bool → Oracle ε σ τ → Prop where
  /-- The entry was decided before. -/
  | known {e : Entry τ} {b : Bool} : o.entries[i]? = some e → e.status.verdict? = some b →
      Inquired n i o (.ok b) o
  /-- The bounded check has the verdict. -/
  | checked {e : Entry τ} {b : Bool} {o₁ : Oracle ε σ τ} {x : τ} {decider : σ}
      {journal : Array Event} :
      o.entries[i]? = some e → e.status = .unknown → Probed n o (some b) o₁ →
      Inquired n i o (.ok b) { o₁ with
        decider
        entries := o₁.entries.setIfInBounds i (e.settled x b)
        stats := { o₁.stats with checkHits := o₁.stats.checkHits + 1 }
        journal }
  /-- The decider has the verdict. -/
  | answered {e : Entry τ} {b : Bool} {o₁ : Oracle ε σ τ} {x : τ} {decider : σ}
      {journal : Array Event} :
      o.entries[i]? = some e → e.status = .unknown → Probed n o none o₁ →
      Inquired n i o (.ok b) { o₁ with
        decider
        entries := o₁.entries.setIfInBounds i (e.settled x b)
        stats := { o₁.stats with queries := o₁.stats.queries + 1 }
        journal }
  /-- The decider has none. -/
  | refused {e : Entry τ} {error : DeciderError} {o₁ : Oracle ε σ τ} {decider : σ}
      {events : List Event} :
      o.entries[i]? = some e → e.status = .unknown → Probed n o none o₁ →
      Decider.query o₁.decider e.object = ⟨.ok (.error error), decider, events⟩ →
      Inquired n i o (.error (.decider error))
        { o₁ with decider, journal := o₁.journal ++ events }

omit [Library ε] in
/-- A verdict goes into an open entry. -/
theorem settles_recordVerdict (he : o.entries[i]? = some e) (hopen : e.status = .unknown)
    (b : Bool) :
    Settles (recordVerdict i b) o fun r o' => r = .ok () ∧ ∃ x decider journal, o' = { o with
      decider
      entries := o.entries.setIfInBounds i (e.settled x b)
      journal } := by
  unfold recordVerdict
  apply Settles.callDecider_bind
  intro x decider events _
  refine Settles.step (entryAt_eq he) (Settles.step (orFault_eq (Entry.decided_eq hopen b x)) ?_)
  exact ⟨rfl, x, decider, _, rfl⟩

omit [Decider σ τ] in
/-- Reporting a query adds to the journal at most. -/
theorem settles_reportQuery (b : Bool) :
    Settles (reportQuery n b) o fun r o' => r = .ok () ∧ ∃ journal, o' = { o with journal } := by
  unfold reportQuery
  refine Settles.step rfl ?_
  split
  · apply Settles.ask_bind
    intro text _
    exact ⟨rfl, _, rfl⟩
  · exact Settles.pure ⟨rfl, o.journal, rfl⟩

theorem settles_consult (n : NodeId) (i : Nat) (o : Oracle ε σ τ) :
    Settles (consult n i) o (Inquired n i o) := by
  unfold consult
  apply Settles.entryAt_bind
  intro e he
  cases hknown : e.status.verdict? with
  | some b => exact Settles.pure (.known he hknown)
  | none =>
    have hopen : e.status = .unknown := Status.eq_unknown_of_verdict? hknown
    refine (settles_checkVerdict? n o).bind ?_ ?_
    · rintro verdict? o₁ ⟨_, ⟨⟩, hprobed⟩
      have he₁ : o₁.entries[i]? = some e := hprobed.spared.entries ▸ he
      cases verdict? with
      | some b =>
        refine Settles.step rfl ?_
        refine (settles_recordVerdict ?_ hopen b).bind ?_ ?_
        · exact he₁
        · rintro _ o₂ ⟨-, x, decider, journal, rfl⟩
          exact Settles.pure (.checked he hopen hprobed)
        · rintro error o₂ ⟨hr, -⟩
          cases hr
      | none =>
        unfold queryDecider
        rw [bind_assoc]
        apply Settles.callDecider_bind
        intro answer decider events hquery
        cases answer with
        | error error => exact Settles.throw (.refused he hopen hprobed hquery)
        | ok b =>
          refine Settles.step rfl (Settles.step rfl ?_)
          refine (settles_reportQuery b).bind ?_ ?_
          · rintro _ o₂ ⟨-, journal, rfl⟩
            refine (settles_recordVerdict ?_ hopen b).bind ?_ ?_
            · exact he₁
            · rintro _ o₃ ⟨-, x, decider', journal', rfl⟩
              exact Settles.pure (.answered he hopen hprobed)
            · rintro error o₃ ⟨hr, -⟩
              cases hr
          · rintro error o₂ ⟨hr, -⟩
            cases hr
    · rintro error o₁ ⟨_, hr, -⟩
      cases hr

/-! ## Whole calls -/

/-- What a call about a formula comes to: the formula is fetched, and then perhaps its entry
    is consulted. -/
inductive Served (P : Passage ε σ τ) (n : NodeId) (o : Oracle ε σ τ) : Oracle ε σ τ → Prop where
  | fetched {r : Except Error Nat} {o' : Oracle ε σ τ} : Fetched P n o r o' → Served P n o o'
  | consulted {i : Nat} {o₁ : Oracle ε σ τ} {r : Except Error Bool} {o' : Oracle ε σ τ} :
      Fetched P n o (.ok i) o₁ → Inquired n i o₁ r o' → Served P n o o'

theorem settles_perform {P : Passage ε σ τ}
    (hlibrary : ∀ {o o'}, P.rel o o' → o'.library = o.library)
    (hlower : ∀ {n o o'}, contains o.library n = true → indexOf? n o = .ok none o →
      Lowered n o o' → P.rel o o')
    {c : Call NodeId} (hsubject : subject c = some n) (o : Oracle ε σ τ) :
    Settles (perform c) o fun _ o' => Served P n o o' := by
  have hbuild := settles_build hlibrary hlower n o
  cases c with
  | build n' =>
    cases hsubject
    refine hbuild.bind ?_ fun _ _ hfetched => .fetched hfetched
    intro i o₁ hfetched
    exact Settles.pure (.fetched hfetched)
  | isSatisfiable n' =>
    cases hsubject
    have hquestion : Settles (isSatisfiable n) o fun _ o' => Served P n o o' := by
      rw [isSatisfiable_eq]
      refine hbuild.bind ?_ fun _ _ hfetched => .fetched hfetched
      intro i o₁ hfetched
      exact (settles_consult n i o₁).mono fun _ _ hinquired => .consulted hfetched hinquired
    refine hquestion.bind ?_ fun _ _ hserved => hserved
    intro b o₁ hserved
    exact Settles.pure hserved
  | _ => cases hsubject

end Oracle

end SatMemo
