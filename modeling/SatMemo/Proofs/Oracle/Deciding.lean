import SatMemo.Proofs.Oracle.Building
import SatMemo.Proofs.Oracle.Calls

/-! # Verdicts are right

    The decider's variables are named, no name twice, so a function that stands
    for a node is satisfiable exactly if some assignment of the names makes the
    node true.  The decider is therefore right about nodes, as the bounded check
    is, and an entry that takes the constant false for its object still holds an
    object that stands for its node. -/

namespace SatMemo

namespace Oracle

open Library (term? contains value Right Lawful)

variable {ε σ τ : Type} [Library ε] [Lawful ε] [Decider σ τ] {s₀ : σ} {v : Nat}
  {o o' : Oracle ε σ τ} {lib : ε} {t : Talk σ τ} {names : List String} {reps : List NodeId}
  {n : NodeId} {i : Nat} {e : Entry τ} {b : Bool}

/-- The verdict on a node is that some assignment makes it true. -/
def Verdict (lib : ε) (n : NodeId) (b : Bool) : Prop :=
  b = true ↔ ∃ ρ, value lib ρ n = true

omit [Lawful ε] in
theorem Verdict.right (h : Verdict lib n b) : Right lib n (.ofBool b) := by
  cases b with
  | true => exact ⟨fun _ => h.1 rfl, nofun⟩
  | false =>
    refine ⟨nofun, fun _ ρ => ?_⟩
    exact Bool.eq_false_iff.2 fun hρ => Bool.false_ne_true (h.2 ⟨ρ, hρ⟩)

omit [Lawful ε] in
theorem verdict_of_right {status : Status} (h : Right lib n status)
    (hs : status.verdict? = some b) : Verdict lib n b := by
  cases status with
  | unknown => cases hs
  | sat =>
    cases hs
    exact ⟨fun _ => h.1 rfl, fun _ => rfl⟩
  | unsat =>
    cases hs
    refine ⟨nofun, ?_⟩
    rintro ⟨ρ, hρ⟩
    rw [h.2 rfl ρ] at hρ
    cases hρ

theorem verdict_iff_of_extends {lib' : ε} (hwf : Lawful.Wf lib) (hwf' : Lawful.Wf lib')
    (he : Library.Extends lib lib') (hn : contains lib n = true) :
    Verdict lib n b ↔ Verdict lib' n b := by
  unfold Verdict
  have hvalue : ∀ ρ, value lib' ρ n = value lib ρ n := fun ρ =>
    (Lawful.founded hwf).value_of_extends (Lawful.founded hwf') he hn
  simp only [hvalue]

/-! ## Functions and nodes -/

omit [Library ε] [Lawful ε] in
/-- Any assignment of the variables made so far comes from one of the names. -/
theorem Talks.exists_assignment (h : Talks s₀ t names o) (α : Nat → Bool) :
    ∃ ρ, ∀ k, k < t.vars.length → assigned names ρ k = α k := by
  have hname : ∀ {k}, k < t.vars.length → names[k]? = some (names.getD k "") := by
    intro k hk
    rw [← h.count] at hk
    rw [List.getD_eq_getElem?_getD, List.getElem?_eq_getElem hk, Option.getD_some]
  apply BoolFn.exists_values_of_names
  intro j k hj hk hjk
  have heq : names[j]? = names[k]? := by
    rw [hname hj, hname hk, hjk]
  rw [← h.count] at hj
  exact (List.getElem?_inj hj h.nodup).1 heq

omit [Lawful ε] in
theorem Talks.satisfiable_iff (h : Talks s₀ t names o) {x : τ} {F : BoolFn}
    (hF : (x, F) ∈ t.given) (hvalue : ∀ ρ, F (assigned names ρ) = value lib ρ n) :
    F.Satisfiable ↔ ∃ ρ, value lib ρ n = true := by
  constructor
  · rintro ⟨α, hα⟩
    obtain ⟨ρ, hρ⟩ := h.exists_assignment α
    refine ⟨ρ, ?_⟩
    rw [← hvalue, ← hα]
    exact h.reached.congr_below hF hρ
  · rintro ⟨ρ, hρ⟩
    exact ⟨assigned names ρ, (hvalue ρ).trans hρ⟩

variable (hexact : Decider.Exact s₀)
include hexact

/-- The decider is right about a node that has an entry, and the oracle may go on with it as the
    query left it. -/
theorem Faithful.exists_query (h : Faithful s₀ v reps o) (hi : reps[i]? = some n)
    (he : o.entries[i]? = some e) :
    ∃ b s events, Decider.query o.decider e.object = ⟨.ok (.ok b), s, events⟩ ∧
      Verdict o.library n b ∧
      ∀ journal, Faithful s₀ v reps { o with decider := s, journal } := by
  obtain ⟨t, names, hb⟩ := h.backed
  obtain ⟨F, hF, hvalue⟩ := hb.stands hi he
  -- The object stands for the node, and the decider is right about it.
  obtain ⟨b, s, events, hquery, hverdict⟩ := hexact.query hb.reached _ hF
  refine ⟨b, s, events, ?_, hverdict.trans (hb.satisfiable_iff hF hvalue), fun journal => ?_⟩
  · rw [← hb.state]
    exact hquery
  · have htalks : Backed s₀ reps (t.asked s) names { o with decider := s, journal } :=
      ⟨⟨hb.reached.query hF hquery, rfl, hb.count, hb.nodup⟩, hb.named, hb.stands⟩
    exact ⟨h.varCount, h.wf, h.size, h.distinct, h.index, h.right, h.checked, _, _, htalks⟩

theorem Faithful.gives_queryDecider (h : Faithful s₀ v reps o) (hi : reps[i]? = some n)
    (he : o.entries[i]? = some e) :
    Gives (queryDecider e.object) o fun b o' => Faithful s₀ v reps o' ∧
      o'.library = o.library ∧ o'.entries = o.entries ∧ Verdict o.library n b := by
  obtain ⟨b, s, events, hquery, hverdict, hfaithful⟩ := h.exists_query hexact hi he
  unfold queryDecider
  exact Gives.step (callDecider_eq hquery) (Gives.pure ⟨hfaithful _, rfl, rfl, hverdict⟩)

/-! ## Recording a verdict -/

/-- A right verdict may be recorded in an open entry. -/
theorem Faithful.gives_recordVerdict (h : Faithful s₀ v reps o) (hi : reps[i]? = some n)
    (he : o.entries[i]? = some e) (hopen : e.status = .unknown)
    (hverdict : Verdict o.library n b) :
    Gives (recordVerdict i b) o fun _ o' => Faithful s₀ v reps o' ∧ o'.library = o.library := by
  obtain ⟨t, names, hb⟩ := h.backed
  let q : Maker (τ × BoolFn) := .constFalse
  obtain ⟨x, s, events, hrun⟩ := hexact.make hb.reached q nofun
  have hcall : Decider.makeFalse o.decider = ⟨.ok x, s, events⟩ := by
    rw [← hb.state]
    exact hrun
  have hgiven : ∀ y ∈ t.given, y ∈ (t.made q x s).given :=
    fun y hy => List.mem_cons_of_mem _ hy
  -- An unsatisfiable node is as good as the constant false.
  let e' : Entry τ := e.settled x b
  have hdecided : e.decided b x = .ok e' := Entry.decided_eq hopen b x
  have hstands : Stands (t.made q x s) names o.library e'.object n := by
    cases b with
    | true => exact (hb.stands hi he).given hgiven
    | false =>
      refine ⟨.const false, List.mem_cons_self .., fun ρ => ?_⟩
      exact (hverdict.right.2 rfl ρ).symm
  have hright : Right o.library n e'.status := by
    rw [Entry.status_settled]
    exact hverdict.right
  have hentry : ∀ {j : Nat} {m : NodeId} {e₁ : Entry τ}, reps[j]? = some m →
      (o.entries.setIfInBounds i e')[j]? = some e₁ →
      o.entries[j]? = some e₁ ∨ m = n ∧ e₁ = e' := by
    intro j m e₁ hm he₁
    rcases Entry.eq_of_put he₁ with he₁ | ⟨rfl, rfl⟩
    · exact .inl he₁
    · exact .inr ⟨Option.some.inj (hm.symm.trans hi), rfl⟩
  unfold recordVerdict
  refine Gives.step (callDecider_eq hcall) ?_
  refine Gives.step (entryAt_eq he) ?_
  refine Gives.step (orFault_eq hdecided) ⟨(), _, rfl, ?_, rfl⟩
  constructor
  case varCount => exact h.varCount
  case wf => exact h.wf
  case size =>
    show (o.entries.setIfInBounds i e').size = _
    rw [Array.size_setIfInBounds]
    exact h.size
  case distinct => exact h.distinct
  case index => exact h.index
  case right =>
    intro j m e₁ hm he₁
    rcases hentry hm he₁ with he₁ | ⟨rfl, rfl⟩
    · exact h.right hm he₁
    · exact hright
  case checked => exact h.checked
  case backed =>
    have htalks : Talks s₀ (t.made q x s) names
        { o with
          decider := s
          journal := o.journal ++ events
          entries := o.entries.setIfInBounds i e' } :=
      ⟨hb.reached.make nofun hrun, rfl, hb.count, hb.nodup⟩
    refine ⟨t.made q x s, names, htalks, hb.named, ?_⟩
    intro j m e₁ hm he₁
    rcases hentry hm he₁ with he₁ | ⟨rfl, rfl⟩
    · exact (hb.stands hm he₁).given hgiven
    · exact hstands

/-! ## The bounded check -/

omit hexact

theorem Faithful.gives_checkStatus (h : Faithful s₀ v reps o)
    (hn : contains o.library n = true) :
    Gives (checkStatus n) o fun status o' => Faithful s₀ v reps o' ∧
      Library.Extends o.library o'.library ∧ o'.entries = o.entries ∧
      Right o.library n status := by
  obtain ⟨pairs, hpairs, hright⟩ := h.checked
  have hfind := hpairs.find?_eq h.wf hn
  unfold checkStatus
  refine Gives.step rfl ?_
  cases hp : pairs.find? fun p => p.1 = n with
  | some p =>
    -- The check was run before, and its outcome still holds.
    rw [hp] at hfind
    refine Gives.step (orFault_eq hfind) (Gives.pure ⟨h, .refl _, rfl, ?_⟩)
    have hpn : p.1 = n := by simpa using List.find?_some hp
    rw [← hpn]
    exact hright p (List.mem_of_find?_eq_some hp)
  | none =>
    rw [hp] at hfind
    refine Gives.step (orFault_eq hfind) ?_
    -- It is run now, and the library may have changed behind it.
    obtain ⟨status, lib, events, hcheck, hwf, hlater, hstatus⟩ :=
      Lawful.check o.settings.patterns h.wf hn
    have hheld := (Lawful.founded h.wf).contains_of_extends hlater hn
    obtain ⟨checked, hinsert, hlists⟩ := (hpairs.mono h.wf hlater).insert_eq hwf hheld status
    refine Gives.step (callLibrary_eq hcheck) ?_
    refine Gives.step rfl (Gives.step rfl (Gives.step rfl ?_))
    refine Gives.step (orFault_eq hinsert) ?_
    refine Gives.step rfl (Gives.pure ⟨?_, hlater, rfl, hstatus⟩)
    have hlarger : Faithful s₀ v reps { o with library := lib } := by
      refine h.larger ?_ ?_
      · exact ⟨hwf, hlater, rfl, rfl, rfl, rfl⟩
      · exact h.varCount
    have hkeep : ∀ {m st}, contains o.library m = true → Right o.library m st → Right lib m st :=
      fun hm => (Lawful.founded h.wf).right_of_extends (Lawful.founded hwf) hlater hm
    refine ⟨h.varCount, hwf, h.size, h.distinct, hlarger.index, hlarger.right, ⟨_, hlists, ?_⟩, ?_⟩
    · intro p hp
      rcases List.mem_append.1 hp with hp | hp
      · exact hkeep (hpairs.held p hp) (hright p hp)
      · rw [List.mem_singleton.1 hp]
        exact hkeep hn hstatus
    · obtain ⟨t, names, hb⟩ := hlarger.backed
      exact ⟨t, names, ⟨hb.reached, hb.state, hb.count, hb.nodup⟩, hb.named, hb.stands⟩

theorem Faithful.gives_checkVerdict? (h : Faithful s₀ v reps o)
    (hn : contains o.library n = true) :
    Gives (checkVerdict? n) o fun verdict? o' => Faithful s₀ v reps o' ∧
      Library.Extends o.library o'.library ∧ o'.entries = o.entries ∧
      ∀ b, verdict? = some b → Verdict o.library n b := by
  unfold checkVerdict?
  refine Gives.step rfl ?_
  by_cases hwanted : o.settings.precheck = true
  · rw [if_pos hwanted]
    refine (h.gives_checkStatus hn).bind ?_
    rintro status o' ⟨hfaithful, hlater, hentries, hright⟩
    exact Gives.pure ⟨hfaithful, hlater, hentries, fun b hb => verdict_of_right hright hb⟩
  · rw [if_neg hwanted]
    exact Gives.pure ⟨h, .refl _, rfl, nofun⟩

theorem Faithful.gives_reportQuery (h : Faithful s₀ v reps o)
    (hn : contains o.library n = true) (b : Bool) :
    Gives (reportQuery n b) o fun _ o' => Faithful s₀ v reps o' ∧
      o'.library = o.library ∧ o'.entries = o.entries := by
  unfold reportQuery
  refine Gives.step rfl ?_
  split
  · obtain ⟨text, htext⟩ := Lawful.print_eq h.wf hn
    refine Gives.step (ask_eq htext) ⟨(), _, rfl, ?_, rfl, rfl⟩
    refine h.larger ?_ ?_
    · exact ⟨h.wf, .refl _, rfl, rfl, rfl, rfl⟩
    · exact h.varCount
  · exact Gives.pure ⟨h, rfl, rfl⟩

/-! ## Consulting -/

/-- What is counted does not matter. -/
theorem Faithful.stats (h : Faithful s₀ v reps o) (stats : Stats) :
    Faithful s₀ v reps { o with stats } := by
  refine h.larger ?_ ?_
  · exact ⟨h.wf, .refl _, rfl, rfl, rfl, rfl⟩
  · exact h.varCount

include hexact

/-- Consulting the entry of a node gives a right verdict. -/
theorem Faithful.gives_consult (h : Faithful s₀ v reps o) (hi : reps[i]? = some n) :
    Gives (consult n i) o fun b o' => Faithful s₀ v reps o' ∧
      Library.Extends o.library o'.library ∧ Verdict o.library n b := by
  obtain ⟨e, he⟩ := h.exists_entry hi
  have hn : contains o.library n = true := h.held (List.mem_of_getElem? hi)
  unfold consult
  refine Gives.step (entryAt_eq he) ?_
  cases hknown : e.status.verdict? with
  | some b => exact Gives.pure ⟨h, .refl _, verdict_of_right (h.right hi he) hknown⟩
  | none =>
    have hopen : e.status = .unknown := Status.eq_unknown_of_verdict? hknown
    refine (h.gives_checkVerdict? hn).bind ?_
    rintro verdict? o₁ ⟨h₁, hlater, hentries, hverdict?⟩
    have he₁ : o₁.entries[i]? = some e := by
      rw [hentries]
      exact he
    have hback : ∀ {b}, Verdict o.library n b ↔ Verdict o₁.library n b :=
      verdict_iff_of_extends h.wf h₁.wf hlater hn
    cases verdict? with
    | some b =>
      -- The bounded check has a verdict, and the library is right.
      have hverdict := hverdict? b rfl
      have hcounted := h₁.stats { o₁.stats with checkHits := o₁.stats.checkHits + 1 }
      refine Gives.step rfl ?_
      refine (hcounted.gives_recordVerdict hexact hi he₁ hopen (hback.1 hverdict)).bind ?_
      rintro _ o' ⟨h', hlibrary⟩
      refine Gives.pure ⟨h', ?_, hverdict⟩
      rw [hlibrary]
      exact hlater
    | none =>
      -- The decider has to be asked.
      refine (h₁.gives_queryDecider hexact hi he₁).bind ?_
      rintro b o₂ ⟨h₂, hlibrary₂, hentries₂, hverdict⟩
      have hcounted := h₂.stats { o₂.stats with queries := o₂.stats.queries + 1 }
      have hn₂ : contains o₂.library n = true := h₂.held (List.mem_of_getElem? hi)
      refine Gives.step rfl ?_
      refine (hcounted.gives_reportQuery hn₂ b).bind ?_
      rintro _ o₃ ⟨h₃, hlibrary₃, hentries₃⟩
      have hlibrary : o₃.library = o₁.library := hlibrary₃.trans hlibrary₂
      have he₃ : o₃.entries[i]? = some e := by
        rw [hentries₃]
        exact hentries₂ ▸ he₁
      have hverdict₃ : Verdict o₃.library n b := by
        rw [hlibrary]
        exact hverdict
      refine (h₃.gives_recordVerdict hexact hi he₃ hopen hverdict₃).bind ?_
      rintro _ o' ⟨h', hlibrary'⟩
      refine Gives.pure ⟨h', ?_, hback.2 hverdict⟩
      rw [hlibrary', hlibrary]
      exact hlater

end Oracle

end SatMemo
