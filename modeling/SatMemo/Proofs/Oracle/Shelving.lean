import SatMemo.Proofs.Oracle.Calls

/-! # What calls do to the index

    The index and the number of entries change only when a formula is built.  A
    question builds its formula first and then consults the entry, which leaves the
    index as it is, for whatever reason it may stop; other calls build nothing. -/

namespace SatMemo

namespace Oracle

variable {ε σ τ : Type} [Library ε] [Decider σ τ] {o o' : Oracle ε σ τ} {c : Call NodeId}
  {n : NodeId}

/-- The index and the number of entries are the same. -/
structure Shelved (o o' : Oracle ε σ τ) : Prop where
  index : o'.index = o.index
  size  : o'.entries.size = o.entries.size

/-! ## Consulting -/

/-- Calls that make a passage, for whatever reason they may stop. -/
abbrev Passes (P : Passage ε σ τ) {α : Type} (p : OracleM ε σ τ α) : Prop :=
  Keeps P (fun _ => True) p

/-- The passage takes no notice of what consulting an entry changes. -/
structure Spares (P : Passage ε σ τ) : Prop extends Overlooks P where
  decider : ∀ (o : Oracle ε σ τ) decider journal, P.rel o { o with decider, journal }
  settled : ∀ (o : Oracle ε σ τ) i e,
    P.rel o { o with entries := o.entries.setIfInBounds i e }
  stats   : ∀ (o : Oracle ε σ τ) stats, P.rel o { o with stats }

section Consulting

variable {P : Passage ε σ τ}

omit [Library ε] [Decider σ τ] in
theorem passes_callDecider {α : Type}
    (hdecider : ∀ (o : Oracle ε σ τ) decider journal, P.rel o { o with decider, journal })
    (call : σ → Reply σ α) : Passes P (callDecider call) := by
  intro o
  cases o with
  | mk library decider index entries checked varCount settings stats watched journal =>
    rcases hcall : call decider with ⟨fault | x, s, events⟩
    · unfold Ends callDecider
      simp only [hcall]
      exact ⟨hdecider _ s _, fun _ _ => trivial⟩
    · unfold Ends callDecider
      simp only [hcall]
      exact ⟨hdecider _ s _, fun _ _ => trivial⟩

omit [Library ε] [Decider σ τ] in
theorem passes_entryAt (i : Nat) : Passes P (entryAt i : OracleM ε σ τ (Entry τ)) := by
  refine Keeps.get.bind fun o => ?_
  split
  · exact Keeps.pure _
  · exact Keeps.throw trivial

variable (hP : Spares P)
include hP

theorem passes_recordVerdict (i : Nat) (satisfiable : Bool) :
    Passes P (recordVerdict i satisfiable) := by
  refine (passes_callDecider hP.decider _).bind fun falsity => ?_
  refine (passes_entryAt i).bind fun e => ?_
  exact (Keeps.orFault fun _ _ => trivial).bind fun e' => Keeps.modify fun o => hP.settled o i e'

theorem passes_queryDecider (x : τ) : Passes P (queryDecider x) := by
  refine (passes_callDecider hP.decider _).bind fun answer => ?_
  split
  · exact Keeps.pure _
  · exact Keeps.throw trivial

/-- Consulting an entry makes every passage of this kind. -/
theorem passes_consult (n : NodeId) (i : Nat) : Passes P (consult n i) := by
  have hP' := hP.toOverlooks
  refine (passes_entryAt i).bind fun e => ?_
  split
  · exact Keeps.pure _
  · refine (keeps_checkVerdict? hP' (fun _ => trivial) n).bind fun verdict? => ?_
    have hrecord {b : Bool} : Passes P (recordVerdict i b >>= fun _ => pure b) :=
      (passes_recordVerdict hP i b).bind fun _ => Keeps.pure _
    split
    · exact Keeps.bind (Keeps.modify fun o => hP.stats o _) fun _ => hrecord
    · refine (passes_queryDecider hP _).bind fun b => ?_
      refine Keeps.bind (Keeps.modify fun o => hP.stats o _) fun _ => ?_
      refine (keeps_reportQuery hP' (fun _ => trivial) n b).bind fun _ => ?_
      exact hrecord

end Consulting

/-- The index and the number of entries stay. -/
def shelving (ε σ τ : Type) : Passage ε σ τ where
  rel   := Shelved
  refl  := fun _ => ⟨rfl, rfl⟩
  trans := fun h h' => ⟨h'.index.trans h.index, h'.size.trans h.size⟩

omit [Decider σ τ] in
theorem spares_shelving : Spares (shelving ε σ τ) where
  check := fun _ _ _ => ⟨rfl, rfl⟩
  checks := fun _ _ => ⟨rfl, rfl⟩
  checked := fun _ _ => ⟨rfl, rfl⟩
  journal := fun _ _ => ⟨rfl, rfl⟩
  decider := fun _ _ _ => ⟨rfl, rfl⟩
  settled := fun _ _ _ => ⟨rfl, Array.size_setIfInBounds⟩
  stats := fun _ _ => ⟨rfl, rfl⟩

/-! ## Calls -/

/-- The formula that a call builds. -/
def subject : Call NodeId → Option NodeId
  | .build n | .isSatisfiable n => some n
  | _ => none

/-- A call that builds nothing touches the library, the count of variables and the journal. -/
theorem after_of_no_subject (h : subject c = none) (o : Oracle ε σ τ) :
    ∃ library varCount journal, after (perform c) o = { o with library, varCount, journal } := by
  have hgrow (make : ε → Grown ε) (v : Nat) : ∃ library varCount journal,
      ({ o with varCount := v }.grow make).2 = { o with library, varCount, journal } := by
    rw [grow_eq]
    exact ⟨_, _, _, rfl⟩
  cases c with
  | makeTrue => exact hgrow _ o.varCount
  | makeFalse => exact hgrow _ o.varCount
  | newVariable =>
    exact hgrow (fun lib => Library.makeVariable lib (variableName o.varCount)) (o.varCount + 1)
  | makeNot n => exact hgrow (fun lib => Library.makeNot lib n) o.varCount
  | makeAnd m n => exact hgrow (fun lib => Library.makeAnd lib [m, n]) o.varCount
  | makeOr m n => exact hgrow (fun lib => Library.makeOr lib [m, n]) o.varCount
  | makeAll ns => exact hgrow (fun lib => Library.makeAnd lib ns) o.varCount
  | makeAny ns => exact hgrow (fun lib => Library.makeOr lib ns) o.varCount
  | build n => cases h
  | isSatisfiable n => cases h

theorem shelved_of_no_subject (h : subject c = none) (o : Oracle ε σ τ) :
    Shelved o (after (perform c) o) := by
  obtain ⟨library, varCount, journal, hafter⟩ := after_of_no_subject h o
  rw [hafter]
  exact ⟨rfl, rfl⟩

omit [Library ε] [Decider σ τ] in
/-- A second half that leaves the index. -/
theorem shelved_after_bind {α β : Type} {p : OracleM ε σ τ α} {k : α → OracleM ε σ τ β}
    (hk : ∀ a, Passes (shelving ε σ τ) (k a)) (o : Oracle ε σ τ) :
    Shelved (after p o) (after (p >>= k) o) := by
  cases hp : p o with
  | ok a o₁ =>
    rw [after_ok hp, after_congr (bind_ok hp)]
    exact ((hk a o₁).mono fun _ _ h => h.1).of_after
  | error stop o₁ =>
    rw [after_error hp, after_error (bind_error hp)]
    exact ⟨rfl, rfl⟩

/-- A call that builds a formula does no more to the index than building it. -/
theorem shelved_of_subject (h : subject c = some n) (o : Oracle ε σ τ) :
    Shelved (after (build n) o) (after (perform c) o) := by
  cases c with
  | build n' =>
    cases h
    exact shelved_after_bind (fun i => Keeps.pure (Answer.entry i)) o
  | isSatisfiable n' =>
    cases h
    have hassoc : perform (.isSatisfiable n) = build n >>= fun i =>
        consult n i >>= fun b => (pure (.verdict b) : OracleM ε σ τ Answer) := bind_assoc ..
    rw [hassoc]
    have hverdict : ∀ i, Passes (shelving ε σ τ)
        (consult n i >>= fun b => pure (Answer.verdict b)) :=
      fun i => (passes_consult spares_shelving n i).bind fun _ => Keeps.pure _
    exact shelved_after_bind hverdict o
  | _ => cases h

theorem faults_of_build {fault : Fault} (h : subject c = some n)
    (hbuild : build n o = .error (.fault fault) o') : Faults c o := by
  cases c with
  | build n' =>
    cases h
    exact ⟨fault, o', bind_error hbuild⟩
  | isSatisfiable n' =>
    cases h
    exact ⟨fault, o', bind_error (bind_error hbuild)⟩
  | _ => cases h

theorem not_faults_build {i : Nat} (hbuild : build n o = .ok i o') : ¬ Faults (.build n) o := by
  intro ⟨fault, o₁, hfault⟩
  have hp : perform (.build n) o = .ok (.entry i) o' := bind_ok hbuild
  rw [hp] at hfault
  cases hfault

end Oracle

end SatMemo
