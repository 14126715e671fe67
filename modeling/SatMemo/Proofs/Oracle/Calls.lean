import SatMemo.Proofs.Oracle.Run

/-! # The calls of an oracle

    What a program may ask of an oracle, as data, so that statements can speak of
    every sequence of calls.  A question of satisfiability first builds the
    formula and then consults the entry; `isSatisfiable_eq` takes it apart.

    The rest says what building does to an oracle in terms of what lowering one
    node does: whatever passage the latter makes, the former makes.  Of the steps
    of a consultation, those that have nothing to do with the entries make every
    passage that overlooks what they change. -/

namespace SatMemo

/-! ## Whose faults -/

/-- Some call on a library of this kind can raise the fault. -/
inductive Library.Raises (ε : Type) [Library ε] (fault : Fault) : Prop where
  | kind {lib : ε} {n : NodeId} : Library.kind lib n = .error fault → Raises ε fault
  | children {lib : ε} {n : NodeId} : Library.children lib n = .error fault → Raises ε fault
  | label {lib : ε} {n : NodeId} : Library.label lib n = .error fault → Raises ε fault
  | structEq {lib : ε} {m n : NodeId} :
      Library.structEq lib m n = .error fault → Raises ε fault
  | structKey {lib : ε} {n : NodeId} : Library.structKey lib n = .error fault → Raises ε fault
  | print {lib : ε} {n : NodeId} : Library.print lib n = .error fault → Raises ε fault
  | checkBounded {lib : ε} {n : NodeId} {budget : Nat} :
      (Library.checkBounded lib n budget).result = .error fault → Raises ε fault

/-- Some call on a decider of this kind can raise the fault. -/
inductive Decider.Raises (σ : Type) {τ : Type} [Decider σ τ] (fault : Fault) : Prop where
  | makeTrue {s : σ} : (Decider.makeTrue s).result = .error fault → Raises σ fault
  | makeFalse {s : σ} : (Decider.makeFalse s).result = .error fault → Raises σ fault
  | makeVariable {s : σ} {name : String} :
      (Decider.makeVariable s name).result = .error fault → Raises σ fault
  | makeNot {s : σ} {x : τ} : (Decider.makeNot s x).result = .error fault → Raises σ fault
  | makeAnd {s : σ} {xs : List τ} : (Decider.makeAnd s xs).result = .error fault → Raises σ fault
  | makeOr {s : σ} {xs : List τ} : (Decider.makeOr s xs).result = .error fault → Raises σ fault
  | query {s : σ} {x : τ} : (Decider.query s x).result = .error fault → Raises σ fault

namespace ClassMap

variable {ν ε : Type} [Library ε] {lib : ε} {n : NodeId} {fault : Fault}

theorem raises_of_search {bucket : List (NodeId × ν)} (h : search lib n bucket = .error fault) :
    Library.Raises ε fault := by
  induction bucket with
  | nil => cases h
  | cons entry rest ih =>
    obtain ⟨m, v⟩ := entry
    unfold search at h
    cases heq : Library.structEq lib m n with
    | error fault' =>
      rw [heq] at h
      cases h
      exact .structEq heq
    | ok same =>
      rw [heq] at h
      cases same with
      | true => cases h
      | false => exact ih h

theorem raises_of_find? {c : ClassMap ν} (h : c.find? lib n = .error fault) :
    Library.Raises ε fault := by
  cases hkey : Library.structKey lib n with
  | error fault' =>
    unfold find? at h
    rw [hkey] at h
    cases h
    exact .structKey hkey
  | ok key =>
    rw [find?_of_structKey hkey] at h
    exact raises_of_search h

theorem raises_of_insert {c : ClassMap ν} {v : ν} (h : c.insert lib n v = .error fault) :
    Library.Raises ε fault := by
  unfold insert at h
  cases hkey : Library.structKey lib n with
  | error fault' =>
    rw [hkey] at h
    cases h
    exact .structKey hkey
  | ok key =>
    rw [hkey] at h
    cases h

end ClassMap

/-! ## Verdicts and entries -/

theorem Status.eq_unknown_of_verdict? {s : Status} (h : s.verdict? = none) : s = .unknown := by
  cases s with
  | unknown => rfl
  | sat => cases h
  | unsat => cases h

namespace Entry

variable {τ : Type}

/-- The entry with a verdict. -/
def settled (e : Entry τ) (falsity : τ) (satisfiable : Bool) : Entry τ :=
  if satisfiable then ⟨e.object, .sat⟩ else ⟨falsity, .unsat⟩

theorem status_settled (e : Entry τ) (falsity : τ) (satisfiable : Bool) :
    (e.settled falsity satisfiable).status = .ofBool satisfiable := by
  cases satisfiable <;> rfl

/-- An open entry takes a verdict. -/
theorem decided_eq {e : Entry τ} (h : e.status = .unknown) (satisfiable : Bool) (falsity : τ) :
    e.decided satisfiable falsity = .ok (e.settled falsity satisfiable) := by
  unfold decided settled
  rw [h]
  cases satisfiable <;> rfl

/-- Where one entry was put, the others are as before. -/
theorem eq_of_put {entries : Array (Entry τ)} {i j : Nat} {e e₁ : Entry τ}
    (h : (entries.setIfInBounds i e)[j]? = some e₁) :
    entries[j]? = some e₁ ∨ i = j ∧ e₁ = e := by
  rw [Array.getElem?_setIfInBounds] at h
  split at h
  · rename_i hij
    split at h
    · exact .inr ⟨hij, (Option.some.inj h).symm⟩
    · cases h
  · exact .inl h

end Entry

namespace Oracle

variable {ε σ τ : Type} [Library ε]

/-! ## Calls as data -/

/-- A call, about handles of type `ρ`. -/
inductive Call (ρ : Type) where
  | makeTrue
  | makeFalse
  | newVariable
  | makeNot (n : ρ)
  | makeAnd (m n : ρ)
  | makeOr (m n : ρ)
  | makeAll (ns : List ρ)
  | makeAny (ns : List ρ)
  | build (n : ρ)
  | isSatisfiable (n : ρ)

/-- What a call comes to. -/
inductive Answer where
  | node (n : NodeId)
  | entry (i : Nat)
  | verdict (satisfiable : Bool)
deriving Repr, DecidableEq

/-- A call that only touches the library. -/
def making (make : Oracle ε σ τ → NodeId × Oracle ε σ τ) : OracleM ε σ τ Answer :=
  fun o => .ok (.node (make o).1) (make o).2

omit [Library ε] in
/-- What making a node does to the oracle. -/
theorem grow_eq (make : ε → Grown ε) (o : Oracle ε σ τ) :
    o.grow make = ((make o.library).node,
      { o with
        library := (make o.library).library
        journal := o.journal ++ (make o.library).events }) := by
  cases o
  rfl

/-- Make a call. -/
def perform [Decider σ τ] : Call NodeId → OracleM ε σ τ Answer
  | .makeTrue        => making makeTrue
  | .makeFalse       => making makeFalse
  | .newVariable     => making newVariable
  | .makeNot n       => making (makeNot n)
  | .makeAnd m n     => making (makeAnd m n)
  | .makeOr m n      => making (makeOr m n)
  | .makeAll ns      => making (makeAll ns)
  | .makeAny ns      => making (makeAny ns)
  | .build n         => return .entry (← build n)
  | .isSatisfiable n => return .verdict (← isSatisfiable n)

/-- Did the call end the run? -/
def Faults [Decider σ τ] (c : Call NodeId) (o : Oracle ε σ τ) : Prop :=
  ∃ fault o', perform c o = .error (.fault fault) o'

/-- The second half of a question, once the formula has entry `i`. -/
def consult [Decider σ τ] (n : NodeId) (i : Nat) : OracleM ε σ τ Bool := do
  let e ← entryAt i
  match e.status.verdict? with
  | some satisfiable => return satisfiable
  | none             =>
      match ← checkVerdict? n with
      | some satisfiable =>
          modify fun o =>
            { o with stats := { o.stats with checkHits := o.stats.checkHits + 1 } }
          recordVerdict i satisfiable
          return satisfiable
      | none =>
          let satisfiable ← queryDecider e.object
          modify fun o => { o with stats := { o.stats with queries := o.stats.queries + 1 } }
          reportQuery n satisfiable
          recordVerdict i satisfiable
          return satisfiable

theorem isSatisfiable_eq [Decider σ τ] (n : NodeId) :
    (isSatisfiable n : OracleM ε σ τ Bool) = build n >>= consult n := rfl

/-! ## Looking up -/

section LookingUp

variable {o : Oracle ε σ τ} {n : NodeId} {i : Nat} {e : Entry τ}

theorem indexOf?_eq_ok_iff {i? : Option Nat} :
    indexOf? n o = .ok i? o ↔ o.index.find? o.library n = .ok i? := by
  refine ⟨?_, orFault_eq⟩
  intro h
  have hrun : (orFault (o.index.find? o.library n) : OracleM ε σ τ _) o = .ok i? o := h
  cases hfind : o.index.find? o.library n with
  | ok j? =>
    rw [hfind] at hrun
    cases hrun
    rfl
  | error fault =>
    rw [hfind] at hrun
    cases hrun

theorem entryOf?_eq (hi : indexOf? n o = .ok (some i) o) (he : o.entries[i]? = some e) :
    entryOf? n o = .ok (some e) o := by
  unfold entryOf?
  rw [bind_ok hi, ← he]
  rfl

theorem status?_eq (hi : indexOf? n o = .ok (some i) o) (he : o.entries[i]? = some e) :
    status? n o = .ok (some e.status) o :=
  bind_ok (entryOf?_eq hi he)

end LookingUp

/-! ## Building, one node at a time -/

/-- The reasons for which building may stop, apart from those of lowering. -/
structure Admits (ε : Type) [Library ε] (B : Stop → Prop) : Prop where
  library : ∀ {fault}, Library.Raises ε fault → B (.fault fault)
  error   : ∀ e, B (.error e)
  range   : ∀ size i, B (.fault (.outOfBounds size i))
  descent : B (.fault .endlessDescent)

section Building

variable {P : Passage ε σ τ} {B : Stop → Prop}

theorem keeps_indexOf? (hB : Admits ε B) (n : NodeId) : Keeps P B (indexOf? n) :=
  Keeps.get.bind fun _ => Keeps.orFault fun _ h => hB.library (ClassMap.raises_of_find? h)

theorem keeps_holds (n : NodeId) : Keeps P B (holds n : OracleM ε σ τ Bool) :=
  Keeps.get.bind fun _ => Keeps.pure _

theorem keeps_entryAt (hB : Admits ε B) (i : Nat) :
    Keeps P B (entryAt i : OracleM ε σ τ (Entry τ)) := by
  refine Keeps.get.bind fun o => ?_
  split
  · exact Keeps.pure _
  · exact Keeps.throw (hB.range _ _)

theorem keeps_operandObjects (hB : Admits ε B) (ns : List NodeId) :
    Keeps P B (operandObjects ns : OracleM ε σ τ (List τ)) := by
  induction ns with
  | nil => exact Keeps.pure _
  | cons n ns ih =>
    refine (keeps_indexOf? hB n).bind fun i? => ?_
    split
    · exact Keeps.throw (hB.error _)
    · exact (keeps_entryAt hB _).bind fun _ => ih.bind fun _ => Keeps.pure _

theorem keeps_pushOperands (hB : Admits ε B) (ns : List NodeId) (pending : List Pending) :
    Keeps P B (pushOperands ns pending : OracleM ε σ τ (List Pending)) := by
  induction ns generalizing pending with
  | nil => exact Keeps.pure _
  | cons n ns ih =>
    refine (keeps_holds n).bind fun held => ?_
    refine Keeps.guard (hB.error _) fun _ => ?_
    refine (keeps_indexOf? hB n).bind fun i? => ?_
    exact Keeps.ite (fun _ => ih _) fun _ => ih _

theorem keeps_openNode (hB : Admits ε B) (n : NodeId) :
    Keeps P B (openNode n : OracleM ε σ τ (List Pending)) := by
  refine (Keeps.ask fun _ _ h => hB.library (.kind h)).bind fun kind => ?_
  refine (Keeps.ask fun _ _ h => hB.library (.children h)).bind fun children => ?_
  refine Keeps.guard (hB.error _) fun _ => ?_
  exact keeps_pushOperands hB _ _

variable [Decider σ τ] (hB : Admits ε B) (hlower : ∀ n, Keeps P B (lower n : OracleM ε σ τ Unit))
include hB hlower

theorem keeps_settle (pending : List Pending) :
    Keeps P B (settle pending : OracleM ε σ τ (Option (NodeId × List Pending))) := by
  induction pending with
  | nil => exact Keeps.pure _
  | cons next rest ih =>
    obtain ⟨n, opened⟩ := next
    refine (keeps_indexOf? hB n).bind fun i? => ?_
    -- A node that has an entry is passed over, an opened one is lowered.
    refine Keeps.ite (fun _ => ih) fun _ => ?_
    refine Keeps.ite (fun _ => ?_) fun _ => Keeps.pure _
    exact (hlower n).bind fun _ => ih

theorem keeps_workOff (budget : Nat) (pending : List Pending) :
    Keeps P B (workOff budget pending : OracleM ε σ τ Unit) := by
  induction budget generalizing pending with
  | zero =>
    refine (keeps_settle hB hlower pending).bind fun next? => ?_
    split
    · exact Keeps.pure _
    · exact Keeps.throw hB.descent
  | succ budget ih =>
    refine (keeps_settle hB hlower pending).bind fun next? => ?_
    split
    · exact Keeps.pure _
    · exact (keeps_openNode hB _).bind fun _ => ih _

/-- Building makes whatever passage lowering one node makes. -/
theorem keeps_build (hreport : ∀ e, Keeps P B (report e : OracleM ε σ τ Unit))
    (hstats : ∀ (o : Oracle ε σ τ) stats, P.rel o { o with stats }) (n : NodeId) :
    Keeps P B (build n : OracleM ε σ τ Nat) := by
  refine (keeps_holds n).bind fun held => ?_
  refine Keeps.guard (hB.error _) fun _ => ?_
  refine (keeps_indexOf? hB n).bind fun i? => ?_
  split
  · refine (Keeps.modify fun o => hstats o _).bind fun _ => ?_
    exact (hreport _).bind fun _ => Keeps.pure _
  · refine Keeps.get.bind fun o => ?_
    refine (keeps_workOff hB hlower _ _).bind fun _ => ?_
    refine (keeps_indexOf? hB n).bind fun j? => ?_
    split
    · exact Keeps.pure _
    · exact Keeps.throw (hB.error _)

end Building

/-! ## The bounded check -/

/-- The passage takes no notice of bounded checks, of their outcomes and of events. -/
structure Overlooks (P : Passage ε σ τ) : Prop where
  check   : ∀ (o : Oracle ε σ τ) n budget, P.rel o
    { o with
      library := (Library.checkBounded o.library n budget).state
      journal := o.journal ++ (Library.checkBounded o.library n budget).events }
  checks  : ∀ (o : Oracle ε σ τ) checks, P.rel o { o with stats := { o.stats with checks } }
  checked : ∀ (o : Oracle ε σ τ) checked, P.rel o { o with checked }
  journal : ∀ (o : Oracle ε σ τ) e, P.rel o { o with journal := o.journal.push e }

section Checking

variable {P : Passage ε σ τ} {B : Stop → Prop} (hP : Overlooks P)
include hP

theorem keeps_report (e : Event) : Keeps P B (report e) :=
  Keeps.modify fun o => hP.journal o e

variable (hB : ∀ {fault}, Library.Raises ε fault → B (.fault fault))
include hB

theorem keeps_checkBounded (n : NodeId) (budget : Nat) :
    Keeps P B (callLibrary fun lib => Library.checkBounded lib n budget) := by
  intro o
  have hpassage := hP.check o n budget
  cases o with
  | mk library decider index entries checked varCount settings stats watched journal =>
    dsimp only at hpassage
    rcases hcall : Library.checkBounded library n budget with ⟨fault | a, lib, events⟩
    · rw [hcall] at hpassage
      unfold Ends callLibrary
      simp only [hcall]
      refine ⟨hpassage, ?_⟩
      intro stop hstop
      cases hstop
      exact hB (.checkBounded (congrArg Reply.result hcall))
    · rw [hcall] at hpassage
      unfold Ends callLibrary
      simp only [hcall]
      exact ⟨hpassage, nofun⟩

theorem keeps_checkStatus (n : NodeId) : Keeps P B (checkStatus n) := by
  refine Keeps.get.bind fun o => ?_
  refine (Keeps.orFault fun _ h => hB (ClassMap.raises_of_find? h)).bind fun status? => ?_
  split
  · exact Keeps.pure _
  · refine (keeps_checkBounded hP hB n _).bind fun status => ?_
    refine (Keeps.modify fun o => hP.checks o _).bind fun _ => ?_
    refine (keeps_report hP _).bind fun _ => ?_
    -- The oracle read last is written back with one more outcome in it.
    refine Keeps.ofGet fun o => ?_
    have hinsert : Keeps (unchanged ε σ τ) B (orFault (o.checked.insert o.library n status)) :=
      Keeps.orFault fun _ h => hB (ClassMap.raises_of_insert h)
    apply (hinsert o).bind
    · intro checked o' ⟨heq, _⟩
      cases heq
      exact ⟨hP.checked o checked, nofun⟩
    · intro stop o' ⟨heq, hstop⟩
      cases heq
      refine ⟨P.refl o, ?_⟩
      intro stop' hstop'
      cases hstop'
      exact hstop stop rfl

theorem keeps_checkVerdict? (n : NodeId) : Keeps P B (checkVerdict? n) := by
  refine Keeps.get.bind fun o => Keeps.ite (fun _ => ?_) fun _ => Keeps.pure _
  exact (keeps_checkStatus hP hB n).bind fun _ => Keeps.pure _

theorem keeps_reportQuery (n : NodeId) (satisfiable : Bool) :
    Keeps P B (reportQuery n satisfiable) := by
  refine Keeps.get.bind fun o => Keeps.ite (fun _ => ?_) fun _ => Keeps.pure _
  exact (Keeps.ask fun _ _ h => hB (.print h)).bind fun _ => keeps_report hP _

end Checking

end Oracle

end SatMemo
