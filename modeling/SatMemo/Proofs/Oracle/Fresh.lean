import SatMemo.Cnf.Decider
import SatMemo.Proofs.Library.Naming
import SatMemo.Proofs.Library.Simulation
import SatMemo.Proofs.Oracle.Scripts
import SatMemo.Proofs.Oracle.Shelving

/-! # When a new variable is fresh

    An oracle names its variables by a count of its own and asks the library for
    them by name.  Two of its variables therefore never have one name.  But the
    library may have been in use before, and it returns the node that it has if
    somebody asked it for that name then.

    So a new variable differs from all nodes that were there exactly if its name
    was not asked for before the oracle was set up.  Nothing that happens since
    makes a difference: along a run the library is asked for the oracle's own
    names and for no others. -/

namespace SatMemo

open Library (Naming Registers Introduces Knows contains structEq)

/-- A library after the calls `before`. -/
def Library.stocked {ε : Type} [Library ε] (lib : ε) (before : List (Maker NodeId)) : ε :=
  before.foldl (fun lib q => (q.build lib).library) lib

namespace Oracle

variable {ε σ τ : Type} [Library ε] [Decider σ τ] {o o' : Oracle ε σ τ} {lib : ε}
  {c : Call NodeId} {calls : List (Call NodeId)} {before : List (Maker NodeId)}

/-- An oracle after a list of calls, whatever they came to. -/
def afterAll (calls : List (Call NodeId)) (o : Oracle ε σ τ) : Oracle ε σ τ :=
  calls.foldl (fun o c => after (perform c) o) o

/-! ## Calls that ask for no variable -/

/-- The passage looks at nothing but the library and the count of variables, and overlooks
    what a bounded check does to the library. -/
structure Confined (P : Passage ε σ τ) : Prop where
  same  : ∀ {o o'}, o'.library = o.library → o'.varCount = o.varCount → P.rel o o'
  check : ∀ (o : Oracle ε σ τ) n budget journal, P.rel o
    { o with library := (Library.checkBounded o.library n budget).state, journal }

theorem admits_all (ε : Type) [Library ε] : Admits ε fun _ => True where
  library := fun _ => trivial
  error := fun _ => trivial
  range := fun _ _ => trivial
  descent := trivial

section Confined

variable {P : Passage ε σ τ} (hP : Confined P)
include hP

omit [Decider σ τ] in
theorem Confined.spares : Spares P where
  check := fun o n budget => hP.check o n budget _
  checks := fun _ _ => hP.same rfl rfl
  checked := fun _ _ => hP.same rfl rfl
  journal := fun _ _ => hP.same rfl rfl
  decider := fun _ _ _ => hP.same rfl rfl
  settled := fun _ _ _ => hP.same rfl rfl
  stats := fun _ _ => hP.same rfl rfl

/-- The decider makes an object for the node. -/
theorem Confined.objectFor (n : NodeId) (kind : Kind) (operands : List τ) :
    Passes P (objectFor n kind operands) := by
  have hcall : ∀ (call : σ → Reply σ τ) (status : Status),
      Passes P (do return (⟨← callDecider call, status⟩ : Entry τ)) :=
    fun call _ => (passes_callDecider hP.spares.decider call).bind fun _ => Keeps.pure _
  cases kind with
  | constTrue => exact hcall _ _
  | constFalse => exact hcall _ _
  | var => exact (Keeps.ask fun _ _ _ => trivial).bind fun _ => hcall _ _
  | not =>
    cases operands with
    | nil => exact Keeps.throw trivial
    | cons x xs => exact hcall _ _
  | and => exact hcall _ _
  | or => exact hcall _ _

omit [Decider σ τ] in
/-- The object gets an entry. -/
theorem Confined.append (n : NodeId) (kind : Kind) (e : Entry τ) :
    Passes P (append n kind e) := by
  refine Keeps.get.bind fun o => ?_
  refine (keeps_report hP.spares.toOverlooks _).bind fun _ => ?_
  refine Keeps.bind (Keeps.modify fun _ => hP.same rfl rfl) fun _ => ?_
  refine Keeps.get.bind fun o => ?_
  refine (Keeps.orFault fun _ _ => trivial).bind fun index => ?_
  exact Keeps.modify fun _ => hP.same rfl rfl

theorem Confined.lower (n : NodeId) : Passes P (lower n) := by
  refine (Keeps.ask fun _ _ _ => trivial).bind fun kind => ?_
  refine (Keeps.ask fun _ _ _ => trivial).bind fun children => ?_
  refine (keeps_operandObjects (admits_all ε) children).bind fun operands => ?_
  exact (hP.objectFor n kind operands).bind fun e => hP.append n kind e

/-- Building and asking make every passage of this kind. -/
theorem Confined.perform {n : NodeId} (hc : subject c = some n) : Passes P (perform c) := by
  have hbuild : ∀ n, Passes P (build n) := keeps_build (admits_all ε) hP.lower
    (keeps_report hP.spares.toOverlooks) fun _ _ => hP.same rfl rfl
  cases c with
  | build n => exact (hbuild n).bind fun _ => Keeps.pure _
  | isSatisfiable n =>
    have hquestion : Passes P (isSatisfiable n) := by
      rw [isSatisfiable_eq]
      exact (hbuild n).bind fun i => passes_consult hP.spares n i
    exact hquestion.bind fun _ => Keeps.pure _
  | _ => cases hc

end Confined

/-! ## The names along a run -/

variable [Naming ε]

/-- The names that a call asks for. -/
def asked (o : Oracle ε σ τ) : Call NodeId → List String
  | .newVariable => [variableName o.varCount]
  | _            => []

/-- No variable is asked for. -/
def unnaming (ε σ τ : Type) [Library ε] [Naming ε] : Passage ε σ τ where
  rel o o' := Naming.Kept o.library → Introduces [] o.library o'.library ∧ o'.varCount = o.varCount
  refl := fun _ h => ⟨.refl h, rfl⟩
  trans := by
    intro o₁ o₂ o₃ h h' hkept
    obtain ⟨ha, hc⟩ := h hkept
    obtain ⟨ha', hc'⟩ := h' ha.kept
    exact ⟨ha.trans ha', hc'.trans hc⟩

variable [Registers ε]

omit [Decider σ τ] in
theorem confined_unnaming : Confined (unnaming ε σ τ) where
  same := by
    intro o o' hlib hcount hkept
    rw [hlib]
    exact ⟨.refl hkept, hcount⟩
  check := fun _ n budget _ hkept => ⟨Registers.check n budget hkept, rfl⟩

omit [Decider σ τ] in
/-- A node that the library is asked for. -/
theorem introduces_grow (h : Naming.Kept o.library) (q : Maker NodeId) :
    Introduces q.names o.library (o.grow q.build).2.library := by
  rw [grow_eq]
  exact Registers.build q h

/-- A call adds the names that it asks for, and counts them. -/
theorem introduces_perform (h : Naming.Kept o.library) (c : Call NodeId) :
    Introduces (asked o c) o.library (after (perform c) o).library ∧
      (after (perform c) o).varCount = o.varCount + (asked o c).length := by
  have hcount (make : ε → Grown ε) (o : Oracle ε σ τ) : (o.grow make).2.varCount = o.varCount := by
    rw [grow_eq]
  have hpassage {n : NodeId} (hc : subject c = some n) :
      Introduces [] o.library (after (perform c) o).library ∧
        (after (perform c) o).varCount = o.varCount :=
    Ends.of_after ((confined_unnaming.perform hc o).mono fun _ _ hr => hr.1) h
  cases c with
  | makeTrue => exact ⟨introduces_grow h .constTrue, hcount _ o⟩
  | makeFalse => exact ⟨introduces_grow h .constFalse, hcount _ o⟩
  | newVariable =>
    let o₁ := { o with varCount := o.varCount + 1 }
    exact ⟨introduces_grow (o := o₁) h (.newVariable (variableName o.varCount)), hcount _ o₁⟩
  | makeNot n => exact ⟨introduces_grow h (.complement n), hcount _ o⟩
  | makeAnd m n => exact ⟨introduces_grow h (.conjunction [m, n]), hcount _ o⟩
  | makeOr m n => exact ⟨introduces_grow h (.disjunction [m, n]), hcount _ o⟩
  | makeAll ns => exact ⟨introduces_grow h (.conjunction ns), hcount _ o⟩
  | makeAny ns => exact ⟨introduces_grow h (.disjunction ns), hcount _ o⟩
  | build n => exact hpassage rfl
  | isSatisfiable n => exact hpassage rfl

/-- The names of the first `count` variables of an oracle. -/
def issued (count : Nat) : List String :=
  (List.range count).map variableName

omit [Library ε] [Decider σ τ] [Naming ε] [Registers ε] in
theorem issued_asked (o : Oracle ε σ τ) (c : Call NodeId) :
    issued (o.varCount + (asked o c).length) = issued o.varCount ++ asked o c := by
  cases c with
  | newVariable =>
    show (List.range (o.varCount + 1)).map variableName = _
    rw [List.range_succ, List.map_append]
    rfl
  | _ => exact (List.append_nil _).symm

/-- Along a run the library is asked for the names of the oracle's new variables. -/
theorem introduces_run (h : Naming.Kept o.library) (calls : List (Call NodeId)) :
    ∃ names, Introduces names o.library (afterAll calls o).library ∧
      issued (afterAll calls o).varCount = issued o.varCount ++ names := by
  induction calls generalizing o with
  | nil => exact ⟨[], .refl h, (List.append_nil _).symm⟩
  | cons c calls ih =>
    -- The names of the first call come before those of the others, as the count has it.
    obtain ⟨hadds, hcount⟩ := introduces_perform h c
    obtain ⟨names, hadds', hissued⟩ := ih hadds.kept
    refine ⟨_, hadds.trans hadds', ?_⟩
    rw [← List.append_assoc, ← issued_asked, ← hcount]
    exact hissued

omit [Decider σ τ] in
theorem introduces_stocked (h : Naming.Kept lib) (before : List (Maker NodeId)) :
    Introduces (before.flatMap Maker.names) lib (Library.stocked lib before) := by
  induction before generalizing lib with
  | nil => exact .refl h
  | cons q before ih =>
    have hadds := Registers.build q h
    exact hadds.trans (ih hadds.kept)

/-! ## New variables -/

omit [Library ε] [Decider σ τ] [Naming ε] [Registers ε] in
theorem mem_issued {count i : Nat} : variableName i ∈ issued count ↔ i < count := by
  unfold issued
  rw [List.mem_map]
  constructor
  · intro ⟨j, hj, heq⟩
    rw [← variableName_injective heq]
    exact List.mem_range.1 hj
  · intro hi
    exact ⟨i, List.mem_range.2 hi, rfl⟩

omit [Decider σ τ] in
theorem introduces_newVariable (h : Naming.Kept o.library) :
    Introduces [variableName o.varCount] o.library (newVariable o).2.library :=
  introduces_grow (o := { o with varCount := o.varCount + 1 }) h
    (.newVariable (variableName o.varCount))

omit [Decider σ τ] in
theorem named_newVariable (h : Naming.Kept o.library) :
    Naming.Named (newVariable o).2.library (newVariable o).1 (variableName o.varCount) := by
  unfold newVariable
  rw [grow_eq]
  exact Registers.named _ h

omit [Library ε] [Decider σ τ] [Naming ε] [Registers ε] in
theorem varCount_newVariable [Library ε] (o : Oracle ε σ τ) :
    (newVariable o).2.varCount = o.varCount + 1 := by
  unfold newVariable
  rw [grow_eq]

/-- What the next variable of an oracle has to do with other nodes, where the library was in
    use for the calls `before`. -/
structure Separated (before : List (Maker NodeId)) (o : Oracle ε σ τ) : Prop where
  /-- Where nobody had asked for its name, it differs from every node that was there. -/
  fresh : .newVariable (variableName o.varCount) ∉ before → ∀ m, contains o.library m = true →
    structEq (newVariable o).2.library m (newVariable o).1 = .ok false
  /-- Where somebody had, it has the structure of a node that was there. -/
  known : .newVariable (variableName o.varCount) ∈ before → ∃ m, contains o.library m = true ∧
    structEq (newVariable o).2.library m (newVariable o).1 = .ok true
  /-- It differs from every later variable of the oracle, for good. -/
  distinct : ∀ calls calls' : List (Call NodeId), let o₁ := afterAll calls (newVariable o).2
    structEq (afterAll calls' (newVariable o₁).2).library (newVariable o).1 (newVariable o₁).1
      = .ok false

/-- Two variables of a run have different names, and keep them. -/
theorem structEq_newVariable (h : Naming.Kept o.library) (calls calls' : List (Call NodeId)) :
    let o₁ := afterAll calls (newVariable o).2
    structEq (afterAll calls' (newVariable o₁).2).library (newVariable o).1 (newVariable o₁).1
      = .ok false := by
  intro o₁
  obtain ⟨names, hadds₁, hissued⟩ := introduces_run (introduces_newVariable h).kept calls
  obtain ⟨names', hadds₂, _⟩ := introduces_run (introduces_newVariable hadds₁.kept).kept calls'
  have hx : Naming.Named o₁.library (newVariable o).1 (variableName o.varCount) :=
    hadds₁.named (named_newVariable h)
  have hy := named_newVariable (o := o₁) hadds₁.kept
  refine Registers.structEq_of_ne hadds₂.kept
    (hadds₂.named ((introduces_newVariable hadds₁.kept).named hx)) (hadds₂.named hy) ?_
  -- The name of the first variable is among those issued before the second.
  intro heq
  have hmem : variableName o.varCount ∈ issued o₁.varCount := by
    rw [hissued, varCount_newVariable]
    exact List.mem_append_left _ (mem_issued.2 (Nat.lt_succ_self _))
  rw [heq] at hmem
  exact absurd (mem_issued.1 hmem) (Nat.lt_irrefl _)

/-- A run over a library that knew no names before the calls `before`. -/
theorem separated_run (h : Naming.Kept lib) (hnew : ∀ s, ¬ Knows lib s)
    (before : List (Maker NodeId)) (s : σ) (settings : Settings) (watched : Bool)
    (setup : List Event) (calls : List (Call NodeId)) :
    Separated before
      (afterAll calls (start (Library.stocked lib before) s settings watched setup)) := by
  have hstocked := introduces_stocked h before
  let o₀ : Oracle ε σ τ := start (Library.stocked lib before) s settings watched setup
  obtain ⟨names, hrun, hissued⟩ := introduces_run (o := o₀) hstocked.kept calls
  have hadds := hstocked.trans hrun
  change Separated before (afterAll calls o₀)
  generalize afterAll calls o₀ = o at hadds hissued ⊢
  -- The library has the next name only from the calls before.
  have hknows : Knows o.library (variableName o.varCount) ↔
      .newVariable (variableName o.varCount) ∈ before := by
    have hfree : variableName o.varCount ∉ names := by
      have hnames : issued o.varCount = names := hissued
      rw [← hnames, mem_issued]
      exact Nat.lt_irrefl _
    rw [hadds.knows_iff, List.mem_append, ← Maker.mem_flatMap_names]
    simp only [hnew, hfree, false_or, or_false]
  have hnext := introduces_newVariable hadds.kept
  have hx := named_newVariable hadds.kept
  refine ⟨?_, ?_, structEq_newVariable hadds.kept⟩
  · intro hunasked m hm
    obtain ⟨b, hb, hiff⟩ := Registers.compare hnext.kept (hnext.held hm) hx
    have hfalse : b = false := by
      rw [← Bool.not_eq_true, hiff, hnext.named_iff hm]
      exact fun hnamed => hunasked (hknows.1 ⟨m, hnamed⟩)
    rw [hb, hfalse]
  · intro hasked
    obtain ⟨m, hm⟩ := hknows.2 hasked
    have hheld := Naming.held hm
    obtain ⟨b, hb, hiff⟩ := Registers.compare hnext.kept (hnext.held hheld) hx
    refine ⟨m, hheld, ?_⟩
    rw [hb, hiff.2 (hnext.named hm)]

omit [Library ε] [Naming ε] [Registers ε] in
/-- **When a new variable is fresh.**  Take a new library of either kind, any calls `before` on
    it, an oracle over it with any decider, and any run of that oracle; the calls may be about
    any nodes at all.  Then the next variable of the oracle

    - differs in structure from every node that the library has, if its name was not asked for
      before the oracle was set up;
    - has the structure of a node that the library has, if its name was asked for then;
    - differs in structure from every variable that the oracle makes later. -/
theorem newVariable_separated (bits : Nat) (seed : UInt64) (G : Generator) (s : σ)
    (settings : Settings) (watched : Bool) (setup : List Event)
    (before : List (Maker NodeId)) (calls : List (Call NodeId)) :
    (∀ lib, Nary.ofBits bits = .ok lib → Separated before
      (afterAll calls (start (Library.stocked lib before) s settings watched setup))) ∧
    (∀ a, Aig.ofBits bits seed G = .ok a → Separated before
      (afterAll calls (start (Library.stocked a before) s settings watched setup))) := by
  constructor
  · intro lib hlib
    obtain rfl := Nary.eq_of_ofBits hlib
    refine separated_run (Arena.wf_empty bits) ?_ before s settings watched setup calls
    intro name ⟨n, hn⟩
    exact Arena.value_empty_ne bits n.raw _ hn
  · intro a ha
    obtain rfl := Aig.eq_of_ofBits ha
    refine separated_run (Arena.wf_empty bits) ?_ before s settings watched setup calls
    intro name ⟨_, i, _, hi⟩
    exact Arena.value_empty_ne bits i _ hi

/-- Somebody had a variable named `x0` before.  The oracle's first variable is no other, but the
    second one is fresh. -/
theorem newVariable_separated_named :
    (let lib : Nary := Library.stocked ⟨.empty 4⟩ [.newVariable "x0"]
     let o : Oracle Nary Encoder Literal := start lib Encoder.start {} false []
     let o₁ := afterAll [.newVariable] o
     (∃ m, contains o.library m = true ∧
       structEq (newVariable o).2.library m (newVariable o).1 = .ok true) ∧
     ∀ m, contains o₁.library m = true →
       structEq (newVariable o₁).2.library m (newVariable o₁).1 = .ok false) ∧
    (let a : Aig := Library.stocked ⟨.empty 4, 0, .ofSeed 0⟩ [.newVariable "x0"]
     let o : Oracle Aig Encoder Literal := start a Encoder.start {} false []
     let o₁ := afterAll [.newVariable] o
     (∃ m, contains o.library m = true ∧
       structEq (newVariable o).2.library m (newVariable o).1 = .ok true) ∧
     ∀ m, contains o₁.library m = true →
       structEq (newVariable o₁).2.library m (newVariable o₁).1 = .ok false) := by
  have hseparated (calls : List (Call NodeId)) :=
    newVariable_separated 4 0 .xoshiro (Encoder.start : Encoder) {} false []
      [.newVariable "x0"] calls
  have hlib : Nary.ofBits 4 = .ok ⟨.empty 4⟩ := Nary.ofBits_eq (by decide)
  have ha : Aig.ofBits 4 0 = .ok ⟨.empty 4, 0, .ofSeed 0⟩ := Aig.ofBits_eq (by decide) 0
  constructor
  · intro lib o o₁
    have hname : variableName (afterAll [] o).varCount = "x0" := by decide +kernel
    have hname₁ : variableName o₁.varCount ≠ "x0" := by decide +kernel
    refine ⟨((hseparated []).1 _ hlib).known ?_, ((hseparated [.newVariable]).1 _ hlib).fresh ?_⟩
    · exact List.mem_singleton.2 (congrArg _ hname)
    · exact fun hmem => hname₁ (Maker.newVariable.inj (List.mem_singleton.1 hmem))
  · intro a o o₁
    have hname : variableName (afterAll [] o).varCount = "x0" := by decide +kernel
    have hname₁ : variableName o₁.varCount ≠ "x0" := by decide +kernel
    refine ⟨((hseparated []).2 _ ha).known ?_, ((hseparated [.newVariable]).2 _ ha).fresh ?_⟩
    · exact List.mem_singleton.2 (congrArg _ hname)
    · exact fun hmem => hname₁ (Maker.newVariable.inj (List.mem_singleton.1 hmem))

/-- Over a library with a variable `x0`, of either kind, the first variable that an oracle makes
    has the structure of that node. -/
theorem newVariable_known_before :
    (let lib : Nary := Library.stocked ⟨.empty 4⟩ [.newVariable "x0"]
     let o : Oracle Nary Encoder Literal := start lib Encoder.start {} false []
     contains o.library ⟨1⟩ = true ∧
       structEq (newVariable o).2.library ⟨1⟩ (newVariable o).1 = .ok true) ∧
    (let a : Aig := Library.stocked ⟨.empty 4, 0, .ofSeed 0⟩ [.newVariable "x0"]
     let o : Oracle Aig Encoder Literal := start a Encoder.start {} false []
     contains o.library ⟨2⟩ = true ∧
       structEq (newVariable o).2.library ⟨2⟩ (newVariable o).1 = .ok true) := by
  constructor
  · intro lib o
    have hnode : (newVariable o).1 = ⟨1⟩ := by decide +kernel
    rw [hnode]
    exact ⟨by decide +kernel, rfl⟩
  · intro a o
    have hnode : (newVariable o).1 = ⟨2⟩ := by decide +kernel
    rw [hnode]
    exact ⟨by decide +kernel, rfl⟩

end Oracle

end SatMemo
