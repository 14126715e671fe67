import SatMemo.Proofs.Oracle.Deciding

/-! # Scripts

    A script is a list of calls in which a handle goes by the number of handles
    returned before it.  `play` makes the calls on an oracle; `Reading` follows
    them through Boolean functions alone, with `x0`, `x1`, ... for the variables,
    and says which function every handle is for and which functions are asked
    about.

    An oracle is `Exact` if no script that uses only handles which it was given
    before ever stops on it, the verdicts are those of the reading, and whatever
    has become known of a formula on the way is true of it.  Oracles over a lawful
    library and an exact decider are exact: one call takes a faithful oracle to a
    faithful one, and a script is one call after the other. -/

namespace SatMemo

namespace Oracle

open Library (contains value Right Lawful Grows)

/-! ## Scripts and what they mean -/

namespace Call

variable {ρ ρ' : Type}

def map (f : ρ → ρ') : Call ρ → Call ρ'
  | makeTrue        => makeTrue
  | makeFalse       => makeFalse
  | newVariable     => newVariable
  | makeNot n       => makeNot (f n)
  | makeAnd m n     => makeAnd (f m) (f n)
  | makeOr m n      => makeOr (f m) (f n)
  | makeAll ns      => makeAll (ns.map f)
  | makeAny ns      => makeAny (ns.map f)
  | build n         => build (f n)
  | isSatisfiable n => isSatisfiable (f n)

def operands : Call ρ → List ρ
  | makeTrue | makeFalse | newVariable           => []
  | makeNot n | build n | isSatisfiable n        => [n]
  | makeAnd m n | makeOr m n                     => [m, n]
  | makeAll ns | makeAny ns                      => ns

theorem operands_map (c : Call ρ) (f : ρ → ρ') : (c.map f).operands = c.operands.map f := by
  cases c <;> rfl

end Call

/-- Calls in order.  The handle `k` is the one returned after `k` others. -/
abbrev Script := List (Call Nat)

/-- What a script comes to, in terms of Boolean functions. -/
structure Reading where
  /-- Variables made. -/
  varCount : Nat
  /-- The functions that the handles are for, the earliest first. -/
  handles  : List BoolFn
  /-- The functions asked about, the earliest first. -/
  asked    : List BoolFn

namespace Reading

/-- Nothing was called yet. -/
def empty : Reading where
  varCount := 0
  handles  := []
  asked    := []

def handle (r : Reading) (k : Nat) : BoolFn :=
  r.handles.getD k (.const false)

/-- A handle for `F` is returned. -/
def returned (r : Reading) (F : BoolFn) : Reading :=
  { r with handles := r.handles ++ [F] }

/-- The reading after one more call. -/
def after (r : Reading) : Call Nat → Reading
  | .makeTrue        => r.returned (.const true)
  | .makeFalse       => r.returned (.const false)
  | .newVariable     => { r with varCount := r.varCount + 1 }.returned (.var r.varCount)
  | .makeNot k       => r.returned (r.handle k).not
  | .makeAnd j k     => r.returned (.all [r.handle j, r.handle k])
  | .makeOr j k      => r.returned (.any [r.handle j, r.handle k])
  | .makeAll ks      => r.returned (.all (ks.map r.handle))
  | .makeAny ks      => r.returned (.any (ks.map r.handle))
  | .build _         => r
  | .isSatisfiable k => { r with asked := r.asked ++ [r.handle k] }

/-- The reading after a script. -/
def run (r : Reading) (script : Script) : Reading :=
  script.foldl after r

/-- Every call of the script is about handles that were returned before it. -/
def Admits (r : Reading) : Script → Prop
  | []          => True
  | c :: script => (∀ k ∈ c.operands, k < r.handles.length) ∧ (r.after c).Admits script

open Classical in
/-- The right answers to all questions asked, the earliest first. -/
noncomputable def verdicts (r : Reading) : List Bool :=
  r.asked.map fun F => decide F.Satisfiable

end Reading

/-! ## Playing a script -/

def Answer.node? : Answer → Option NodeId
  | .node n => some n
  | _       => none

def Answer.verdict? : Answer → Option Bool
  | .verdict b => some b
  | _          => none

/-- The handles among the answers. -/
def handles (answers : List Answer) : List NodeId :=
  answers.filterMap Answer.node?

/-- The verdicts among the answers. -/
def verdicts (answers : List Answer) : List Bool :=
  answers.filterMap Answer.verdict?

def handle (answers : List Answer) (k : Nat) : NodeId :=
  (handles answers).getD k ⟨0⟩

variable {ε σ τ : Type} [Library ε] [Decider σ τ]

/-- Make the calls of a script, after calls that were answered with `answers`. -/
def play : Script → List Answer → OracleM ε σ τ (List Answer)
  | [], answers          => return answers
  | c :: script, answers => do
      let answer ← perform (c.map (handle answers))
      play script (answers ++ [answer])

/-- The handles among the answers, each with the function it is for. -/
def formulas (r : Reading) (answers : List Answer) : List (NodeId × BoolFn) :=
  (handles answers).zip r.handles

/-- The oracle `o`, and the answers that led to it, are as the reading says. -/
structure Agrees (r : Reading) (answers : List Answer) (o : Oracle ε σ τ) : Prop where
  /-- There is a handle for every function. -/
  count    : (handles answers).length = r.handles.length
  /-- All questions got the right answers. -/
  verdicts : verdicts answers = r.verdicts
  /-- Every handle may be asked about now, and the answer is right. -/
  decides  : ∀ ⦃n : NodeId⦄ ⦃F : BoolFn⦄, (n, F) ∈ formulas r answers →
    ∃ b o', isSatisfiable n o = .ok b o' ∧ (b = true ↔ F.Satisfiable)
  /-- What is known of a handle is true of its function. -/
  known    : ∀ ⦃n : NodeId⦄ ⦃F : BoolFn⦄, (n, F) ∈ formulas r answers →
    ∃ known?, status? n o = .ok known? o ∧
      (known? = some .sat → F.Satisfiable) ∧ (known? = some .unsat → ¬ F.Satisfiable)
  /-- Every entry belongs to a formula of the library, handed out or not, and what is known
      of it is true of that formula. -/
  entries  : ∀ ⦃i : Nat⦄ ⦃e : Entry τ⦄, o.entries[i]? = some e →
    ∃ n, contains o.library n = true ∧ indexOf? n o = .ok (some i) o ∧
      Right o.library n e.status

/-- Every script that uses only handles it was given plays to its end, and all is as its
    reading says.  The beginnings of a script are scripts, so it is so after every call. -/
def Exact (o₀ : Oracle ε σ τ) : Prop :=
  ∀ script, Reading.empty.Admits script →
    ∃ answers o, play script [] o₀ = .ok answers o ∧ Agrees (Reading.empty.run script) answers o

/-! ## Nodes and functions -/

section Means

variable {lib lib' : ε} {n : NodeId} {F : BoolFn} {r : Reading} {answers : List Answer}

theorem variableName_injective {i j : Nat} (h : variableName i = variableName j) : i = j := by
  have hrepr : i.repr = j.repr := (String.append_right_inj "x").1 h
  have hdigits : Nat.toDigits 10 i = Nat.toDigits 10 j := by
    rw [← Nat.toList_repr, ← Nat.toList_repr, hrepr]
  rw [← Nat.ofDigitChars_ten_toDigits (n := i), hdigits, Nat.ofDigitChars_ten_toDigits]

/-- The assignment of the variables that comes from one of the names. -/
def numbered (ρ : String → Bool) (k : Nat) : Bool :=
  ρ (variableName k)

theorem exists_numbered_eq (α : Nat → Bool) : ∃ ρ, numbered ρ = α := by
  have hname : ∀ {j k}, True → True → variableName j = variableName k → j = k :=
    fun _ _ h => variableName_injective h
  obtain ⟨ρ, hρ⟩ := BoolFn.exists_values_of_names hname α
  exact ⟨ρ, funext fun k => hρ k trivial⟩

/-- The library holds the node, and it has the values of the function. -/
def Means (lib : ε) (n : NodeId) (F : BoolFn) : Prop :=
  contains lib n = true ∧ ∀ ρ, value lib ρ n = F (numbered ρ)

theorem Means.satisfiable_iff (h : Means lib n F) :
    F.Satisfiable ↔ ∃ ρ, value lib ρ n = true := by
  constructor
  · rintro ⟨α, hα⟩
    obtain ⟨ρ, rfl⟩ := exists_numbered_eq α
    exact ⟨ρ, (h.2 ρ).trans hα⟩
  · rintro ⟨ρ, hρ⟩
    exact ⟨numbered ρ, (h.2 ρ).symm.trans hρ⟩

theorem Means.mono [Lawful ε] (h : Means lib n F) (hwf : Lawful.Wf lib)
    (hwf' : Lawful.Wf lib') (he : Library.Extends lib lib') : Means lib' n F := by
  have hfounded := Lawful.founded hwf
  refine ⟨hfounded.contains_of_extends he h.1, fun ρ => ?_⟩
  rw [hfounded.value_of_extends (Lawful.founded hwf') he h.1, h.2]

end Means

/-! ## One call -/

/-- The oracle is faithful, and the answers so far are as the reading says. -/
structure Follows [Lawful ε] (s₀ : σ) (r : Reading) (answers : List Answer)
    (o : Oracle ε σ τ) : Prop where
  faithful : ∃ reps, Faithful s₀ r.varCount reps o
  count    : (handles answers).length = r.handles.length
  means    : ∀ ⦃n : NodeId⦄ ⦃F : BoolFn⦄, (n, F) ∈ formulas r answers → Means o.library n F
  verdicts : verdicts answers = r.verdicts

section Calls

variable [Lawful ε] {s₀ : σ} {v : Nat} {reps : List NodeId} {o o' : Oracle ε σ τ} {n : NodeId}
  {r : Reading} {answers : List Answer} {F : BoolFn} {k : Nat}

theorem follows_start {lib : ε} (hwf : Lawful.Wf lib) (settings : Settings) (watched : Bool)
    (setup : List Event) : Follows s₀ .empty [] (start lib s₀ settings watched setup) :=
  ⟨⟨[], faithful_start hwf settings watched setup⟩, rfl, nofun, rfl⟩

theorem Follows.wf (h : Follows s₀ r answers o) : Lawful.Wf o.library := by
  obtain ⟨reps, hfaithful⟩ := h.faithful
  exact hfaithful.wf

/-- The handle of an operand means the function that the reading has for it. -/
theorem Follows.operand (h : Follows s₀ r answers o) (hk : k < r.handles.length) :
    Means o.library (handle answers k) (r.handle k) := by
  have hlt : k < (handles answers).length := by
    rw [h.count]
    exact hk
  have hpair : (formulas r answers)[k]? = some (handle answers k, r.handle k) := by
    unfold formulas handle Reading.handle
    rw [List.getElem?_zip_eq_some, List.getD_eq_getElem?_getD, List.getD_eq_getElem?_getD,
      List.getElem?_eq_getElem hlt, List.getElem?_eq_getElem hk]
    exact ⟨rfl, rfl⟩
  exact h.means (List.mem_of_getElem? hpair)

/-- The library holds every handle. -/
theorem Follows.contains_handle (h : Follows s₀ r answers o) (hn : n ∈ handles answers) :
    contains o.library n = true := by
  obtain ⟨k, hk⟩ := List.mem_iff_getElem?.1 hn
  have hlt : k < r.handles.length := by
    rw [← h.count]
    exact (List.getElem?_eq_some_iff.1 hk).1
  have hhandle : handle answers k = n := by
    unfold handle
    rw [List.getD_eq_getElem?_getD, hk, Option.getD_some]
  rw [← hhandle]
  exact (h.operand hlt).1

/-- A call that makes a node for `F`. -/
theorem Follows.gives_making (h : Follows s₀ r answers o)
    {make : Oracle ε σ τ → NodeId × Oracle ε σ τ} {g : ε → Grown ε}
    (hmake : make o = { o with varCount := v }.grow g)
    (hgrows : Grows Lawful.Wf o.library (g o.library) fun ρ => F (numbered ρ)) :
    Gives (making make) o fun a o' =>
      Follows s₀ ({ r with varCount := v }.returned F) (answers ++ [a]) o' := by
  obtain ⟨reps, hfaithful⟩ := h.faithful
  have hresult := hmake.trans (grow_eq g _)
  refine ⟨_, _, rfl, ?_⟩
  rw [hresult]
  -- Only the library, the count of variables and the journal change.
  have hlarger : Larger o { o with
      library  := (g o.library).library
      varCount := v
      journal  := o.journal ++ (g o.library).events } :=
    ⟨hgrows.wf, hgrows.later, rfl, rfl, rfl, rfl⟩
  have hhandles : handles (answers ++ [.node (g o.library).node])
      = handles answers ++ [(g o.library).node] := by
    unfold handles
    rw [List.filterMap_append]
    rfl
  constructor
  case faithful => exact ⟨reps, hfaithful.larger hlarger rfl⟩
  case count =>
    show (handles _).length = (r.handles ++ [F]).length
    rw [hhandles, List.length_append, List.length_append, h.count]
    rfl
  case means =>
    intro n G hn
    change (n, G) ∈ (handles (answers ++ [.node (g o.library).node])).zip (r.handles ++ [F]) at hn
    rw [hhandles, List.zip_append h.count] at hn
    -- Old handles mean what they meant, and the new one means `F`.
    rcases List.mem_append.1 hn with hn | hn
    · exact (h.means hn).mono h.wf hgrows.wf hgrows.later
    · obtain ⟨rfl, rfl⟩ := Prod.mk.inj (List.mem_singleton.1 hn)
      exact ⟨hgrows.held, hgrows.value⟩
  case verdicts =>
    show Oracle.verdicts (answers ++ _) = r.verdicts
    rw [← h.verdicts]
    unfold Oracle.verdicts
    rw [List.filterMap_append]
    exact List.append_nil _

/-- The same, if the node is no variable. -/
theorem Follows.gives_returned (h : Follows s₀ r answers o)
    {make : Oracle ε σ τ → NodeId × Oracle ε σ τ} {g : ε → Grown ε} (hmake : make o = o.grow g)
    (hgrows : Grows Lawful.Wf o.library (g o.library) fun ρ => F (numbered ρ)) :
    Gives (making make) o fun a o' => Follows s₀ (r.returned F) (answers ++ [a]) o' := by
  obtain ⟨reps, hfaithful⟩ := h.faithful
  have hvarCount : o = { o with varCount := r.varCount } := by
    rw [← hfaithful.varCount]
  exact h.gives_making (hmake.trans (congrArg (grow g) hvarCount)) hgrows

section Operands

variable {ks : List Nat}

theorem Follows.held (h : Follows s₀ r answers o) (hks : ∀ k ∈ ks, k < r.handles.length) :
    ∀ n ∈ ks.map (handle answers), contains o.library n = true := by
  intro n hn
  obtain ⟨k, hk, rfl⟩ := List.mem_map.1 hn
  exact (h.operand (hks k hk)).1

theorem Follows.grows_all (h : Follows s₀ r answers o) (hks : ∀ k ∈ ks, k < r.handles.length) :
    Grows Lawful.Wf o.library (Library.makeAnd o.library (ks.map (handle answers))) fun ρ =>
      BoolFn.all (ks.map r.handle) (numbered ρ) := by
  have hvalue : (fun ρ => (ks.map (handle answers)).all (value o.library ρ))
      = fun ρ => BoolFn.all (ks.map r.handle) (numbered ρ) := by
    funext ρ
    rw [BoolFn.all_apply, List.all_map, List.all_map]
    exact BoolFn.list_all_congr fun k hk => (h.operand (hks k hk)).2 ρ
  rw [← hvalue]
  exact Lawful.grows_and h.wf (h.held hks)

theorem Follows.grows_any (h : Follows s₀ r answers o) (hks : ∀ k ∈ ks, k < r.handles.length) :
    Grows Lawful.Wf o.library (Library.makeOr o.library (ks.map (handle answers))) fun ρ =>
      BoolFn.any (ks.map r.handle) (numbered ρ) := by
  have hvalue : (fun ρ => (ks.map (handle answers)).any (value o.library ρ))
      = fun ρ => BoolFn.any (ks.map r.handle) (numbered ρ) := by
    funext ρ
    rw [BoolFn.any_apply, List.any_map, List.any_map]
    exact BoolFn.list_any_congr fun k hk => (h.operand (hks k hk)).2 ρ
  rw [← hvalue]
  exact Lawful.grows_or h.wf (h.held hks)

end Operands

/-- Nothing new was answered. -/
theorem Follows.later (h : Follows s₀ r answers o)
    (hfaithful : ∃ reps, Faithful s₀ r.varCount reps o')
    (he : Library.Extends o.library o'.library) : Follows s₀ r answers o' where
  faithful := hfaithful
  count := h.count
  means := by
    obtain ⟨reps', hfaithful'⟩ := hfaithful
    intro n F hn
    exact (h.means hn).mono h.wf hfaithful'.wf he
  verdicts := h.verdicts

/-- An answer that is no handle leaves the handles as they were. -/
theorem Follows.still (h : Follows s₀ r answers o) {asked : List BoolFn}
    (hfaithful : ∃ reps, Faithful s₀ r.varCount reps o')
    (he : Library.Extends o.library o'.library) {a : Answer} (ha : a.node? = none)
    (hverdicts : Oracle.verdicts (answers ++ [a]) = { r with asked }.verdicts) :
    Follows s₀ { r with asked } (answers ++ [a]) o' := by
  have hhandles : handles (answers ++ [a]) = handles answers := by
    unfold handles
    rw [List.filterMap_append, List.filterMap_cons_none ha]
    exact List.append_nil _
  have h' := h.later hfaithful he
  constructor
  case faithful => exact hfaithful
  case count =>
    rw [hhandles]
    exact h.count
  case means =>
    intro n F hn
    unfold formulas at hn
    rw [hhandles] at hn
    exact h'.means hn
  case verdicts => exact hverdicts

variable (hexact : Decider.Exact s₀)
include hexact

/-- A question about a node that the library holds is answered rightly. -/
theorem Faithful.gives_isSatisfiable (h : Faithful s₀ v reps o)
    (hn : contains o.library n = true) :
    Gives (isSatisfiable n) o fun b o' => (∃ reps', Faithful s₀ v reps' o') ∧
      Library.Extends o.library o'.library ∧ Verdict o.library n b := by
  rw [isSatisfiable_eq]
  refine (h.gives_build hexact hn).bind ?_
  rintro i o₁ ⟨hlibrary, reps₁, h₁, -, hi⟩
  refine (h₁.gives_consult hexact hi).mono ?_
  rintro b o' ⟨h', hlater, hverdict⟩
  rw [hlibrary] at hlater hverdict
  exact ⟨⟨reps₁, h'⟩, hlater, hverdict⟩

/-- One call: it is answered, and the reading goes on to be right. -/
theorem Follows.gives_perform (h : Follows s₀ r answers o) (c : Call Nat)
    (hc : ∀ k ∈ c.operands, k < r.handles.length) :
    Gives (perform (c.map (handle answers))) o fun a o' =>
      Follows s₀ (r.after c) (answers ++ [a]) o' := by
  cases c with
  | makeTrue => exact h.gives_returned rfl (Lawful.grows_true h.wf)
  | makeFalse => exact h.gives_returned rfl (Lawful.grows_false h.wf)
  | newVariable =>
    obtain ⟨reps, hfaithful⟩ := h.faithful
    have hvarCount : o.varCount = r.varCount := hfaithful.varCount
    have hmake : newVariable o = { o with varCount := r.varCount + 1 }.grow fun lib =>
        Library.makeVariable lib (variableName r.varCount) := by
      rw [← hvarCount]
      rfl
    exact h.gives_making hmake (Lawful.grows_variable (variableName r.varCount) h.wf)
  | makeNot k =>
    have hk := h.operand (hc k (List.mem_singleton.2 rfl))
    have hgrows := Lawful.grows_not h.wf hk.1
    simp only [hk.2] at hgrows
    exact h.gives_returned rfl hgrows
  | makeAnd j k =>
    have hmake : makeAnd (handle answers j) (handle answers k) o = o.grow fun lib =>
        Library.makeAnd lib [handle answers j, handle answers k] := rfl
    exact h.gives_returned hmake (h.grows_all hc)
  | makeOr j k =>
    have hmake : makeOr (handle answers j) (handle answers k) o = o.grow fun lib =>
        Library.makeOr lib [handle answers j, handle answers k] := rfl
    exact h.gives_returned hmake (h.grows_any hc)
  | makeAll ks => exact h.gives_returned rfl (h.grows_all hc)
  | makeAny ks => exact h.gives_returned rfl (h.grows_any hc)
  | build k =>
    obtain ⟨reps, hfaithful⟩ := h.faithful
    have hk := h.operand (hc k (List.mem_singleton.2 rfl))
    refine (hfaithful.gives_build hexact hk.1).bind ?_
    rintro i o' ⟨hlibrary, reps', h', -⟩
    refine Gives.pure (h.still ⟨reps', h'⟩ ?_ rfl ?_)
    · rw [hlibrary]
      exact .refl _
    · show Oracle.verdicts (answers ++ [.entry i]) = r.verdicts
      rw [← h.verdicts]
      unfold Oracle.verdicts
      rw [List.filterMap_append]
      exact List.append_nil _
  | isSatisfiable k =>
    obtain ⟨reps, hfaithful⟩ := h.faithful
    have hk := h.operand (hc k (List.mem_singleton.2 rfl))
    refine (hfaithful.gives_isSatisfiable hexact hk.1).bind ?_
    rintro b o' ⟨h', hlater, hverdict⟩
    refine Gives.pure (h.still h' hlater rfl ?_)
    classical
    -- The verdict is on the node, and the node means the function.
    have hb : b = decide (r.handle k).Satisfiable := by
      rw [Bool.eq_iff_iff, decide_eq_true_iff]
      exact hverdict.trans hk.satisfiable_iff.symm
    have hverdicts := h.verdicts
    unfold Oracle.verdicts Reading.verdicts at *
    rw [List.filterMap_append, List.map_append, hverdicts, hb]
    rfl

/-- A script: one call after the other. -/
theorem Follows.gives_play (h : Follows s₀ r answers o) {script : Script}
    (hscript : r.Admits script) :
    Gives (play script answers) o fun answers' o' => Follows s₀ (r.run script) answers' o' := by
  induction script generalizing r answers o with
  | nil => exact Gives.pure h
  | cons c script ih =>
    obtain ⟨hc, hscript⟩ := hscript
    refine (h.gives_perform hexact c hc).bind ?_
    intro a o₁ h₁
    exact ih h₁ hscript

/-! ## Exact oracles -/

omit hexact in
/-- What is known of a node that the library holds, from its entry if it has one. -/
theorem Faithful.status?_eq (h : Faithful s₀ v reps o) (hn : contains o.library n = true) :
    ∃ known?, status? n o = .ok known? o ∧
      ∀ status, known? = some status → Right o.library n status := by
  -- A node without an entry has no status.
  by_cases hmem : n ∈ reps
  · obtain ⟨i, hi⟩ := List.mem_iff_getElem?.1 hmem
    obtain ⟨e, he⟩ := h.exists_entry hi
    have hright : Right o.library n e.status := h.right hi he
    have hstatus := Oracle.status?_eq (h.indexOf?_eq hi) he
    exact ⟨some e.status, hstatus, fun status hs => Option.some.inj hs ▸ hright⟩
  · have hentry : entryOf? n o = .ok none o := bind_ok (h.indexOf?_eq_none hn hmem)
    exact ⟨none, bind_ok hentry, nofun⟩

/-- An oracle that follows a reading agrees with it. -/
theorem Follows.agrees (h : Follows s₀ r answers o) : Agrees r answers o := by
  obtain ⟨reps, hfaithful⟩ := h.faithful
  constructor
  case count => exact h.count
  case verdicts => exact h.verdicts
  case decides =>
    intro n F hn
    have hmeans := h.means hn
    obtain ⟨b, o', hb, -, -, hverdict⟩ := hfaithful.gives_isSatisfiable hexact hmeans.1
    exact ⟨b, o', hb, hverdict.trans hmeans.satisfiable_iff.symm⟩
  case known =>
    intro n F hn
    have hmeans := h.means hn
    obtain ⟨known?, hknown, hright⟩ := hfaithful.status?_eq hmeans.1
    refine ⟨known?, hknown, ?_, ?_⟩
    · intro hsat
      exact hmeans.satisfiable_iff.2 ((hright _ hsat).1 rfl)
    · intro hunsat hF
      obtain ⟨ρ, hρ⟩ := hmeans.satisfiable_iff.1 hF
      rw [(hright _ hunsat).2 rfl ρ] at hρ
      cases hρ
  case entries =>
    intro i e he
    have hlt : i < reps.length := by
      rw [← hfaithful.size]
      exact (Array.getElem?_eq_some_iff.1 he).1
    have hi : reps[i]? = some reps[i] := List.getElem?_eq_getElem hlt
    have hheld := hfaithful.held (List.mem_of_getElem? hi)
    exact ⟨reps[i], hheld, hfaithful.indexOf?_eq hi, hfaithful.right hi he⟩

/-- Oracles over a lawful library and an exact decider are exact. -/
theorem exact_start {lib : ε} (hwf : Lawful.Wf lib) (settings : Settings) (watched : Bool)
    (setup : List Event) : Exact (start lib s₀ settings watched setup) := by
  intro script hscript
  have h : Follows s₀ .empty [] (start lib s₀ settings watched setup) :=
    follows_start hwf settings watched setup
  obtain ⟨answers, o, hplay, h'⟩ := h.gives_play hexact hscript
  exact ⟨answers, o, hplay, h'.agrees hexact⟩

end Calls

end Oracle

end SatMemo
