import SatMemo.Proofs.Cnf.Exact
import SatMemo.Proofs.Library.Legible
import SatMemo.Proofs.Oracle.Enduring
import SatMemo.Proofs.Oracle.Exactness
import SatMemo.Proofs.Oracle.Fresh

/-! # What a displayed formula says

    A handle is displayed as the text of its node.  The library of a new oracle gets
    no names but `x0`, `x1`, ..., and these are words, so all texts along a run can
    be read back: handles that are displayed alike are for one function.

    Over and-inverter graphs such handles are even the same.  Over n-ary formulas
    they need not be, since a conjunction and a disjunction of one operand each
    are displayed alike. -/

namespace SatMemo

open Library (term? contains value spell Lawful Canonical Naming Registers Knows Rendered)

/-- How a library displays its nodes and keeps their names. -/
class Library.Spells (ε : Type) [Library ε] [Lawful ε] [Naming ε] : Prop where
  print_eq : ∀ {lib : ε} {n}, Lawful.Wf lib → contains lib n = true →
    Library.print lib n = .ok (spell lib n)
  named    : ∀ {lib : ε} {n s}, Lawful.Wf lib → term? lib n = some (.var s) →
    Naming.Named lib n s

instance : Library.Spells Nary where
  print_eq := fun h hn => h.print_eq hn
  named := fun h hn => h.named_of_term? hn

instance {G : Generator} : Library.Spells (Aig G) where
  print_eq := fun h hn => h.print_eq hn
  named := fun _ hn => Aig.named_of_term? hn

namespace Oracle

/-! ## The names of an oracle -/

theorem plain_of_isDigit {c : Char} (h : c.isDigit = true) : Plain c := by
  refine ⟨?_, ?_, ?_, ?_⟩ <;>
  · rintro rfl
    exact absurd h (by decide)

theorem toList_variableName (i : Nat) : (variableName i).toList = 'x' :: Nat.toDigits 10 i := by
  have happend : variableName i = "x" ++ i.repr := rfl
  rw [happend, String.toList_append, Nat.toList_repr]
  rfl

theorem variableName_ne {s : String} (h : s.toList.head? ≠ some 'x') (i : Nat) :
    variableName i ≠ s := by
  rintro rfl
  rw [toList_variableName] at h
  exact h rfl

/-- The names of variables are words. -/
theorem word_variableName (i : Nat) : Word (variableName i) where
  plain := by
    intro c hc
    rw [toList_variableName] at hc
    rcases List.mem_cons.1 hc with rfl | hc
    · decide
    · exact plain_of_isDigit (Nat.isDigit_of_mem_toDigits (by decide) (by decide) hc)
  ne_true := variableName_ne (by decide) i
  ne_false := variableName_ne (by decide) i

variable {ε σ τ : Type} [Library ε] [Decider σ τ] {lib : ε} {o o' : Oracle ε σ τ}
  {answers answers' : List Answer} {r : Reading}

/-- A script is a list of calls, whatever they come to. -/
theorem exists_calls_of_endure (script : Script) (answers : List Answer) (o : Oracle ε σ τ) :
    ∃ calls, (endure script answers o).2 = afterAll calls o := by
  induction script generalizing answers o with
  | nil => exact ⟨[], rfl⟩
  | cons c script ih =>
    suffices hrest : ∃ answers', (endure (c :: script) answers o).2
        = (endure script answers' (after (perform (c.map (handle answers))) o)).2 by
      obtain ⟨answers', hrest⟩ := hrest
      obtain ⟨calls, hcalls⟩ := ih answers' (after (perform (c.map (handle answers))) o)
      exact ⟨c.map (handle answers) :: calls, hrest.trans hcalls⟩
    cases hperform : perform (c.map (handle answers)) o with
    | ok a o₁ =>
      rw [endure_of_ok hperform, after_ok hperform]
      exact ⟨answers ++ [a], rfl⟩
    | error stop o₁ =>
      rw [endure_of_error hperform, after_error hperform]
      exact ⟨answers, rfl⟩

theorem exists_calls_of_play {script : Script} (h : play script answers o = .ok answers' o') :
    ∃ calls, o' = afterAll calls o := by
  obtain ⟨-, hend⟩ := endure_of_play h
  rw [← hend]
  exact exists_calls_of_endure script answers o

section Runs

variable [Lawful ε] [Naming ε] [Registers ε] [Library.Spells ε]

/-- An oracle over a library without variables gives it the names of its own, which are words. -/
theorem legible_afterAll (h : Naming.Kept o.library) (hnew : ∀ s, ¬ Knows o.library s)
    (hcount : o.varCount = 0) (calls : List (Call NodeId))
    (hwf : Lawful.Wf (afterAll calls o).library) : Library.Legible (afterAll calls o).library := by
  intro n s hn
  obtain ⟨names, hadds, hissued⟩ := introduces_run h calls
  have hknows : Knows (afterAll calls o).library s := ⟨n, Library.Spells.named hwf hn⟩
  have hs : s ∈ issued (afterAll calls o).varCount := by
    rw [hissued, hcount]
    exact ((hadds.knows_iff s).1 hknows).resolve_left (hnew s)
  obtain ⟨i, -, rfl⟩ := List.mem_map.1 hs
  exact word_variableName i

end Runs

/-! ## Handles and their texts -/

/-- Every handle is displayed, and the text says which function it is for. -/
structure Displays (r : Reading) (answers : List Answer) (o : Oracle ε σ τ) : Prop where
  /-- There is a handle for every function. -/
  count    : (handles answers).length = r.handles.length
  shown    : ∀ n ∈ handles answers, ∃ text, Library.print o.library n = .ok text
  /-- The text is what the recursion on operands makes of the node. -/
  rendered : ∀ n ∈ handles answers, ∀ text,
    Library.print o.library n = .ok text ↔ Rendered o.library n text
  /-- Handles that are displayed alike are for one function. -/
  function : ∀ ⦃m n : NodeId⦄ ⦃F G : BoolFn⦄, (m, F) ∈ formulas r answers →
    (n, G) ∈ formulas r answers → Library.print o.library m = Library.print o.library n → F = G

/-- Handles that are displayed alike are the same. -/
def Identifies (answers : List Answer) (o : Oracle ε σ τ) : Prop :=
  ∀ m ∈ handles answers, ∀ n ∈ handles answers,
    Library.print o.library m = Library.print o.library n → m = n

section Texts

variable [Lawful ε] [Naming ε] [Library.Spells ε] {s₀ : σ}

theorem spell_eq_of_print_eq (hwf : Lawful.Wf lib) {m n : NodeId} (hm : contains lib m = true)
    (hn : contains lib n = true) (h : Library.print lib m = Library.print lib n) :
    spell lib m = spell lib n := by
  rw [Library.Spells.print_eq hwf hm, Library.Spells.print_eq hwf hn] at h
  exact Except.ok.inj h

theorem Follows.displays (h : Follows s₀ r answers o) (hlegible : Library.Legible o.library) :
    Displays r answers o where
  count := h.count
  shown := fun n hn => ⟨_, Library.Spells.print_eq h.wf (h.contains_handle hn)⟩
  rendered := by
    intro n hn text
    have hheld := h.contains_handle hn
    rw [Library.Spells.print_eq h.wf hheld, (Lawful.founded h.wf).rendered_iff hheld]
    exact ⟨fun heq => (Except.ok.inj heq).symm, fun heq => congrArg Except.ok heq.symm⟩
  function := by
    intro m n F G hm hn hprint
    have hF := h.means hm
    have hG := h.means hn
    have hspell := spell_eq_of_print_eq h.wf hF.1 hG.1 hprint
    funext α
    obtain ⟨ρ, rfl⟩ := exists_numbered_eq α
    rw [← hF.2, ← hG.2]
    exact (Lawful.founded h.wf).value_eq_of_spell_eq hlegible hF.1 hG.1 hspell

/-- The oracle inside has the library of the one that meets the failures, and what was asked has
    no part in what is displayed. -/
theorem Follows.displays_inside {δ : Type} [Decider δ τ] {inner : δ → σ} {o : Oracle ε δ τ}
    {asked : List BoolFn} (h : Follows s₀ { r with asked } answers (o.inside inner))
    (hlegible : Library.Legible o.library) : Displays r answers o :=
  have h' := h.displays hlegible
  ⟨h'.count, h'.shown, h'.rendered, h'.function⟩

/-- Whatever is refused on the way, all handles are displayed in the end. -/
theorem displays_endured [Registers ε] {δ : Type} [Decider δ τ] {inner : δ → σ} {d₀ : δ}
    (hinner : Decider.Falters inner) (hexact : Decider.Exact s₀) (hd : inner d₀ = s₀)
    (hwf : Lawful.Wf lib) (hkept : Naming.Kept lib) (hnew : ∀ s, ¬ Knows lib s)
    (settings : Settings) (watched : Bool) (setup : List Event) {script : Script}
    (hscript : Reading.empty.Admits script) :
    let o₀ : Oracle ε δ τ := start lib d₀ settings watched setup
    Displays (Reading.empty.run script) (accepted (endure script [] o₀).1)
      (endure script [] o₀).2 := by
  intro o₀
  have hstart : Follows s₀ .empty [] (o₀.inside inner) :=
    follows_inside hd hwf settings watched setup
  obtain ⟨asked, h⟩ := (hstart.endured hinner hexact hscript).follows
  have hwf' : Lawful.Wf (endure script [] o₀).2.library := h.wf
  obtain ⟨calls, hcalls⟩ := exists_calls_of_endure script [] o₀
  rw [hcalls] at hwf'
  have hlegible := legible_afterAll (o := o₀) hkept hnew rfl calls hwf'
  rw [← hcalls] at hlegible
  exact h.displays_inside hlegible

theorem Follows.identifies [Canonical ε] (h : Follows s₀ r answers o)
    (hlegible : Library.Legible o.library)
    (hor : ∀ n ms, term? o.library n ≠ some (.or ms)) : Identifies answers o := by
  intro m hm n hn hprint
  have hm := h.contains_handle hm
  have hn := h.contains_handle hn
  exact Library.eq_of_spell_eq h.wf hlegible hor hm hn (spell_eq_of_print_eq h.wf hm hn hprint)

end Texts

/-! ## Both families -/

/-- **A displayed formula says which formula it is.**  With valid settings an oracle of either
    family can be had, and every script that uses only handles it was given can be made on it.
    Then every handle is displayed, as the recursion on the operands of its node has it;
    handles that are displayed alike are for one Boolean function; and over and-inverter graphs
    they are the same handle.  A solver that is interrupted makes no difference. -/
theorem display_determines (S : Cnf.Solver) (hS : S.Sound) (G : Generator) (s : Settings)
    (hs : s.validate = .ok ()) (watched : Bool) (script : Script)
    (hscript : Reading.empty.Admits script) :
    (∃ o₀, s.clausalOracle watched S = .ok o₀ ∧
      Displays (Reading.empty.run script) (accepted (endure script [] o₀).1)
        (endure script [] o₀).2 ∧
      (S.Exact → ∃ answers o, play script [] o₀ = .ok answers o ∧
        Displays (Reading.empty.run script) answers o)) ∧
    (∃ o₀ answers o, s.diagramOracle watched G = .ok o₀ ∧ play script [] o₀ = .ok answers o ∧
      Displays (Reading.empty.run script) answers o ∧ Identifies answers o) := by
  constructor
  · let lib : Nary := ⟨.empty s.storageBits⟩
    let o₀ : ClausalOracle S := start lib Encoder.start s watched Encoder.startEvents
    have hwf : Lawful.Wf lib := Nary.wf_empty _
    have hnew : ∀ name, ¬ Knows lib name := fun name ⟨n, hn⟩ => Arena.value_empty_ne _ n.raw _ hn
    have hlearning : Decider.Exact (Encoder.start : Encoder .learning) :=
      Encoder.exact_start Cnf.Solver.exact_learning
    have hdisplays : Displays (Reading.empty.run script) (accepted (endure script [] o₀).1)
        (endure script [] o₀).2 :=
      displays_endured (Encoder.falters Cnf.Solver.exact_learning hS) hlearning rfl hwf
        (Arena.wf_empty s.storageBits) hnew s watched Encoder.startEvents hscript
    refine ⟨o₀, Settings.clausalOracle_eq hs watched, hdisplays, ?_⟩
    intro hexact
    have hstart : Follows Encoder.start .empty [] o₀ := follows_start hwf s watched _
    obtain ⟨answers, o, hplay, -⟩ := hstart.gives_play (Encoder.exact_start hexact) hscript
    obtain ⟨hanswers, hend⟩ := endure_of_play hplay
    rw [List.nil_append] at hanswers
    rw [hanswers, hend] at hdisplays
    exact ⟨answers, o, hplay, hdisplays⟩
  · obtain ⟨bdd, hexact, horacle⟩ := Settings.exists_diagramOracle (G := G) hs watched
    let a : Aig G := ⟨.empty s.storageBits, 0, G.ofSeed s.seed⟩
    have hstart : Follows bdd .empty [] (start a bdd s watched []) :=
      follows_start (Aig.wf_empty _ _) s watched _
    obtain ⟨answers, o, hplay, h⟩ := hstart.gives_play hexact hscript
    obtain ⟨calls, rfl⟩ := exists_calls_of_play hplay
    have hnew : ∀ name, ¬ Knows a name := fun name ⟨_, i, _, hi⟩ => Arena.value_empty_ne _ i _ hi
    have hlegible := legible_afterAll (Arena.wf_empty s.storageBits) hnew rfl calls h.wf
    exact ⟨_, answers, _, horacle s.precheck s.patterns s.seed, hplay, h.displays hlegible,
      h.identifies hlegible (Aig.term?_ne_or _)⟩

/-- A conjunction and a disjunction of one variable each are different n-ary formulas that are
    displayed alike. -/
theorem display_determines_one_operand :
    let s : Settings := { storageBits := 4 }
    let script : Script := [.newVariable, .makeAll [0], .makeAny [0]]
    (∃ o₀ answers o, s.clausalOracle false = .ok o₀ ∧ play script [] o₀ = .ok answers o ∧
      Displays (Reading.empty.run script) answers o ∧
      (handles answers).map (fun n => (n, Library.print o.library n))
        = [(⟨1⟩, .ok "x0"), (⟨2⟩, .ok "(x0)"), (⟨3⟩, .ok "(x0)")]) ∧
    (∃ o₀ answers o, s.diagramOracle false = .ok o₀ ∧ play script [] o₀ = .ok answers o ∧
      Displays (Reading.empty.run script) answers o ∧ Identifies answers o) := by
  intro s script
  have hscript : Reading.empty.Admits script := by
    simp [script, Reading.Admits, Reading.after, Reading.returned, Call.operands, Reading.empty]
  obtain ⟨⟨o₀, ho₀, -, hplays⟩, hdiagram⟩ :=
    display_determines .learning Cnf.Solver.exact_learning.sound .xoshiro s rfl false script
      hscript
  obtain ⟨answers, o, hplay, hdisplays⟩ := hplays Cnf.Solver.exact_learning
  refine ⟨⟨o₀, answers, o, ho₀, hplay, hdisplays, ?_⟩, hdiagram⟩
  let o₁ : ClausalOracle :=
    start (Nary.mk (.empty s.storageBits)) Encoder.start s false Encoder.startEvents
  have htexts : (play script [] >>= fun answers => do
      let o ← get
      return (handles answers).map fun n => (n, Library.print o.library n)).run' o₁
      = some [(⟨1⟩, .ok "x0"), (⟨2⟩, .ok "(x0)"), (⟨3⟩, .ok "(x0)")] := by
    decide +kernel
  have hstart : o₁ = o₀ := Except.ok.inj ((Settings.clausalOracle_eq rfl false).symm.trans ho₀)
  unfold EStateM.run' EStateM.run at htexts
  rw [hstart, bind_ok hplay] at htexts
  exact Option.some.inj htexts

end Oracle

end SatMemo
