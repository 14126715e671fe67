import SatMemo.Explore.Paths
import SatMemo.Proofs.Cnf.Exact
import SatMemo.Proofs.Explore.Paths
import SatMemo.Proofs.Library.Simulation
import SatMemo.Proofs.Oracle.Scripts
import SatMemo.Proofs.Oracle.Exactness

/-! # Exploring counts the feasible paths

    An engine is `Ready` if the oracle in it is faithful to an exact decider; a
    node of it `Means` a function if it has its values.  One question and one
    formula made lead from a ready engine to a ready one in which all nodes mean
    what they meant.  An exploration is a number of such steps, whatever was asked
    of the engine before, and adds to its counts the numbers of paths. -/

namespace SatMemo

open Library (Lawful Grows)

/-! ## Oracles that may be asked -/

namespace Oracle

variable {ε σ τ : Type} [Library ε] [Lawful ε] [Decider σ τ] {o : Oracle ε σ τ} {n : NodeId}
  {F : BoolFn}

/-- The oracle is faithful to a decider that is exact. -/
def Ready (o : Oracle ε σ τ) : Prop :=
  ∃ s₀ v reps, Decider.Exact s₀ ∧ Faithful s₀ v reps o

/-- The oracle `o'` may be asked, and nodes of `o` mean in it what they meant. -/
structure Leads (o o' : Oracle ε σ τ) : Prop where
  ready : Ready o'
  keeps : ∀ {n F}, Means o.library n F → Means o'.library n F

theorem Ready.wf (h : Ready o) : Lawful.Wf o.library := by
  obtain ⟨_, _, _, _, hfaithful⟩ := h
  exact hfaithful.wf

theorem Ready.isSatisfiable (h : Ready o) (hn : Means o.library n F) :
    ∃ b o', isSatisfiable n o = .ok b o' ∧ (b = true ↔ F.Satisfiable) ∧ Leads o o' := by
  obtain ⟨s₀, v, reps, hexact, hfaithful⟩ := h
  obtain ⟨b, o', hask, ⟨reps', h'⟩, hlater, hverdict⟩ := hfaithful.gives_isSatisfiable hexact hn.1
  refine ⟨b, o', hask, hverdict.trans hn.satisfiable_iff.symm, ⟨s₀, v, reps', hexact, h'⟩, ?_⟩
  intro m G hm
  exact hm.mono hfaithful.wf h'.wf hlater

theorem Ready.grow (h : Ready o) {g : ε → Grown ε}
    (hgrows : Grows Lawful.Wf o.library (g o.library) fun ρ => F (numbered ρ)) :
    Leads o (o.grow g).2 ∧ Means (o.grow g).2.library (o.grow g).1 F := by
  obtain ⟨s₀, v, reps, hexact, hfaithful⟩ := h
  rw [grow_eq]
  refine ⟨⟨⟨s₀, v, reps, hexact, ?_⟩, ?_⟩, hgrows.held, hgrows.value⟩
  · refine hfaithful.larger ?_ ?_
    · exact ⟨hgrows.wf, hgrows.later, rfl, rfl, rfl, rfl⟩
    · exact hfaithful.varCount
  · intro m G hm
    exact hm.mono hfaithful.wf hgrows.wf hgrows.later

theorem Ready.makeAnd (h : Ready o) {m : NodeId} {G : BoolFn} (hm : Means o.library m F)
    (hn : Means o.library n G) :
    Leads o (makeAnd m n o).2 ∧
      Means (makeAnd m n o).2.library (makeAnd m n o).1 (.all [F, G]) := by
  have hheld : ∀ k ∈ [m, n], Library.contains o.library k = true := by
    intro k hk
    obtain rfl | hk := List.mem_cons.1 hk
    · exact hm.1
    · rw [List.mem_singleton.1 hk]
      exact hn.1
  have hgrows := Lawful.grows_and h.wf hheld
  simp only [List.all_cons, List.all_nil, hm.2, hn.2] at hgrows
  exact h.grow hgrows

theorem Ready.makeNot (h : Ready o) (hn : Means o.library n F) :
    Leads o (makeNot n o).2 ∧ Means (makeNot n o).2.library (makeNot n o).1 F.not := by
  have hgrows := Lawful.grows_not h.wf hn.1
  simp only [hn.2] at hgrows
  exact h.grow hgrows

/-- Any script leads from a new oracle to one that may be asked, and the handles it returned
    mean the functions of its reading. -/
theorem exists_played {s₀ : σ} (hexact : Decider.Exact s₀) {lib : ε} (hwf : Lawful.Wf lib)
    (settings : Settings) (watched : Bool) (setup : List Event) {script : Script}
    (hscript : Reading.empty.Admits script) :
    ∃ answers o, play script [] (start lib s₀ settings watched setup) = .ok answers o ∧
      Ready o ∧ ∀ k < (Reading.empty.run script).handles.length,
        Means o.library (handle answers k) ((Reading.empty.run script).handle k) := by
  have hstart : Follows s₀ .empty [] (start lib s₀ settings watched setup) :=
    ⟨⟨[], faithful_start hwf settings watched setup⟩, rfl, nofun, rfl⟩
  obtain ⟨answers, o, hplay, hf⟩ := hstart.gives_play hexact hscript
  obtain ⟨reps, hfaithful⟩ := hf.faithful
  exact ⟨answers, o, hplay, ⟨s₀, _, reps, hexact, hfaithful⟩, fun k hk => hf.operand hk⟩

end Oracle

/-! ## Engines that may be asked -/

namespace Engine

variable {S : Cnf.Solver} {G : Generator} {e e' e'' : Engine S G} {m n : NodeId}
  {F H : BoolFn}

def Ready : Engine S G → Prop
  | clausal o => Oracle.Ready o
  | diagram o => Oracle.Ready o

/-- The engine holds the node, and it has the values of the function. -/
def Means : Engine S G → NodeId → BoolFn → Prop
  | clausal o => Oracle.Means o.library
  | diagram o => Oracle.Means o.library

/-- The engine `e'` may be asked, and nodes of `e` mean in it what they meant. -/
structure Leads (e e' : Engine S G) : Prop where
  ready : e'.Ready
  keeps : ∀ {n F}, e.Means n F → e'.Means n F

theorem Leads.trans (h : Leads e e') (h' : Leads e' e'') : Leads e e'' where
  ready := h'.ready
  keeps := fun hn => h'.keeps (h.keeps hn)

theorem Ready.isSatisfiable (h : e.Ready) (hn : e.Means n F) :
    ∃ b e', Engine.isSatisfiable n e = .ok b e' ∧ (b = true ↔ F.Satisfiable) ∧ Leads e e' := by
  cases e with
  | clausal o =>
    obtain ⟨b, o', hask, hb, hleads⟩ := Oracle.Ready.isSatisfiable h hn
    refine ⟨b, clausal o', ?_, hb, hleads.ready, hleads.keeps⟩
    unfold Engine.isSatisfiable call
    dsimp only
    rw [hask]
  | diagram o =>
    obtain ⟨b, o', hask, hb, hleads⟩ := Oracle.Ready.isSatisfiable h hn
    refine ⟨b, diagram o', ?_, hb, hleads.ready, hleads.keeps⟩
    unfold Engine.isSatisfiable call
    dsimp only
    rw [hask]

theorem Ready.makeAnd (h : e.Ready) (hm : e.Means m F) (hn : e.Means n H) :
    ∃ k e', e.make (Oracle.makeAnd m n) = (k, e') ∧ Leads e e' ∧ e'.Means k (.all [F, H]) := by
  cases e with
  | clausal o =>
    obtain ⟨hleads, hmeans⟩ := Oracle.Ready.makeAnd h hm hn
    exact ⟨_, clausal (Oracle.makeAnd m n o).2, rfl, ⟨hleads.ready, hleads.keeps⟩, hmeans⟩
  | diagram o =>
    obtain ⟨hleads, hmeans⟩ := Oracle.Ready.makeAnd h hm hn
    exact ⟨_, diagram (Oracle.makeAnd m n o).2, rfl, ⟨hleads.ready, hleads.keeps⟩, hmeans⟩

theorem Ready.makeNot (h : e.Ready) (hn : e.Means n F) :
    ∃ k e', e.make (Oracle.makeNot n) = (k, e') ∧ Leads e e' ∧ e'.Means k F.not := by
  cases e with
  | clausal o =>
    obtain ⟨hleads, hmeans⟩ := Oracle.Ready.makeNot h hn
    exact ⟨_, clausal (Oracle.makeNot n o).2, rfl, ⟨hleads.ready, hleads.keeps⟩, hmeans⟩
  | diagram o =>
    obtain ⟨hleads, hmeans⟩ := Oracle.Ready.makeNot h hn
    exact ⟨_, diagram (Oracle.makeNot n o).2, rfl, ⟨hleads.ready, hleads.keeps⟩, hmeans⟩

/-- An engine of either family can be had and used, and the handles it returned mean the
    functions of the reading. -/
theorem exists_played (hS : S.Exact) {s : Settings} (hs : s.validate = .ok ()) (watched : Bool)
    {script : Oracle.Script} (hscript : Oracle.Reading.empty.Admits script) :
    ∃ e₀ answers e, ofSettings s watched S G = .ok e₀ ∧
      call (Oracle.play script []) e₀ = .ok answers e ∧ e.Ready ∧
      ∀ k < (Oracle.Reading.empty.run script).handles.length,
        e.Means (Oracle.handle answers k) ((Oracle.Reading.empty.run script).handle k) := by
  cases hfamily : s.family with
  | clausal =>
    have hwf : Lawful.Wf (Nary.mk (.empty s.storageBits)) := Nary.wf_empty _
    obtain ⟨answers, o, hplay, hready, hmeans⟩ := Oracle.exists_played (Encoder.exact_start hS)
      hwf s watched Encoder.startEvents hscript
    have hnew : ofSettings s watched S G = .ok (clausal (.start (Nary.mk (.empty s.storageBits))
        .start s watched Encoder.startEvents)) := by
      unfold ofSettings
      rw [hfamily]
      exact congrArg (Except.map clausal) (Settings.clausalOracle_eq hs watched)
    refine ⟨_, answers, clausal o, hnew, ?_, hready, hmeans⟩
    unfold call
    dsimp only
    rw [hplay]
  | diagram =>
    obtain ⟨bdd, hexact, hdiagram⟩ := Settings.exists_diagramOracle (G := G) hs watched
    have hwf : Lawful.Wf (Aig.mk (.empty s.storageBits) 0 (G.ofSeed s.seed)) := Aig.wf_empty _ _
    obtain ⟨answers, o, hplay, hready, hmeans⟩ := Oracle.exists_played hexact hwf s watched []
      hscript
    have hnew : ofSettings s watched S G = .ok (diagram (.start
        (Aig.mk (.empty s.storageBits) 0 (G.ofSeed s.seed)) bdd s watched [])) := by
      unfold ofSettings
      rw [hfamily]
      exact congrArg (Except.map diagram) (hdiagram s.precheck s.patterns s.seed)
    refine ⟨_, answers, diagram o, hnew, ?_, hready, hmeans⟩
    unfold call
    dsimp only
    rw [hplay]

end Engine

/-! ## Exploring -/

namespace Exploration

open BoolFn (feasiblePaths prunedPaths)

variable {S : Cnf.Solver} {G : Generator} {α β : Type} {x x' : Exploration S G} {pc : NodeId} {conditions : List NodeId} {F : BoolFn}
  {Cs : List BoolFn}

theorem bind_ok {p : EStateM Stop (Exploration S G) α} {k : α → EStateM Stop (Exploration S G) β} {a : α}
    (h : p x = .ok a x') : (p >>= k) x = k a x' := by
  show EStateM.bind p k x = k a x'
  unfold EStateM.bind
  rw [h]

/-- The exploration with the counts of all paths from `F` added. -/
noncomputable def counted (x : Exploration S G) (engine : Engine S G) (F : BoolFn) (Cs : List BoolFn) :
    Exploration S G where
  engine   := engine
  feasible := x.feasible + (feasiblePaths F Cs).ncard
  pruned   := x.pruned + (prunedPaths F Cs).ncard

theorem make_eq
    {f : {ε σ τ : Type} → [Library ε] → [Decider σ τ] → Oracle ε σ τ → NodeId × Oracle ε σ τ}
    {n : NodeId} {engine : Engine S G} (h : x.engine.make f = (n, engine)) :
    make f x = .ok n { x with engine } := by
  show EStateM.Result.ok (x.engine.make f).1 { x with engine := (x.engine.make f).2 } = _
  rw [h]

/-- The paths that take a branch and those that skip it are all the paths. -/
theorem counted_cons (hF : F.Satisfiable) (C : BoolFn) (Cs : List BoolFn) (e e' : Engine S G) :
    (x.counted e (.all [F, C]) Cs).counted e' (.all [F, C.not]) Cs
      = x.counted e' F (C :: Cs) := by
  unfold counted
  rw [BoolFn.ncard_feasiblePaths_cons, BoolFn.ncard_prunedPaths_cons hF]
  simp only [Nat.add_assoc]

/-- Where the branches end there is one path. -/
theorem counted_nil (hF : F.Satisfiable) (x : Exploration S G) (e : Engine S G) :
    x.counted e F [] = { x with engine := e, feasible := x.feasible + 1 } := by
  unfold counted
  rw [BoolFn.feasiblePaths_nil hF, BoolFn.prunedPaths_nil hF, Set.ncard_singleton,
    Set.ncard_empty]
  rfl

/-- A path whose condition cannot be true is cut off, and it is not followed. -/
theorem counted_of_unsatisfiable (hF : ¬ F.Satisfiable) (x : Exploration S G) (e : Engine S G) :
    x.counted e F Cs = { x with engine := e, pruned := x.pruned + 1 } := by
  unfold counted
  rw [BoolFn.feasiblePaths_of_unsatisfiable hF, BoolFn.prunedPaths_of_unsatisfiable hF,
    Set.ncard_singleton, Set.ncard_empty]
  rfl

theorem isFeasible_eq (h : x.engine.Ready) (hpc : x.engine.Means pc F) :
    ∃ b engine, isFeasible pc x = .ok b { x with engine } ∧ (b = true ↔ F.Satisfiable) ∧
      x.engine.Leads engine := by
  obtain ⟨b, engine, hask, hb, hleads⟩ := h.isSatisfiable hpc
  refine ⟨b, engine, ?_, hb, hleads⟩
  unfold isFeasible
  rw [hask]

/-- An exploration ends, and has counted the paths. -/
theorem explore_eq (h : x.engine.Ready) (hpc : x.engine.Means pc F)
    (hconditions : List.Forall₂ x.engine.Means conditions Cs) :
    ∃ engine, explore conditions pc x = .ok () (x.counted engine F Cs) ∧
      x.engine.Leads engine := by
  induction conditions generalizing x pc F Cs with
  | nil =>
    cases hconditions
    obtain ⟨b, engine, hask, hb, hleads⟩ := isFeasible_eq h hpc
    refine ⟨engine, (bind_ok hask).trans ?_, hleads⟩
    cases b with
    | true =>
      rw [counted_nil (hb.1 rfl)]
      rfl
    | false =>
      rw [counted_of_unsatisfiable fun hF => Bool.false_ne_true (hb.2 hF)]
      rfl
  | cons c conditions ih =>
    cases hconditions with
    | @cons _ C _ Cs hc hconditions =>
      obtain ⟨b, engine, hask, hb, hleads⟩ := isFeasible_eq h hpc
      cases b with
      | true =>
        have hF := hb.1 rfl
        have hcs {e : Engine S G} (he : x.engine.Leads e) : List.Forall₂ e.Means conditions Cs :=
          hconditions.imp fun _ _ hn => he.keeps hn
        -- The branch is taken,
        obtain ⟨taken, e₁, hmake₁, h₁, htaken⟩ :=
          hleads.ready.makeAnd (hleads.keeps hpc) (hleads.keeps hc)
        have h₁ := hleads.trans h₁
        obtain ⟨e₂, hrun₁, h₂⟩ := ih (x := { x with engine := e₁ }) h₁.ready htaken (hcs h₁)
        have h₂ := h₁.trans h₂
        let x₂ := { x with engine := e₁ }.counted e₂ (.all [F, C]) Cs
        -- and then it is skipped.
        obtain ⟨opposite, e₃, hmake₃, h₃, hopposite⟩ := h₂.ready.makeNot (h₂.keeps hc)
        have h₃ := h₂.trans h₃
        obtain ⟨skipped, e₄, hmake₄, h₄, hskipped⟩ := h₃.ready.makeAnd (h₃.keeps hpc) hopposite
        have h₄ := h₃.trans h₄
        obtain ⟨e₅, hrun₄, h₅⟩ := ih (x := { x₂ with engine := e₄ }) h₄.ready hskipped (hcs h₄)
        refine ⟨e₅, ?_, h₄.trans h₅⟩
        rw [← counted_cons hF C Cs e₂ e₅]
        refine (bind_ok hask).trans ?_
        refine (bind_ok (make_eq hmake₁)).trans ?_
        refine (bind_ok hrun₁).trans ?_
        refine (bind_ok (make_eq (x := x₂) hmake₃)).trans ?_
        exact (bind_ok (make_eq (x := { x₂ with engine := e₃ }) hmake₄)).trans hrun₄
      | false =>
        refine ⟨engine, (bind_ok hask).trans ?_, hleads⟩
        rw [counted_of_unsatisfiable fun hF => Bool.false_ne_true (hb.2 hF)]
        rfl

open Oracle (handle play Reading Script)

/-- **Explorations count the feasible paths.**  Let the solver behind the encoder be exact.  An
    engine of either family, with valid settings, can be had and used at will; an exploration between handles that it returned
    ends, and adds the number of feasible paths to one count and the number of beginnings
    that are cut off to the other.  The script alone says what these numbers are.  A path is
    found if there is an assignment to start with. -/
theorem explore_counts (S : Cnf.Solver) (hS : S.Exact) (G : Generator) (s : Settings)
    (hs : s.validate = .ok ()) (watched : Bool) (script : Script)
    (hscript : Reading.empty.Admits script) (k : Nat) (ks : List Nat)
    (hk : ∀ j ∈ k :: ks, j < (Reading.empty.run script).handles.length) :
    let start := (Reading.empty.run script).handle k
    let branches := ks.map (Reading.empty.run script).handle
    ∃ e₀ answers e, Engine.ofSettings s watched S G = .ok e₀ ∧
      Engine.call (play script []) e₀ = .ok answers e ∧
      ∀ feasible pruned, ∃ x,
        explore (ks.map (handle answers)) (handle answers k) ⟨e, feasible, pruned⟩ = .ok () x ∧
        x.feasible = feasible + (feasiblePaths start branches).ncard ∧
        x.pruned = pruned + (prunedPaths start branches).ncard ∧
        (start.Satisfiable → feasible + 1 ≤ x.feasible) := by
  intro start branches
  obtain ⟨e₀, answers, e, hnew, hplay, hready, hmeans⟩ :=
    Engine.exists_played (G := G) hS hs watched hscript
  have hpc : e.Means (handle answers k) start := hmeans k (hk k List.mem_cons_self)
  have hconditions : List.Forall₂ e.Means (ks.map (handle answers)) branches := by
    rw [List.forall₂_map_left_iff, List.forall₂_map_right_iff, List.forall₂_same]
    intro j hj
    exact hmeans j (hk j (List.mem_cons_of_mem k hj))
  refine ⟨e₀, answers, e, hnew, hplay, ?_⟩
  intro feasible pruned
  obtain ⟨engine, hexplore, _⟩ := explore_eq (x := ⟨e, feasible, pruned⟩) hready hpc hconditions
  refine ⟨_, hexplore, rfl, rfl, ?_⟩
  intro hstart
  exact Nat.add_le_add_left (BoolFn.ncard_feasiblePaths_pos hstart branches) feasible

/-- Of two branches on one variable both are taken or none is. -/
theorem explore_counts_sameBranch :
    ∃ e₀ answers e x, Engine.ofSettings {} false = .ok e₀ ∧
      Engine.call (play [.newVariable, .makeTrue] []) e₀ = .ok answers e ∧
      explore [handle answers 0, handle answers 0] (handle answers 1) { engine := e } = .ok () x ∧
      x.feasible = 2 ∧ x.pruned = 2 := by
  obtain ⟨e₀, answers, e, hnew, hplay, hexplore⟩ :=
    explore_counts .learning Cnf.Solver.exact_learning .xoshiro {} rfl false
      [.newVariable, .makeTrue]
      (by simp [Reading.Admits, Oracle.Call.operands]) 1 [0, 0]
      (by simp [Reading.run, Reading.after, Reading.returned, Reading.empty])
  obtain ⟨x, hrun, hfeasible, hpruned, _⟩ := hexplore 0 0
  let taken : BoolFn := .all [.const true, .var 0]
  let skipped : BoolFn := .all [.const true, (BoolFn.var 0).not]
  have hboth : (BoolFn.all [taken, .var 0]).Satisfiable := ⟨fun _ => true, rfl⟩
  have hnone : (BoolFn.all [skipped, (BoolFn.var 0).not]).Satisfiable := ⟨fun _ => false, rfl⟩
  have hfirst : ¬ (BoolFn.all [taken, (BoolFn.var 0).not]).Satisfiable := by
    intro hsat
    obtain ⟨α, hα⟩ := hsat
    cases h : α 0 <;> simp [taken, BoolFn.all_apply, h] at hα
  have hsecond : ¬ (BoolFn.all [skipped, .var 0]).Satisfiable := by
    intro hsat
    obtain ⟨α, hα⟩ := hsat
    cases h : α 0 <;> simp [skipped, BoolFn.all_apply, h] at hα
  refine ⟨e₀, answers, e, x, hnew, hplay, hrun, hfeasible.trans ?_, hpruned.trans ?_⟩
  · show 0 + (feasiblePaths (.const true) [.var 0, .var 0]).ncard = 2
    simp only [BoolFn.ncard_feasiblePaths_cons]
    rw [BoolFn.feasiblePaths_nil hboth, BoolFn.feasiblePaths_of_unsatisfiable hfirst,
      BoolFn.feasiblePaths_of_unsatisfiable hsecond, BoolFn.feasiblePaths_nil hnone]
    simp only [Set.ncard_singleton, Set.ncard_empty]
  · show 0 + (prunedPaths (.const true) [.var 0, .var 0]).ncard = 2
    rw [BoolFn.ncard_prunedPaths_cons ⟨fun _ => true, rfl⟩,
      BoolFn.ncard_prunedPaths_cons ⟨fun _ => true, rfl⟩,
      BoolFn.ncard_prunedPaths_cons ⟨fun _ => false, rfl⟩, BoolFn.prunedPaths_nil hboth,
      BoolFn.prunedPaths_of_unsatisfiable hfirst, BoolFn.prunedPaths_of_unsatisfiable hsecond,
      BoolFn.prunedPaths_nil hnone]
    simp only [Set.ncard_singleton, Set.ncard_empty]

end Exploration

end SatMemo
