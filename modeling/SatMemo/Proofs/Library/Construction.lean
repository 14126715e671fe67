import SatMemo.Proofs.Library.Gates
import SatMemo.Proofs.Library.Repeating

/-! # Building and-inverter graphs

    A history is a graph and the signals it has returned since it was new.  A
    request may name any signals returned before, in any order and as often as it
    likes.

    One request keeps a graph tidy (`Tidy.perform`), gives a signal of the value
    asked for and leaves all other values alone (`Wf.grows_perform`).  So by
    induction every graph that is built is tidy and has all the signals it has
    returned (`Reached.sound`). -/

namespace SatMemo

namespace Aig

/-! ## Requests -/

/-- What a graph may be asked for, about operands of type `κ`. -/
inductive Request (κ : Type) where
  /-- What every library can be asked for. -/
  | make (q : Maker κ)
  | input (name : String)
  | and (l r : κ)
  | or (l r : κ)

namespace Request

variable {κ κ' : Type}

def map (f : κ → κ') : Request κ → Request κ'
  | make q     => make (q.map f)
  | input name => input name
  | and l r    => and (f l) (f r)
  | or l r     => or (f l) (f r)

def operands : Request κ → List κ
  | make q  => q.operands
  | input _ => []
  | and l r => [l, r]
  | or l r  => [l, r]

theorem forall_mem_pair {p : κ → Prop} {x y : κ} : (∀ z ∈ [x, y], p z) ↔ p x ∧ p y := by
  simp

/-- Only what becomes of the operands matters. -/
theorem map_congr {f g : κ → κ'} {q : Request κ} (h : ∀ x ∈ q.operands, f x = g x) :
    q.map f = q.map g := by
  cases q with
  | make q => exact congrArg make (Maker.map_congr h)
  | input name => rfl
  | and l r =>
    obtain ⟨hl, hr⟩ := forall_mem_pair.1 h
    simp only [map, hl, hr]
  | or l r =>
    obtain ⟨hl, hr⟩ := forall_mem_pair.1 h
    simp only [map, hl, hr]

/-- The function a request stands for. -/
def sense : Request ((String → Bool) → Bool) → (String → Bool) → Bool
  | make q, ρ     => q.sense ρ
  | input name, ρ => ρ name
  | and F G, ρ    => F ρ && G ρ
  | or F G, ρ     => F ρ || G ρ

end Request

variable {G : Generator}

/-- Do what is asked for. -/
def perform (a : Aig G) : Request Signal → Grown (Aig G)
  | .make q     => (q.map Signal.toNode).build a
  | .input name => (a.input name).grown
  | .and l r    => (a.and l r).grown
  | .or l r     => (a.or l r).grown

variable {a : Aig G} {q : Request Signal}

theorem contains_of_operands {q : Maker Signal} (hq : ∀ s ∈ q.operands, a.Has s) :
    ∀ n ∈ (q.map Signal.toNode).operands, a.contains n = true := by
  intro n hn
  rw [Maker.operands_map] at hn
  obtain ⟨s, hs, rfl⟩ := List.mem_map.1 hn
  exact contains_iff.2 (hq s hs)

/-- The graph still has all that it had, and the new signal has the value asked for. -/
theorem Wf.grows_perform (h : a.Wf) (hq : ∀ s ∈ q.operands, a.Has s) :
    Library.Grows Wf a (a.perform q) (q.map fun s ρ => a.eval ρ s).sense := by
  cases q with
  | make q =>
    have hwf : Library.Lawful.Wf a := h
    have hgrows := Library.grows_build hwf (contains_of_operands hq)
    rw [Maker.map_map] at hgrows
    exact hgrows
  | input name => exact h.makes_input name
  | and l r =>
    obtain ⟨hl, hr⟩ := Request.forall_mem_pair.1 hq
    exact h.makes_and hl hr
  | or l r =>
    obtain ⟨hl, hr⟩ := Request.forall_mem_pair.1 hq
    exact h.makes_or hl hr

/-- A request keeps a graph tidy. -/
theorem Tidy.perform (h : a.Tidy) (hq : ∀ s ∈ q.operands, a.Has s) :
    (a.perform q).library.Tidy := by
  cases q with
  | make q =>
    have hops := contains_of_operands hq
    cases q with
    | constTrue => exact h
    | constFalse => exact h
    | newVariable name => exact h.input name
    | complement s => exact h
    | conjunction ss => exact h.conjoin has_one (has_of_mem_map hops)
    | disjunction ss => exact h.disjoin has_zero (has_of_mem_map hops)
  | input name => exact h.input name
  | and l r =>
    obtain ⟨hl, hr⟩ := Request.forall_mem_pair.1 hq
    exact h.and hl hr
  | or l r =>
    obtain ⟨hl, hr⟩ := Request.forall_mem_pair.1 hq
    exact h.or hl hr

theorem tidy_empty (bits : Nat) (seed : UInt64) :
    (Aig.mk (.empty bits) 0 (G.ofSeed seed)).Tidy where
  toWf := wf_empty bits _
  normal := fun hv => absurd hv (Arena.value_empty_ne bits _ _)
  inputs := rfl

/-! ## Histories -/

structure History (G : Generator := .xoshiro) where
  graph : Aig G
  given : List Signal

namespace History

/-- What becomes of a history when `q` is asked and answered. -/
def after (h : History G) (q : Request Signal) : History G where
  graph := (h.graph.perform q).library
  given := .ofNode (h.graph.perform q).node :: h.given

/-- The histories of graphs over a store of the given size, with the given random words. -/
inductive Reached (bits : Nat) (seed : UInt64) : History G → Prop where
  | start {a : Aig G} : ofBits bits seed G = .ok a → Reached bits seed ⟨a, []⟩
  | step {h : History G} {q : Request Signal} : Reached bits seed h →
      (∀ s ∈ q.operands, s ∈ h.given) → Reached bits seed (h.after q)

/-- The graph is tidy and has the signals it has returned. -/
structure Sound (h : History G) : Prop where
  tidy : h.graph.Tidy
  has  : ∀ s ∈ h.given, h.graph.Has s

variable {bits : Nat} {seed : UInt64} {h : History G} {q : Request Signal}

theorem sound_start {a : Aig G} (ha : ofBits bits seed G = .ok a) : Sound ⟨a, []⟩ := by
  obtain rfl := eq_of_ofBits ha
  exact ⟨tidy_empty bits seed, nofun⟩

theorem Sound.after (hs : h.Sound) (hq : ∀ s ∈ q.operands, s ∈ h.given) : (h.after q).Sound := by
  have hops : ∀ s ∈ q.operands, h.graph.Has s := fun s hmem => hs.has s (hq s hmem)
  have hgrows := hs.tidy.grows_perform hops
  refine ⟨hs.tidy.perform hops, fun s hmem => ?_⟩
  rcases List.mem_cons.1 hmem with rfl | hmem
  · exact contains_iff.1 hgrows.held
  · exact hs.tidy.has_of_extends hgrows.later (hs.has s hmem)

theorem Reached.sound (hr : Reached bits seed h) : h.Sound := by
  induction hr with
  | start ha => exact sound_start ha
  | step _ hq ih => exact ih.after hq

/-- The signal returned for a request has the value asked for. -/
theorem Sound.evaluate_answer (hs : h.Sound) (hq : ∀ s ∈ q.operands, s ∈ h.given)
    (ρ : String → Bool) :
    (h.graph.perform q).library.evaluate ρ (.ofNode (h.graph.perform q).node)
      = (q.map fun s ρ => h.graph.evaluate ρ s).sense ρ := by
  have hops : ∀ s ∈ q.operands, h.graph.Has s := fun s hmem => hs.has s (hq s hmem)
  have hgrows := hs.tidy.grows_perform hops
  have hwf : (h.graph.perform q).library.Wf := hgrows.wf
  have hvalues : (q.map fun s ρ => h.graph.evaluate ρ s) = q.map fun s ρ => h.graph.eval ρ s :=
    Request.map_congr fun s hmem => funext fun ρ => hs.tidy.evaluate_eq (hops s hmem)
  rw [hvalues, hwf.evaluate_eq (contains_iff.1 hgrows.held)]
  exact hgrows.value ρ

/-- A request changes no value. -/
theorem Sound.evaluate_perform (hs : h.Sound) (hq : ∀ s ∈ q.operands, s ∈ h.given) {s : Signal}
    (hmem : h.graph.Has s) (ρ : String → Bool) :
    (h.graph.perform q).library.evaluate ρ s = h.graph.evaluate ρ s := by
  have hgrows := hs.tidy.grows_perform fun s hmem => hs.has s (hq s hmem)
  have hwf : (h.graph.perform q).library.Wf := hgrows.wf
  rw [hwf.evaluate_eq (hs.tidy.has_of_extends hgrows.later hmem), hs.tidy.evaluate_eq hmem]
  exact hs.tidy.eval_of_extends hgrows.later hwf hmem

/-! ## What is reached -/

/-- Whatever was asked of a graph before:

    - a stored gate has its inputs in order, on different nodes before it, neither of them the
      constant;
    - no gate and no input is stored twice, and both are counted;
    - a node read by kinds, operands and names has the value of its signal;
    - a request about signals returned before is answered with a signal of the value asked for,
      and all signals keep their values;
    - a conjunction comes to the same signal in either order of its inputs, now and later. -/
theorem reached_tidy (hr : Reached bits seed h) :
    (∀ i l r, h.graph.nodes.value i = .ok (.and l r) → Normal i l r) ∧
    (∀ i j v, h.graph.nodes.value i = .ok v → h.graph.nodes.value j = .ok v → i = j) ∧
    h.graph.inputCount = h.graph.nodes.toList.countP Node.isInput ∧
    h.graph.gateCount = h.graph.nodes.toList.countP Node.isGate ∧
    (∀ n, h.graph.contains n = true → (∃ t, Library.term? h.graph n = some t) ∧
      ∀ ρ, Library.value h.graph ρ n = h.graph.evaluate ρ (.ofNode n)) ∧
    (∀ s ∈ h.given, h.graph.contains s.toNode = true) ∧
    (∀ q : Request Signal, (∀ s ∈ q.operands, s ∈ h.given) →
      (∀ ρ, (h.graph.perform q).library.evaluate ρ (.ofNode (h.graph.perform q).node)
        = (q.map fun s ρ => h.graph.evaluate ρ s).sense ρ) ∧
      ∀ s, h.graph.contains s.toNode = true → ∀ ρ,
        (h.graph.perform q).library.evaluate ρ s = h.graph.evaluate ρ s) ∧
    (∀ l r, h.graph.and r l = h.graph.and l r) ∧
    (∀ l ∈ h.given, ∀ r ∈ h.given, ∀ h', Reached bits seed h' →
      Library.Extends (h.graph.and l r).graph h'.graph →
      h'.graph.and r l = ⟨(h.graph.and l r).signal, h'.graph, []⟩) := by
  have hs := hr.sound
  refine ⟨fun i l r => hs.tidy.normal, fun i j v => hs.tidy.arena.distinct, hs.tidy.inputs,
    hs.tidy.gates, fun n hn => ⟨hs.tidy.founded.exists_term hn, fun ρ => ?_⟩,
    fun s hmem => contains_iff.2 (hs.has s hmem),
    fun q hq => ⟨hs.evaluate_answer hq, fun s hmem => hs.evaluate_perform hq (contains_iff.1 hmem)⟩,
    and_comm h.graph, fun l hl r hr' h' hh' hlater => ?_⟩
  · exact (hs.tidy.evaluate_eq (contains_iff.1 hn)).symm
  · rw [and_comm]
    exact hh'.sound.tidy.and_again hs.tidy.toWf (hs.has l hl) (hs.has r hr') hlater

/-- Two inputs and their disjunction, which is the complement of a gate. -/
theorem reached_tidy_disjunction :
    ∃ h : History, Reached 4 0 h ∧ h.given = [⟨7⟩, ⟨4⟩, ⟨2⟩] ∧ h.graph.inputCount = 2 ∧
      h.graph.gateCount = 1 ∧ ∃ i l r, h.graph.nodes.value i = .ok (.and l r) ∧ Normal i l r := by
  let start : History := ⟨⟨.empty 4, 0, Generator.xoshiro.ofSeed 0⟩, []⟩
  let inputs : History := (start.after (.input "x")).after (.input "y")
  have hinputs : Reached 4 0 inputs :=
    .step (.step (.start (ofBits_eq (by decide) 0)) nofun) nofun
  have hgiven : inputs.given = [⟨4⟩, ⟨2⟩] := by decide +kernel
  have hr : Reached 4 0 (inputs.after (.or ⟨2⟩ ⟨4⟩)) := by
    refine .step hinputs fun s hs => ?_
    rw [hgiven]
    simp only [Request.operands, List.mem_cons, List.not_mem_nil, or_false] at hs ⊢
    exact hs.symm
  obtain ⟨hnormal, -, hcountInputs, hcountGates, -⟩ := reached_tidy hr
  refine ⟨_, hr, by decide +kernel, ?_, ?_, 3, ⟨3⟩, ⟨5⟩, ?_⟩
  · rw [hcountInputs]
    decide +kernel
  · rw [hcountGates]
    decide +kernel
  · have hgate : (inputs.after (.or ⟨2⟩ ⟨4⟩)).graph.nodes.value 3 = .ok (.and ⟨3⟩ ⟨5⟩) :=
      Arena.value_eq_ok_iff.2 (by decide +kernel)
    exact ⟨hgate, hnormal _ _ _ hgate⟩

end History

end Aig

end SatMemo
