import Mathlib.Data.List.Sort
import Mathlib.Logic.Relation
import SatMemo.Proofs.Library.Construction
import SatMemo.Proofs.Library.Source

/-! # What simulation finds

    In a round, every input in the cone of the signal gets a word that was drawn
    for it, in the order of the indices.  A word has 64 bits, so that a round tries
    64 assignments, one in each lane.

    The answer is that of the first round in which some lane makes the signal true.
    It is stated without any words for gates: a lane is an assignment to the names,
    and a signal is evaluated by itself.  In particular it makes no difference that
    a round starts with the words that the one before it has left. -/

namespace SatMemo

namespace Aig

variable {G : Generator} {a : Aig G} {root s : Signal} {i j : Nat} {ins : List Nat}

/-! ## The inputs of a cone -/

/-- The gate at the index `i` has an input on the node `j`. -/
def Reads (a : Aig G) (i j : Nat) : Prop :=
  ∃ l r, a.nodes.value i = .ok (.and l r) ∧ (j = l.index ∨ j = r.index)

/-- The node is in the cone of the signal. -/
def Reaches (a : Aig G) (s : Signal) (i : Nat) : Prop :=
  Relation.ReflTransGen a.Reads s.index i

/-- The list has the inputs in the cone of the signal, in the order of their indices. -/
structure Inputs (a : Aig G) (s : Signal) (ins : List Nat) : Prop where
  sorted  : ins.Pairwise (· < ·)
  mem_iff : ∀ i, i ∈ ins ↔ a.Reaches s i ∧ ∃ name, a.nodes.value i = .ok (.input name)

/-- There is one such list. -/
theorem Inputs.unique {ins' : List Nat} (h : Inputs a s ins) (h' : Inputs a s ins') :
    ins = ins' :=
  h.sorted.eq_of_mem_iff h'.sorted fun i => (h.mem_iff i).trans (h'.mem_iff i).symm

/-- What the search for the cone reaches is in the cone. -/
theorem reaches_of_search (h : Search.Reaches a.operandIndices 0 s.index i) : a.Reaches s i := by
  induction h with
  | refl => exact .refl
  | tail _ hjk ih => exact ih.tail (leads_iff.1 hjk)

/-- Looking up nodes keeps the indices. -/
theorem map_fst_of_mapM {is : List Nat} {cone : List (Nat × Node)}
    (h : is.mapM (fun i => (a.nodes.value i).map fun n => (i, n)) = .ok cone) :
    cone.map Prod.fst = is := by
  induction is generalizing cone with
  | nil =>
    obtain rfl := Except.ok.inj h
    rfl
  | cons i is ih =>
    rw [List.mapM_cons] at h
    cases hv : a.nodes.value i with
    | error fault =>
      rw [hv] at h
      cases h
    | ok v =>
      rw [hv] at h
      cases hrest : is.mapM fun i => (a.nodes.value i).map fun n => (i, n) with
      | error fault =>
        rw [hrest] at h
        cases h
      | ok cone' =>
        rw [hrest] at h
        obtain rfl := Except.ok.inj h
        rw [List.map_cons, ih hrest]

/-- Everything that is listed is in the cone. -/
theorem cone_reaches {cone : List (Nat × Node)} (hcone : a.cone s = .ok cone) :
    ∀ p ∈ cone, a.Reaches s p.1 := by
  unfold Aig.cone at hcone
  cases hseen : a.collect a.nodes.size ∅ [s.index] with
  | error fault =>
    rw [hseen] at hcone
    cases hcone
  | ok seen =>
    rw [hseen] at hcone
    rw [collect_eq_gather] at hseen
    -- Nothing but what can be reached is ever collected.
    have hsound := (Search.sound_start s.index).later (Search.later_of_gather hseen)
    intro p hp
    have hmem := List.mem_map_of_mem (f := Prod.fst) hp
    rw [map_fst_of_mapM hcone] at hmem
    exact reaches_of_search (hsound.seen _ (Std.TreeSet.mem_toList.1 hmem)).2

/-- Everything in the cone is listed, the constant apart. -/
theorem Cone.listed {cone : List (Nat × Node)} (h : Cone a s cone) (hi : a.Reaches s i) :
    Listed cone i := by
  induction hi with
  | refl => exact h.root
  | @tail j k hj hjk ih =>
    obtain ⟨l, r, hv, hk⟩ := hjk
    obtain ⟨p, hp, rfl⟩ := List.mem_map.1 (ih.resolve_left (ne_zero_of_value hv))
    have hnode : p.2 = .and l r := Except.ok.inj ((h.value p hp).symm.trans hv)
    obtain ⟨hl, hr⟩ := h.closed p hp l r hnode
    obtain rfl | rfl := hk
    · exact hl
    · exact hr

/-- The indices of the inputs in a list of nodes. -/
def inputsIn (cone : List (Nat × Node)) : List Nat :=
  (cone.filter fun p => p.2.isInput).map Prod.fst

theorem mem_inputsIn {cone : List (Nat × Node)} :
    i ∈ inputsIn cone ↔ ∃ name, (i, .input name) ∈ cone := by
  unfold inputsIn
  rw [List.mem_map]
  constructor
  · rintro ⟨⟨i, v⟩, hp, rfl⟩
    obtain ⟨hmem, hinput⟩ := List.mem_filter.1 hp
    cases v with
    | input name => exact ⟨name, hmem⟩
    | and l r => cases hinput
  · intro ⟨name, hmem⟩
    exact ⟨_, List.mem_filter.2 ⟨hmem, rfl⟩, rfl⟩

theorem Cone.inputs {cone : List (Nat × Node)} (h : Cone a s cone) (hcone : a.cone s = .ok cone) :
    Inputs a s (inputsIn cone) where
  sorted := List.pairwise_map.2 (h.sorted.filter _)
  mem_iff := by
    intro i
    rw [mem_inputsIn]
    constructor
    · intro ⟨name, hmem⟩
      exact ⟨cone_reaches hcone _ hmem, name, h.value _ hmem⟩
    · intro ⟨hi, name, hv⟩
      obtain ⟨p, hp, rfl⟩ := List.mem_map.1 ((h.listed hi).resolve_left (ne_zero_of_value hv))
      have hnode : p.2 = .input name := Except.ok.inj ((h.value p hp).symm.trans hv)
      exact ⟨name, hnode ▸ hp⟩

/-! ## The answer -/

section Draws

variable {ρ : Type} (draw : ρ → UInt64 × ρ)

/-- The stream behind its next `n` words. -/
def behind (n : Nat) (g : ρ) : ρ :=
  (fun g => (draw g).2)^[n] g

/-- The next `n` words of a stream. -/
def draws : (n : Nat) → ρ → List UInt64
  | 0, _     => []
  | n + 1, g => (draw g).1 :: draws n (draw g).2

/-- The assignment in a lane: each of the inputs `ins` has its bit of the word that stands for
    it in `ws`.  Other names are false. -/
def lane (a : Aig G) (ins : List Nat) (ws : List UInt64) (b : Nat) (name : String) : Bool :=
  match (ins.zip ws).find? fun p => (a.nodes.value p.1).toOption = some (.input name) with
  | some p => bit b p.2
  | none   => false

/-- Does some lane make the signal true? -/
def hits (a : Aig G) (root : Signal) (ins : List Nat) (ws : List UInt64) : Bool :=
  (List.range 64).any fun b => a.evaluate (a.lane ins ws b) root

/-- The first of `rounds` rounds in which some lane makes the signal true.  Every round takes one
    word for each of the inputs `ins`. -/
def firstHit (a : Aig G) (root : Signal) (ins : List Nat) (rounds : Nat) (g : ρ) : Option Nat :=
  (List.range rounds).find? fun r =>
    a.hits root ins (draws draw ins.length (behind draw (r * ins.length) g))

/-- The answer that is due for a signal with the inputs `ins` in its cone. -/
def outcome (a : Aig G) (root : Signal) (ins : List Nat) (rounds : Nat) (g : ρ) : Reply ρ Status :=
  if root = .zero then
    .ok .unsat g
  else if root = .one then
    .ok .sat g
  else
    match a.firstHit draw root ins rounds g with
    | some r => ⟨.ok .sat, behind draw ((r + 1) * ins.length) g, [.witnessed root r]⟩
    | none   => .ok .unknown (behind draw (rounds * ins.length) g)

end Draws

section

variable {ρ : Type} {draw : ρ → UInt64 × ρ} {g : ρ} {ws : List UInt64}

theorem length_draws (n : Nat) (g : ρ) : (draws draw n g).length = n := by
  induction n generalizing g with
  | zero => rfl
  | succ n ih => exact congrArg (· + 1) (ih (draw g).2)

/-- Behind one round, the later rounds come one earlier. -/
theorem behind_succ_mul (r n : Nat) (g : ρ) :
    behind draw ((r + 1) * n) g = behind draw (r * n) (behind draw n g) := by
  unfold behind
  rw [Nat.succ_mul, Function.iterate_add_apply]

/-- The first round hits, or the others are tried behind it. -/
theorem firstHit_succ (rounds : Nat) :
    a.firstHit draw root ins (rounds + 1) g =
      if a.hits root ins (draws draw ins.length g) then some 0
      else (a.firstHit draw root ins rounds (behind draw ins.length g)).map (· + 1) := by
  have hzero : behind draw (0 * ins.length) g = g := by
    rw [Nat.zero_mul]
    rfl
  unfold firstHit
  rw [List.range_succ_eq_map, List.find?_cons, hzero]
  cases a.hits root ins (draws draw ins.length g) with
  | true => rfl
  | false =>
    rw [List.find?_map]
    simp only [Function.comp_def, behind_succ_mul]
    rfl

/-! ## Lanes -/

/-- A value depends on the inputs of the cone alone. -/
theorem evaluateAt_congr {ν ν' : String → Bool} (depth : Nat) (s : Signal)
    (h : ∀ i name, a.Reaches s i → a.nodes.value i = .ok (.input name) → ν name = ν' name) :
    a.evaluateAt ν depth s = a.evaluateAt ν' depth s := by
  induction depth generalizing s with
  | zero => rfl
  | succ depth ih =>
    unfold evaluateAt node
    by_cases hzero : s.index = 0
    · rw [if_pos hzero]
    · rw [if_neg hzero]
      cases hv : a.nodes.value s.index with
      | error fault => rfl
      | ok v =>
        cases v with
        | input name =>
          show (_ ^^ ν name) = (_ ^^ ν' name)
          rw [h _ name .refl hv]
        | and l r =>
          have hl := ih l fun i name hi => h i name (hi.head ⟨l, r, hv, .inl rfl⟩)
          have hr := ih r fun i name hi => h i name (hi.head ⟨l, r, hv, .inr rfl⟩)
          show (_ ^^ (_ && _)) = (_ ^^ (_ && _))
          rw [hl, hr]

/-- An input is known by its name. -/
theorem Wf.toOption_value_iff (h : a.Wf) {name : String}
    (hv : a.nodes.value i = .ok (.input name)) :
    (a.nodes.value j).toOption = some (.input name) ↔ j = i := by
  constructor
  · intro hj
    cases hvj : a.nodes.value j with
    | error fault =>
      rw [hvj] at hj
      cases hj
    | ok v =>
      rw [hvj] at hj
      obtain rfl : v = .input name := Option.some.inj hj
      exact h.arena.distinct hvj hv
  · intro heq
    rw [heq, hv]
    rfl

/-- In a lane an input has its bit of the word that stands for it. -/
theorem Wf.lane_eq (h : a.Wf) (hlength : ws.length = ins.length) {name : String} (hi : i ∈ ins)
    (hv : a.nodes.value i = .ok (.input name)) (b : Nat) :
    ∃ w, (i, w) ∈ ins.zip ws ∧ a.lane ins ws b name = bit b w := by
  -- There are as many words as inputs, so that one stands for this input.
  obtain ⟨p, hp, hpi⟩ : ∃ p ∈ ins.zip ws, p.1 = i := by
    rw [← List.map_fst_zip (Nat.le_of_eq hlength.symm)] at hi
    exact List.mem_map.1 hi
  unfold lane
  simp only [h.toOption_value_iff hv]
  cases hfind : (ins.zip ws).find? fun p => decide (p.1 = i) with
  | none => exact absurd (decide_eq_true hpi) (List.find?_eq_none.1 hfind p hp)
  | some q =>
    have hqi : q.1 = i := by simpa only [decide_eq_true_iff] using List.find?_some hfind
    exact ⟨q.2, hqi ▸ List.mem_of_find?_eq_some hfind, rfl⟩

/-- After a round, the word of the signal shows whether it was made true in some lane of the words
    of the inputs. -/
theorem Wf.hits_iff (h : a.Wf) {cone : List (Nat × Node)} (hcone : Cone a root cone)
    (hroot : a.Has root) (hins : Inputs a root ins) {words : Words}
    (hfits : ∀ p ∈ cone, Fits words p) (hlength : ws.length = ins.length)
    (hdrawn : ∀ p ∈ ins.zip ws, words[p.1]? = some p.2) {w : UInt64}
    (hw : wordOf words root = .ok w) : a.hits root ins ws = true ↔ w ≠ 0 := by
  -- In every lane the bit of the word is the value of the signal.
  have hbit : ∀ b < 64, a.evaluate (a.lane ins ws b) root = bit b w := by
    intro b hb
    have hlane : ∀ i name, a.Reaches root i → a.nodes.value i = .ok (.input name) →
        a.lane ins ws b name = a.assignment words b name := by
      intro i name hi hv
      obtain ⟨u, hu, hlane⟩ := h.lane_eq hlength ((hins.mem_iff i).2 ⟨hi, name, hv⟩) hv b
      rw [hlane, h.assignment_eq hv (hdrawn _ hu)]
    have htells : bit b w = a.eval (a.assignment words b) root :=
      h.tells_of_fits hcone hfits hb hroot hcone.root w hw
    rw [htells, ← h.evaluate_eq hroot]
    exact evaluateAt_congr _ root hlane
  unfold hits
  rw [List.any_eq_true]
  constructor
  · rintro ⟨b, hb, hvalue⟩ rfl
    rw [hbit b (List.mem_range.1 hb), bit_zero] at hvalue
    cases hvalue
  · intro hne
    obtain ⟨b, hb, hset⟩ := exists_bit hne
    exact ⟨b, List.mem_range.2 hb, (hbit b hb).trans hset⟩

/-! ## Rounds -/

/-- A round draws a word for each input, in order, and the inputs have these words behind it. -/
theorem Ordered.runRound_draws {words words' : Words} {g' : ρ} {rest : List (Nat × Node)}
    (h : Ordered words rest) (hrun : runRound draw words g rest = (.ok words', g')) :
    g' = behind draw (inputsIn rest).length g ∧
      ∀ p ∈ (inputsIn rest).zip (draws draw (inputsIn rest).length g),
        words'[p.1]? = some p.2 := by
  induction rest generalizing words g with
  | nil =>
    cases hrun
    exact ⟨rfl, nofun⟩
  | cons p rest ih =>
    obtain ⟨i, v⟩ := p
    cases v with
    | input name =>
      obtain ⟨hg, hwords⟩ := ih (h.insert (draw g).1) hrun
      refine ⟨hg, ?_⟩
      intro p hp
      obtain rfl | hp := List.mem_cons.1 hp
      · -- The word is there when the round goes on, and it is not written again.
        obtain ⟨words'', g'', hrun', hkeep, _⟩ : ∃ words'' g'',
            runRound draw (words.insert i (draw g).1) (draw g).2 rest = (.ok words'', g'') ∧
              (∀ j, j ∉ rest.map Prod.fst → words''[j]? = (words.insert i (draw g).1)[j]?) ∧
              ∀ p ∈ rest, Fits words'' p :=
          (h.insert (draw g).1).runRound_eq
        obtain ⟨rfl, rfl⟩ : words'' = words' ∧ g'' = g' := by
          have heq := hrun'.symm.trans hrun
          cases heq
          exact ⟨rfl, rfl⟩
        rw [hkeep i (h.not_mem (Nat.le_refl i)), getElem?_insert, if_pos rfl]
      · exact hwords p hp
    | and l r =>
      obtain ⟨⟨u, hu⟩, ⟨v, hv⟩⟩ := h.wordOf_eq
      unfold runRound at hrun
      rw [hu, hv] at hrun
      exact ih (h.insert (u &&& v)) hrun

/-- One round. -/
theorem Wf.runRound_hits (h : a.Wf) {cone : List (Nat × Node)} (hcone : Cone a root cone)
    (hroot : a.Has root) (hins : Inputs a root (inputsIn cone)) (draw : ρ → UInt64 × ρ)
    (words : Words) (g : ρ) :
    ∃ words' w, runRound draw words g cone
        = (.ok words', behind draw (inputsIn cone).length g) ∧
      wordOf words' root = .ok w ∧
      (a.hits root (inputsIn cone) (draws draw (inputsIn cone).length g) = true ↔ w ≠ 0) := by
  have hordered := h.ordered_cone hcone words
  obtain ⟨words', g', hrun, _, hfits⟩ : ∃ words' g',
      runRound draw words g cone = (.ok words', g') ∧
        (∀ j, j ∉ cone.map Prod.fst → words'[j]? = words[j]?) ∧ ∀ p ∈ cone, Fits words' p :=
    hordered.runRound_eq
  obtain ⟨rfl, hdrawn⟩ := hordered.runRound_draws hrun
  obtain ⟨w, hw⟩ := hcone.exists_wordOf hfits
  exact ⟨words', w, hrun, hw, h.hits_iff hcone hroot hins hfits (length_draws _ g) hdrawn hw⟩

/-- The rounds end with the first that hits, and they leave the stream behind its words. -/
theorem Wf.runRounds_firstHit (h : a.Wf) {cone : List (Nat × Node)} (hcone : Cone a root cone)
    (hroot : a.Has root) (hins : Inputs a root (inputsIn cone)) (draw : ρ → UInt64 × ρ)
    (left round : Nat) (words : Words) (g : ρ) :
    runRounds draw cone root left round words g =
      match a.firstHit draw root (inputsIn cone) left g with
      | some r => ⟨.ok .sat, behind draw ((r + 1) * (inputsIn cone).length) g,
          [.witnessed root (round + r)]⟩
      | none => .ok .unknown (behind draw (left * (inputsIn cone).length) g) := by
  induction left generalizing round words g with
  | zero =>
    rw [Nat.zero_mul]
    rfl
  | succ left ih =>
    obtain ⟨words', w, hrun, hw, hhits⟩ := h.runRound_hits hcone hroot hins draw words g
    unfold runRounds
    rw [hrun, firstHit_succ]
    simp only [hw]
    by_cases hzero : w = 0
    · -- This round has tried its lanes in vain, and the words that it leaves do not matter.
      have hmiss : ¬ a.hits root (inputsIn cone) (draws draw (inputsIn cone).length g) = true :=
        fun hhit => hhits.1 hhit hzero
      rw [if_pos hzero, if_neg hmiss, ih, behind_succ_mul]
      cases a.firstHit draw root (inputsIn cone) left (behind draw (inputsIn cone).length g) with
      | none => rfl
      | some r =>
        show (⟨_, _, [.witnessed root (round + 1 + r)]⟩ : Reply ρ Status)
          = ⟨_, behind draw ((r + 1 + 1) * (inputsIn cone).length) g,
              [.witnessed root (round + (r + 1))]⟩
        rw [behind_succ_mul (r + 1), Nat.add_assoc, Nat.add_comm 1 r]
    · rw [if_neg hzero, if_pos (hhits.2 hzero)]
      show _ = (⟨_, behind draw ((0 + 1) * (inputsIn cone).length) g, _⟩ : Reply ρ Status)
      rw [Nat.zero_add, Nat.one_mul, Nat.add_zero]

/-- What simulation of a signal comes to, the inputs of its cone being `ins`. -/
structure Simulated (a : Aig G) (root : Signal) (ins : List Nat) : Prop where
  /-- It answers as is due, with words from any stream. -/
  answer : ∀ {ρ : Type} (draw : ρ → UInt64 × ρ) (rounds : Nat) (g : ρ),
    a.simulateWith draw root rounds g = a.outcome draw root ins rounds g
  /-- With whatever random words a graph has, these are the stream, and the rest of the graph
      stays as it is. -/
  graph : ∀ (source : G.State) (rounds : Nat), (a.withSource source).simulate root rounds
    = (a.outcome G.next root ins rounds source).within a.withSource
  /-- Only the constant is found to be unsatisfiable. -/
  unsat : ∀ {ρ : Type} (draw : ρ → UInt64 × ρ) (rounds : Nat) (g : ρ),
    (a.simulateWith draw root rounds g).result = .ok .unsat ↔ root = .zero
  /-- What is found to be satisfiable is. -/
  sat : ∀ {ρ : Type} (draw : ρ → UInt64 × ρ) (rounds : Nat) (g : ρ),
    (a.simulateWith draw root rounds g).result = .ok .sat → ∃ ν, a.evaluate ν root = true

/-- No search ends with `unsat`. -/
theorem outcome_unsat_iff (rounds : Nat) :
    (a.outcome draw root ins rounds g).result = .ok .unsat ↔ root = .zero := by
  unfold outcome
  by_cases hzero : root = .zero
  · rw [if_pos hzero]
    exact ⟨fun _ => hzero, fun _ => rfl⟩
  · rw [if_neg hzero]
    refine ⟨fun hunsat => ?_, fun heq => absurd heq hzero⟩
    by_cases hone : root = .one
    · rw [if_pos hone] at hunsat
      cases hunsat
    · rw [if_neg hone] at hunsat
      cases hhit : a.firstHit draw root ins rounds g with
      | some r =>
        rw [hhit] at hunsat
        cases hunsat
      | none =>
        rw [hhit] at hunsat
        cases hunsat

theorem Wf.simulateWith_outcome (h : a.Wf) (hroot : a.Has root) :
    ∃ ins, Inputs a root ins ∧ ∀ {ρ : Type} (draw : ρ → UInt64 × ρ) (rounds : Nat) (g : ρ),
      a.simulateWith draw root rounds g = a.outcome draw root ins rounds g := by
  obtain ⟨cone, hcone, hspec⟩ := h.cone_eq hroot
  have hins := hspec.inputs hcone
  refine ⟨inputsIn cone, hins, ?_⟩
  intro ρ draw rounds g
  unfold simulateWith outcome
  by_cases hzero : root = .zero
  · rw [if_pos hzero, if_pos hzero]
  · rw [if_neg hzero, if_neg hzero]
    by_cases hone : root = .one
    · rw [if_pos hone, if_pos hone]
    · rw [if_neg hone, if_neg hone, hcone]
      have hrounds := h.runRounds_firstHit hspec hroot hins draw rounds 0 ∅ g
      simp only [Nat.zero_add] at hrounds
      exact hrounds

/-- Simulation of a signal that the graph has. -/
theorem Wf.simulated (h : a.Wf) (hroot : a.Has root) :
    ∃ ins, Inputs a root ins ∧ Simulated a root ins := by
  obtain ⟨ins, hins, hanswer⟩ := h.simulateWith_outcome hroot
  refine ⟨ins, hins, hanswer, ?_, ?_, ?_⟩
  · intro source rounds
    rw [← hanswer, ← simulateWith_withSource a source]
    rfl
  · intro ρ draw rounds g
    rw [hanswer]
    exact outcome_unsat_iff rounds
  · intro ρ draw rounds g hsat
    obtain ⟨status, g', events, heq, hright⟩ : ∃ status g' events,
        a.simulateWith draw root rounds g = ⟨.ok status, g', events⟩ ∧
          Library.Right a root.toNode status :=
      h.simulateWith_eq hroot
    rw [heq] at hsat
    obtain ⟨ν, hν⟩ := hright.1 (Except.ok.inj hsat)
    exact ⟨ν, (h.evaluate_eq hroot).trans hν⟩

end

namespace History

variable {G : Generator} {bits : Nat} {seed : UInt64} {h : History G}

/-- **What simulation finds.**  Take any graph that is built by requests about signals returned
    before, and any such signal.  There is one list of the inputs in its cone, and for any number
    of rounds and any stream of words

    - simulation comes to an end without a fault, and changes nothing but the random words of
      the graph;
    - the two constants are answered at once, `unsat` for false and `sat` for true, and no other
      signal is answered with `unsat`;
    - any other signal is answered with `sat` in the first round in which the bits of some lane
      of the words make it true, and with `unknown` if there is none;
    - a round takes one word for each input of the cone, in the order of the indices, and nothing
      else takes any. -/
theorem reached_simulated (hr : Reached bits seed h) {root : Signal} (hroot : root ∈ h.given) :
    ∃ ins, Inputs h.graph root ins ∧ Simulated h.graph root ins :=
  hr.sound.tidy.simulated (hr.sound.has root hroot)

/-- The conjunction of the first and the last of three inputs.  The first two words have no bit
    in common, the next two have. -/
theorem reached_simulated_conjunction :
    let words : List UInt64 := [1, 2, 2, 2, 0]
    let draw : Nat → UInt64 × Nat := fun n => (words.getD n 0, n + 1)
    ∃ h : History, Reached 4 0 h ∧ h.given = [⟨8⟩, ⟨6⟩, ⟨4⟩, ⟨2⟩] ∧ Inputs h.graph ⟨8⟩ [1, 3] ∧
      h.graph.simulateWith draw ⟨8⟩ 3 0 = ⟨.ok .sat, 4, [.witnessed ⟨8⟩ 1]⟩ := by
  intro words draw
  let start : History := ⟨⟨.empty 4, 0, Generator.xoshiro.ofSeed 0⟩, []⟩
  let inputs : History := ((start.after (.input "x")).after (.input "y")).after (.input "z")
  have hinputs : Reached 4 0 inputs :=
    .step (.step (.step (.start (ofBits_eq (by decide) 0)) nofun) nofun) nofun
  let last : History := inputs.after (.and ⟨2⟩ ⟨6⟩)
  have hr : Reached 4 0 last := .step hinputs (by decide +kernel)
  have hgiven : last.given = [⟨8⟩, ⟨6⟩, ⟨4⟩, ⟨2⟩] := by decide +kernel
  have hroot : ⟨8⟩ ∈ last.given := by
    rw [hgiven]
    exact List.mem_cons_self
  have hins : Inputs last.graph ⟨8⟩ [1, 3] := by
    obtain ⟨cone, hcone, hspec⟩ := hr.sound.tidy.cone_eq (hr.sound.has _ hroot)
    have hlist : (last.graph.cone ⟨8⟩).toOption.map inputsIn = some [1, 3] := by decide +kernel
    rw [hcone] at hlist
    rw [← Option.some.inj hlist]
    exact hspec.inputs hcone
  refine ⟨last, hr, hgiven, hins, ?_⟩
  obtain ⟨ins, hins', hsim⟩ := reached_simulated hr hroot
  obtain rfl := hins'.unique hins
  have hhit : last.graph.firstHit draw ⟨8⟩ [1, 3] 3 0 = some 1 := by decide +kernel
  rw [hsim.answer draw 3 0]
  unfold outcome
  rw [if_neg (by decide), if_neg (by decide), hhit]
  rfl

end History

end Aig

end SatMemo
