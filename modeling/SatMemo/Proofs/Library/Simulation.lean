import SatMemo.Proofs.Library.Aig
import SatMemo.Proofs.Search

/-! # Simulation is sound

    The cone of a signal is closed under taking inputs, and it is listed with
    every gate behind its inputs.  After a round the words of the cone are
    therefore those of one assignment in each of the 64 positions, and a word
    other than zero shows an assignment that makes the signal true. -/

namespace SatMemo

namespace Aig

variable {G : Generator} {a : Aig G} {i j : Nat}

/-! ## Collecting the cone -/

/-- The indices that a node leads to: of a gate those of its inputs, the right one first. -/
def operandIndices (a : Aig G) (i : Nat) : Except Fault (List Nat) :=
  (a.nodes.value i).map fun
    | .input _ => []
    | .and l r => [r.index, l.index]

/-- A gate leads to its inputs, and nothing else leads anywhere. -/
theorem leads_iff :
    Search.Leads a.operandIndices 0 i j ↔
      ∃ l r, a.nodes.value i = .ok (.and l r) ∧ (j = l.index ∨ j = r.index) := by
  constructor
  · intro ⟨_, next, hnext, hj⟩
    unfold operandIndices at hnext
    cases hv : a.nodes.value i with
    | error fault =>
      rw [hv] at hnext
      cases hnext
    | ok v =>
      rw [hv] at hnext
      obtain rfl := Except.ok.inj hnext
      cases v with
      | input name => cases hj
      | and l r => exact ⟨l, r, rfl, by simpa [or_comm] using hj⟩
  · intro ⟨l, r, hv, hj⟩
    refine ⟨ne_zero_of_value hv, [r.index, l.index], ?_, by simpa [or_comm] using hj⟩
    unfold operandIndices
    rw [hv]
    rfl

/-- Collecting the nodes below is a search. -/
theorem collect_eq_gather (a : Aig G) (budget : Nat) (seen : Std.TreeSet Nat)
    (pending : List Nat) :
    a.collect budget seen pending = Search.gather a.operandIndices 0 budget seen pending := by
  fun_induction collect a budget seen pending with
  | case1 budget seen pending hdrop => rw [Search.gather, hdrop]
  | case2 budget seen pending i rest hdrop fault hv =>
    rw [Search.gather, hdrop]
    simp only [operandIndices, hv, Except.map]
  | case3 seen pending i rest hdrop v hv =>
    rw [Search.gather, hdrop]
    simp only [operandIndices, hv, Except.map]
  | case4 seen pending i rest hdrop name budget hv ih =>
    rw [Search.gather, hdrop]
    simp only [operandIndices, hv, Except.map]
    exact ih
  | case5 seen pending i rest hdrop l r budget hv ih =>
    rw [Search.gather, hdrop]
    simp only [operandIndices, hv, Except.map]
    exact ih

/-- Whatever can be reached is the constant's or has a node. -/
theorem Wf.value_of_reaches (h : a.Wf) {root : Signal} (hroot : a.Has root)
    (hi : Search.Reaches a.operandIndices 0 root.index i) : i = 0 ∨ ∃ v, a.nodes.value i = .ok v := by
  induction hi with
  | refl => exact hroot
  | tail _ hjk ih =>
    obtain ⟨l, r, hv, hk⟩ := leads_iff.1 hjk
    have hbelow := h.below hv
    rcases hk with rfl | rfl
    · exact has_of_lt hv hbelow.1
    · exact has_of_lt hv hbelow.2

/-- Collecting comes to an end, and everything that can be reached is collected, the constant
    apart. -/
theorem Wf.exists_collect (h : a.Wf) {root : Signal} (hroot : a.Has root) :
    ∃ seen, a.collect a.nodes.size ∅ [root.index] = .ok seen ∧
      ∀ i, i ∈ seen ↔ i ≠ 0 ∧ Search.Reaches a.operandIndices 0 root.index i := by
  have hvalue : ∀ i, Search.Reaches a.operandIndices 0 root.index i → i ≠ 0 →
      ∃ v, a.nodes.value i = .ok v :=
    fun i hi hzero => (h.value_of_reaches hroot hi).resolve_left hzero
  have hok : ∀ i, Search.Reaches a.operandIndices 0 root.index i → i ≠ 0 →
      ∃ next, a.operandIndices i = .ok next := by
    intro i hi hzero
    obtain ⟨v, hv⟩ := hvalue i hi hzero
    exact ⟨_, congrArg (Except.map _) hv⟩
  have hbound : ∀ i, Search.Reaches a.operandIndices 0 root.index i → i ≠ 0 →
      1 ≤ i ∧ i ≤ a.nodes.size :=
    fun i hi hzero => Arena.exists_value_iff.1 (hvalue i hi hzero)
  obtain ⟨seen, hseen, _, hmem⟩ := Search.exists_gather hok hbound
  exact ⟨seen, by rw [collect_eq_gather, hseen], hmem⟩

/-! ## The cone -/

/-- The inputs of an index are the constant or stand in a list. -/
def Listed (cone : List (Nat × Node)) (i : Nat) : Prop :=
  i = 0 ∨ i ∈ cone.map Prod.fst

/-- A list of nodes that is closed under taking inputs, in the order of the indices. -/
structure Cone (a : Aig G) (root : Signal) (cone : List (Nat × Node)) : Prop where
  sorted : cone.Pairwise fun p q => p.1 < q.1
  value  : ∀ p ∈ cone, a.nodes.value p.1 = .ok p.2
  closed : ∀ p ∈ cone, ∀ l r, p.2 = .and l r → Listed cone l.index ∧ Listed cone r.index
  root   : Listed cone root.index

/-- Looking up the nodes of indices that have one. -/
theorem mapM_value {is : List Nat} (h : ∀ i ∈ is, ∃ v, a.nodes.value i = .ok v) :
    ∃ cone : List (Nat × Node),
      is.mapM (fun i => (a.nodes.value i).map fun n => (i, n)) = .ok cone ∧
        cone.map Prod.fst = is ∧ ∀ p ∈ cone, a.nodes.value p.1 = .ok p.2 := by
  induction is with
  | nil => exact ⟨[], rfl, rfl, nofun⟩
  | cons i is ih =>
    obtain ⟨v, hv⟩ := h i (List.mem_cons_self ..)
    obtain ⟨cone, hcone, hfst, hvalue⟩ := ih fun j hj => h j (List.mem_cons_of_mem _ hj)
    refine ⟨(i, v) :: cone, ?_, by rw [List.map_cons, hfst], ?_⟩
    · rw [List.mapM_cons, hv, hcone]
      rfl
    · intro p hp
      rcases List.mem_cons.1 hp with rfl | hp
      · exact hv
      · exact hvalue p hp

theorem Wf.cone_eq (h : a.Wf) {root : Signal} (hroot : a.Has root) :
    ∃ cone, a.cone root = .ok cone ∧ Cone a root cone := by
  obtain ⟨seen, hseen, hmem⟩ := h.exists_collect hroot
  obtain ⟨cone, hcone, hfst, hvalue⟩ := mapM_value fun i hi =>
    have hi := (hmem i).1 (Std.TreeSet.mem_toList.1 hi)
    (h.value_of_reaches hroot hi.2).resolve_left hi.1
  have hlisted : ∀ i, Search.Reaches a.operandIndices 0 root.index i → Listed cone i := by
    intro i hi
    by_cases hzero : i = 0
    · exact .inl hzero
    · exact .inr (by rw [hfst]; exact Std.TreeSet.mem_toList.2 ((hmem i).2 ⟨hzero, hi⟩))
  refine ⟨cone, ?_, ?_, hvalue, ?_, hlisted _ .refl⟩
  · unfold Aig.cone
    rw [hseen]
    exact hcone
  · have hsorted : (cone.map Prod.fst).Pairwise fun i j => compare i j = .lt := by
      rw [hfst]
      exact Std.TreeSet.ordered_toList
    exact (List.pairwise_map.1 hsorted).imp Nat.compare_eq_lt.1
  · intro p hp l r hlr
    have hv : a.nodes.value p.1 = .ok (.and l r) := hlr ▸ hvalue p hp
    have hp : Search.Reaches a.operandIndices 0 root.index p.1 := by
      refine ((hmem _).1 ?_).2
      rw [← Std.TreeSet.mem_toList, ← hfst]
      exact List.mem_map_of_mem hp
    -- The inputs of a gate that can be reached can be reached.
    exact ⟨hlisted _ (hp.tail (leads_iff.2 ⟨l, r, hv, .inl rfl⟩)),
      hlisted _ (hp.tail (leads_iff.2 ⟨l, r, hv, .inr rfl⟩))⟩

/-! ## One round -/

section Words

variable {words words' : Words} {s : Signal}

theorem getElem?_insert (words : Words) (i j : Nat) (w : UInt64) :
    (words.insert i w)[j]? = if i = j then some w else words[j]? := by
  rw [Std.TreeMap.getElem?_insert]
  by_cases hij : i = j
  · rw [if_pos hij, if_pos (Std.LawfulEqCmp.compare_eq_iff_eq.2 hij)]
  · rw [if_neg hij, if_neg fun heq => hij (Std.LawfulEqCmp.compare_eq_iff_eq.1 heq)]

/-- The word of a signal depends on the word of its node alone. -/
theorem wordOf_congr (h : words'[s.index]? = words[s.index]?) :
    wordOf words' s = wordOf words s := by
  unfold wordOf
  rw [h]

theorem wordOf_eq (h : s.index = 0 ∨ ∃ w, words[s.index]? = some w) :
    ∃ w, wordOf words s = .ok w := by
  unfold wordOf
  by_cases hconst : s.index = 0
  · have hs : s.isConst = true := beq_iff_eq.2 hconst
    rw [hs]
    exact ⟨_, rfl⟩
  · obtain ⟨w, hw⟩ := h.resolve_left hconst
    have hs : s.isConst = false := beq_eq_false_iff_ne.2 hconst
    rw [hs, hw]
    exact ⟨_, rfl⟩

/-- The word at an index is as the node there wants it. -/
def Fits (words : Words) : Nat × Node → Prop
  | (i, .input _) => ∃ w, words[i]? = some w
  | (i, .and l r) => ∃ u v, wordOf words l = .ok u ∧ wordOf words r = .ok v ∧
      words[i]? = some (u &&& v)

theorem Fits.exists_word {p : Nat × Node} (h : Fits words p) : ∃ w, words[p.1]? = some w := by
  obtain ⟨i, v⟩ := p
  cases v with
  | input name => exact h
  | and l r =>
    obtain ⟨u, v, _, _, hw⟩ := h
    exact ⟨_, hw⟩

/-- An index whose word is there or comes with the rest of the round. -/
def Ready (words : Words) (rest : List (Nat × Node)) (i : Nat) : Prop :=
  (∃ w, words[i]? = some w) ∨ Listed rest i

theorem Ready.insert {rest : List (Nat × Node)} {v : Node} (w : UInt64)
    (h : Ready words ((i, v) :: rest) j) : Ready (words.insert i w) rest j := by
  by_cases hij : i = j
  · exact .inl ⟨w, by rw [getElem?_insert, if_pos hij]⟩
  · rcases h with ⟨u, hu⟩ | hzero | hmem
    · exact .inl ⟨u, by rw [getElem?_insert, if_neg hij, hu]⟩
    · exact .inr (.inl hzero)
    · rcases List.mem_cons.1 hmem with rfl | hmem
      · exact absurd rfl hij
      · exact .inr (.inr hmem)

/-- The order of a round: the nodes come by index, and gates behind their inputs, which are
    ready. -/
structure Ordered (words : Words) (rest : List (Nat × Node)) : Prop where
  sorted : rest.Pairwise fun p q => p.1 < q.1
  below  : ∀ p ∈ rest, ∀ l r, p.2 = .and l r → l.index < p.1 ∧ r.index < p.1
  ready  : ∀ p ∈ rest, ∀ l r, p.2 = .and l r → Ready words rest l.index ∧ Ready words rest r.index

theorem Ordered.insert {v : Node} {rest : List (Nat × Node)}
    (h : Ordered words ((i, v) :: rest)) (w : UInt64) : Ordered (words.insert i w) rest where
  sorted := (List.pairwise_cons.1 h.sorted).2
  below := fun p hp => h.below p (List.mem_cons_of_mem _ hp)
  ready := by
    intro p hp l r hlr
    have hready := h.ready p (List.mem_cons_of_mem _ hp) l r hlr
    exact ⟨hready.1.insert w, hready.2.insert w⟩

/-- An index below the head of a round does not come in it. -/
theorem Ordered.not_mem {v : Node} {rest : List (Nat × Node)}
    (h : Ordered words ((i, v) :: rest)) (hj : j ≤ i) : j ∉ rest.map Prod.fst := by
  intro hmem
  obtain ⟨p, hp, rfl⟩ := List.mem_map.1 hmem
  have hlt := (List.pairwise_cons.1 h.sorted).1 p hp
  exact absurd hj (Nat.not_le_of_lt hlt)

/-- The inputs of a gate have their words when its turn comes. -/
theorem Ordered.wordOf_eq {l r : Signal} {rest : List (Nat × Node)}
    (h : Ordered words ((i, .and l r) :: rest)) :
    (∃ u, wordOf words l = .ok u) ∧ ∃ v, wordOf words r = .ok v := by
  -- Inputs stand before the gate, so they do not come later in the round.
  have hbelow := h.below _ (List.mem_cons_self ..) l r rfl
  have hready := h.ready _ (List.mem_cons_self ..) l r rfl
  have hword : ∀ {x : Signal}, x.index < i → Ready words ((i, .and l r) :: rest) x.index →
      ∃ w, wordOf words x = .ok w := by
    intro x hx hready
    rcases hready with hw | hzero | hmem
    · exact Aig.wordOf_eq (.inr hw)
    · exact Aig.wordOf_eq (.inl hzero)
    · rcases List.mem_cons.1 hmem with heq | hmem
      · exact absurd heq (Nat.ne_of_lt hx)
      · exact absurd hmem (h.not_mem (Nat.le_of_lt hx))
  exact ⟨hword hbelow.1 hready.1, hword hbelow.2 hready.2⟩

variable {ρ : Type} {draw : ρ → UInt64 × ρ}

/-- A round comes to an end with words as the nodes want them. -/
theorem Ordered.runRound_eq {g : ρ} {rest : List (Nat × Node)} (h : Ordered words rest) :
    ∃ words' g', runRound draw words g rest = (.ok words', g') ∧
      (∀ j, j ∉ rest.map Prod.fst → words'[j]? = words[j]?) ∧ ∀ p ∈ rest, Fits words' p := by
  induction rest generalizing words g with
  | nil => exact ⟨words, g, rfl, fun _ _ => rfl, nofun⟩
  | cons p rest ih =>
    obtain ⟨i, v⟩ := p
    -- What is written now is not written again.
    have hkeep : ∀ {w : UInt64} {words'' : Words},
        (∀ j, j ∉ rest.map Prod.fst → words''[j]? = (words.insert i w)[j]?) →
        words''[i]? = some w ∧
          ∀ j, j ∉ ((i, v) :: rest).map Prod.fst → words''[j]? = words[j]? := by
      intro w words'' hkeep
      refine ⟨?_, fun j hj => ?_⟩
      · rw [hkeep i (h.not_mem (Nat.le_refl i)), getElem?_insert, if_pos rfl]
      · rw [List.map_cons, List.mem_cons, not_or] at hj
        rw [hkeep j hj.2, getElem?_insert, if_neg fun hij => hj.1 hij.symm]
    cases v with
    | input name =>
      obtain ⟨words', g', hrun, hold, hfits⟩ := ih (h.insert (draw g).1) (g := (draw g).2)
      refine ⟨words', g', hrun, (hkeep hold).2, ?_⟩
      intro p hp
      rcases List.mem_cons.1 hp with rfl | hp
      · exact ⟨_, (hkeep hold).1⟩
      · exact hfits p hp
    | and l r =>
      obtain ⟨⟨u, hu⟩, ⟨v, hv⟩⟩ := h.wordOf_eq
      obtain ⟨words', g', hrun, hold, hfits⟩ := ih (h.insert (u &&& v)) (g := g)
      refine ⟨words', g', ?_, (hkeep hold).2, ?_⟩
      · unfold runRound
        rw [hu, hv]
        exact hrun
      · intro p hp
        rcases List.mem_cons.1 hp with rfl | hp
        · have hbelow := h.below _ (List.mem_cons_self ..) l r rfl
          -- The inputs keep their words, since they are not written from here on.
          have hinput : ∀ {x : Signal}, x.index < i → words'[x.index]? = words[x.index]? := by
            intro x hx
            refine (hkeep hold).2 x.index ?_
            rw [List.map_cons, List.mem_cons, not_or]
            exact ⟨Nat.ne_of_lt hx, h.not_mem (Nat.le_of_lt hx)⟩
          refine ⟨u, v, ?_, ?_, (hkeep hold).1⟩
          · rw [wordOf_congr (hinput hbelow.1), hu]
          · rw [wordOf_congr (hinput hbelow.2), hv]
        · exact hfits p hp

/-! ## The meaning of the words -/

/-- The bit of a word in a position. -/
def bit (b : Nat) (w : UInt64) : Bool :=
  w.toBitVec.getLsbD b

theorem bit_and (b : Nat) (u v : UInt64) : bit b (u &&& v) = (bit b u && bit b v) := by
  unfold bit
  rw [UInt64.toBitVec_and, BitVec.getLsbD_and]

theorem bit_not {b : Nat} (hb : b < 64) (w : UInt64) : bit b (~~~w) = !bit b w := by
  unfold bit
  rw [UInt64.toBitVec_not, BitVec.getLsbD_not, decide_eq_true hb, Bool.true_and]

theorem bit_zero (b : Nat) : bit b 0 = false := by
  unfold bit
  exact BitVec.getLsbD_zero

/-- A word other than zero has a bit. -/
theorem exists_bit {w : UInt64} (h : w ≠ 0) : ∃ b, b < 64 ∧ bit b w = true := by
  apply Classical.byContradiction
  intro hnone
  apply h
  apply UInt64.toBitVec_inj.1
  apply BitVec.eq_of_getLsbD_eq
  intro b hb
  rw [show (0 : UInt64).toBitVec.getLsbD b = false from bit_zero b]
  exact Bool.eq_false_iff.2 fun hbit => hnone ⟨b, hb, hbit⟩

/-- The assignment that the words make in a position: each name has the bit of its input. -/
noncomputable def assignment (a : Aig G) (words : Words) (b : Nat) (name : String) : Bool :=
  open Classical in
  if h : ∃ i, a.nodes.value i = .ok (.input name) then bit b ((words[h.choose]?).getD 0)
  else false

theorem Wf.assignment_eq (h : a.Wf) {name : String} (hi : a.nodes.value i = .ok (.input name))
    {w : UInt64} (hw : words[i]? = some w) (b : Nat) :
    a.assignment words b name = bit b w := by
  have hex : ∃ i, a.nodes.value i = .ok (.input name) := ⟨i, hi⟩
  have hchoose : hex.choose = i := h.arena.distinct hex.choose_spec hi
  unfold assignment
  rw [dif_pos hex, hchoose, hw]
  rfl

/-- The word of a signal is made of its values. -/
def Tells (a : Aig G) (words : Words) (b : Nat) (s : Signal) : Prop :=
  ∀ w, wordOf words s = .ok w → bit b w = a.eval (a.assignment words b) s

/-- It is so for a signal if it is so for the plain signal of its node. -/
theorem Wf.tells_of_node (h : a.Wf) {b : Nat} (hb : b < 64) (hs : a.Has s)
    (hnode : s.index ≠ 0 → ∃ w, words[s.index]? = some w ∧
      bit b w = a.eval (a.assignment words b) (.ofIndex s.index)) : a.Tells words b s := by
  have hplain : ∃ w, wordOf words s = .ok (if s.isNegated then ~~~w else w) ∧
      bit b w = a.eval (a.assignment words b) (.ofIndex s.index) := by
    unfold wordOf
    by_cases hzero : s.index = 0
    · have hconst : s.isConst = true := beq_iff_eq.2 hzero
      refine ⟨0, by rw [hconst]; rfl, ?_⟩
      rw [hzero, bit_zero]
      exact h.eval_zero.symm
    · have hconst : s.isConst = false := beq_eq_false_iff_ne.2 hzero
      obtain ⟨w, hw, hbit⟩ := hnode hzero
      exact ⟨w, by rw [hconst, hw]; rfl, hbit⟩
  obtain ⟨w, hw, hbit⟩ := hplain
  have hhas : a.Has (.ofIndex s.index) := by
    unfold Has
    rw [Signal.index_ofIndex]
    exact hs
  intro w' hw'
  obtain rfl := Except.ok.inj (hw'.symm.trans hw)
  rcases Signal.eq_ofIndex s with heq | heq
  · have hneg : s.isNegated = false := by
      rw [heq]
      exact Signal.isNegated_ofIndex _
    rw [hneg, if_neg Bool.false_ne_true, hbit, ← heq]
  · have hneg : s.isNegated = true := by
      rw [heq]
      exact Signal.isNegated_negate_ofIndex _
    rw [hneg, if_pos rfl, bit_not hb, hbit, ← h.eval_negate hhas, ← heq]

/-- After a round every word of the cone is made of values. -/
theorem Wf.tells_of_fits (h : a.Wf) {root : Signal} {cone : List (Nat × Node)}
    (hcone : Cone a root cone) (hfits : ∀ p ∈ cone, Fits words p) {b : Nat} (hb : b < 64)
    (hs : a.Has s) (hlisted : Listed cone s.index) : a.Tells words b s := by
  -- By induction on the index, since the inputs of a gate have smaller ones.
  induction hi : s.index using Nat.strongRecOn generalizing s with
  | ind i ih =>
    subst hi
    refine h.tells_of_node hb hs fun hzero => ?_
    obtain ⟨⟨i, v⟩, hp, hi⟩ := List.mem_map.1 (hlisted.resolve_left hzero)
    have hi : i = s.index := hi
    have hv : a.nodes.value i = .ok v := hcone.value _ hp
    rw [← hi]
    cases v with
    | input name =>
      obtain ⟨w, hw⟩ := hfits _ hp
      exact ⟨w, hw, by rw [h.eval_form (.input hv)]; exact (h.assignment_eq hv hw b).symm⟩
    | and l r =>
      obtain ⟨u, v, hu, hv', hw⟩ := hfits _ hp
      have hbelow := h.below hv
      have hclosed := hcone.closed _ hp l r rfl
      have hl := ih l.index (hi ▸ hbelow.1) (has_of_lt hv hbelow.1) hclosed.1 rfl u hu
      have hr := ih r.index (hi ▸ hbelow.2) (has_of_lt hv hbelow.2) hclosed.2 rfl v hv'
      exact ⟨u &&& v, hw, by rw [bit_and, hl, hr, h.eval_gate hv]⟩

/-! ## Rounds -/

/-- Whatever words there are before it, a round takes the cone in order. -/
theorem Wf.ordered_cone (h : a.Wf) {root : Signal} {cone : List (Nat × Node)}
    (hcone : Cone a root cone) (words : Words) : Ordered words cone where
  sorted := hcone.sorted
  below := by
    intro p hp l r hlr
    exact h.below ((hcone.value p hp).trans (congrArg Except.ok hlr))
  ready := by
    intro p hp l r hlr
    have hclosed := hcone.closed p hp l r hlr
    exact ⟨.inr hclosed.1, .inr hclosed.2⟩

/-- After a round the signal itself has a word. -/
theorem Cone.exists_wordOf {root : Signal} {cone : List (Nat × Node)} (h : Cone a root cone)
    (hfits : ∀ p ∈ cone, Fits words p) : ∃ w, wordOf words root = .ok w := by
  apply wordOf_eq
  rcases h.root with hzero | hmem
  · exact .inl hzero
  · obtain ⟨p, hp, hi⟩ := List.mem_map.1 hmem
    rw [← hi]
    exact .inr (hfits p hp).exists_word

/-- The rounds come to an end, and they say that a signal can be true only if it can. -/
theorem Wf.runRounds_eq (h : a.Wf) {root : Signal} {cone : List (Nat × Node)}
    (hcone : Cone a root cone) (hroot : a.Has root) {left round : Nat} {g : ρ} :
    ∃ status g' events, runRounds draw cone root left round words g = ⟨.ok status, g', events⟩ ∧
      (status = .unknown ∨ status = .sat ∧ ∃ ν, a.eval ν root = true) := by
  induction left generalizing round words g with
  | zero => exact ⟨.unknown, g, [], rfl, .inl rfl⟩
  | succ left ih =>
    obtain ⟨words', g', hrun, _, hfits⟩ : ∃ words' g',
        runRound draw words g cone = (.ok words', g') ∧
          (∀ j, j ∉ cone.map Prod.fst → words'[j]? = words[j]?) ∧ ∀ p ∈ cone, Fits words' p :=
      (h.ordered_cone hcone words).runRound_eq
    obtain ⟨w, hw⟩ := hcone.exists_wordOf hfits
    unfold runRounds
    rw [hrun]
    simp only [hw]
    by_cases hzero : w = 0
    · rw [if_pos hzero]
      exact ih
    · rw [if_neg hzero]
      -- Some bit is set, and the assignment in its position makes the root true.
      obtain ⟨b, hb, hbit⟩ := exists_bit hzero
      refine ⟨.sat, g', _, rfl, .inr ⟨rfl, a.assignment words' b, ?_⟩⟩
      rw [← h.tells_of_fits hcone hfits hb hroot hcone.root w hw]
      exact hbit

/-- Simulation is never wrong. -/
theorem Wf.simulateWith_eq (h : a.Wf) {root : Signal} (hroot : a.Has root) {rounds : Nat} {g : ρ} :
    ∃ status g' events, a.simulateWith draw root rounds g = ⟨.ok status, g', events⟩ ∧
      Library.Right a root.toNode status := by
  unfold simulateWith
  by_cases hzero : root = .zero
  · rw [if_pos hzero]
    refine ⟨.unsat, g, [], rfl, nofun, fun _ ν => ?_⟩
    rw [hzero]
    exact h.eval_zero
  · rw [if_neg hzero]
    by_cases hone : root = .one
    · rw [if_pos hone]
      refine ⟨.sat, g, [], rfl, fun _ => ⟨fun _ => true, ?_⟩, nofun⟩
      rw [hone]
      exact h.eval_one
    · rw [if_neg hone]
      obtain ⟨cone, hcone, hspec⟩ := h.cone_eq hroot
      rw [hcone]
      obtain ⟨status, g', events, hrun, hstatus⟩ : ∃ status g' events,
          runRounds draw cone root rounds 0 ∅ g = ⟨.ok status, g', events⟩ ∧
            (status = .unknown ∨ status = .sat ∧ ∃ ν, a.eval ν root = true) :=
        h.runRounds_eq hspec hroot
      refine ⟨status, g', events, hrun, ?_⟩
      rcases hstatus with rfl | ⟨rfl, hsat⟩
      · exact Library.right_unknown a _
      · exact ⟨fun _ => hsat, nofun⟩

end Words

/-! ## The laws -/

theorem Wf.simulate_eq (h : a.Wf) {n : NodeId} (hn : a.contains n = true) (rounds : Nat) :
    ∃ status a' events, a.simulate (.ofNode n) rounds = ⟨.ok status, a', events⟩ ∧ a'.Wf ∧
      Library.Extends a a' ∧ Library.Right a n status := by
  obtain ⟨status, g', events, hrun, hright⟩ :
      ∃ status g' events, a.simulateWith G.next (.ofNode n) rounds a.source
        = ⟨.ok status, g', events⟩ ∧ Library.Right a n status :=
    h.simulateWith_eq (contains_iff.1 hn)
  refine ⟨status, { a with source := g' }, events, ?_, ⟨h.arena, h.below⟩, ?_, hright⟩
  · unfold simulate
    rw [hrun]
    rfl
  · exact extends_of_values fun hv => hv

instance : Library.Lawful (Aig G) where
  Wf := Wf
  key n _ := UInt64.ofNat n.raw
  founded := Wf.founded
  structEq_eq := fun _ _ _ => rfl
  structKey_eq := fun _ _ => rfl
  var_unique := fun h hm hn => h.eq_of_input hm hn
  print_eq := fun h hn => ⟨_, h.print_eq hn⟩
  check := fun rounds h hn => h.simulate_eq hn rounds
  grows_true := fun h => h.makes_of_has has_one fun _ => h.eval_one
  grows_false := fun h => h.makes_of_has has_zero fun _ => h.eval_zero
  grows_variable := fun name h => h.makes_input name
  grows_not := fun h hn => h.makes_of_has (contains_iff.1 hn).negate fun _ =>
    h.eval_negate (contains_iff.1 hn)
  grows_and := fun h hns => h.makes_all hns
  grows_or := fun h hns => h.makes_any hns

/-- An empty graph is well-formed. -/
theorem wf_empty (bits : Nat) (state : G.State) : (Aig.mk (.empty bits) 0 state).Wf where
  arena := Arena.wf_empty bits
  below := fun hv => absurd hv (Arena.value_empty_ne bits _ _)

theorem ofBits_eq {bits : Nat} (h : bits ≤ 31) (seed : UInt64) :
    ofBits bits seed G = .ok ⟨.empty bits, 0, G.ofSeed seed⟩ := by
  unfold ofBits Arena.ofBits
  rw [if_pos h]
  rfl

/-- A new graph is empty. -/
theorem eq_of_ofBits {bits : Nat} {seed : UInt64} {a : Aig G} (h : ofBits bits seed G = .ok a) :
    a = ⟨.empty bits, 0, G.ofSeed seed⟩ := by
  unfold ofBits Arena.ofBits at h
  split at h
  · exact (Except.ok.inj h).symm
  · cases h

end Aig

end SatMemo
