import Mathlib.Data.Set.Card
import SatMemo.Cnf.Decider
import SatMemo.Library.Tree
import SatMemo.Proofs.Oracle.Visiting

/-! # Entries are shared

    Formulas of the same structure get the same entry, in whatever order they are
    built, and whatever the decider answers.  The library may give nodes of
    different structures the same key; it has to keep its contract, and to answer
    as before about the nodes it already held.

    Along a run (`Course`) we note which formula was built under which index.  The
    invariant `Shared` says that the oracle is catalogued, that every formula
    built names the entry of its structure, and that no entry was made for a node
    outside the cones of these formulas. -/

namespace SatMemo

namespace Oracle

open Library (contains Same Operand Cone Orderly Steady)

variable {ε σ τ : Type} [Library ε] [Decider σ τ] {o o' o₁ : Oracle ε σ τ} {lib : ε}
  {reps new : List NodeId} {built built' : List (NodeId × Nat)} {m n : NodeId} {i : Nat}

/-! ## Runs -/

/-- The formula that a call builds, with the index it gets. -/
def named (c : Call NodeId) (o : Oracle ε σ τ) : List (NodeId × Nat) :=
  match c with
  | .build n | .isSatisfiable n =>
      match build n o with
      | .ok i _   => [(n, i)]
      | .error .. => []
  | _ => []

theorem named_of_no_subject {c : Call NodeId} (h : subject c = none) : named c o = [] := by
  cases c <;> first | rfl | cases h

theorem named_of_subject {c : Call NodeId} (h : subject c = some n) :
    named c o = match build n o with
      | .ok i _   => [(n, i)]
      | .error .. => [] := by
  cases c with
  | build n' =>
    cases h
    rfl
  | isSatisfiable n' =>
    cases h
    rfl
  | _ => cases h

/-- Calls that end no run, over a library that keeps its contract; and what was built. -/
inductive Course (o : Oracle ε σ τ) : Oracle ε σ τ → List (NodeId × Nat) → Prop where
  | nil : Course o o []
  | call {o' : Oracle ε σ τ} {built : List (NodeId × Nat)} (c : Call NodeId) :
      Course o o' built → ¬ Faults c o' → Orderly (after (perform c) o').library →
        Steady o'.library (after (perform c) o').library →
          Course o (after (perform c) o') (built ++ named c o')

/-- What the entries have to do with the formulas built. -/
structure Shared (reps : List NodeId) (o : Oracle ε σ τ) (built : List (NodeId × Nat)) :
    Prop where
  catalogued : Catalogued reps o
  held       : ∀ p ∈ built, contains o.library p.1 = true
  names      : ∀ p ∈ built, ∃ k, reps[p.2]? = some k ∧ Same o.library k p.1
  cones      : ∀ k ∈ reps, ∃ p ∈ built, Cone o.library p.1 k

theorem shared_start {s : σ} (h : Orderly lib) (settings : Settings) (watched : Bool)
    (setup : List Event) : Shared [] (start lib s settings watched setup) [] where
  catalogued := catalogued_start h settings watched setup
  held := nofun
  names := nofun
  cones := nofun

omit [Decider σ τ] in
theorem Shared.shelved (h : Shared reps o built) (hs : Shelved o o') (ho : Orderly o'.library)
    (hlib : Steady o.library o'.library) : Shared reps o' built where
  catalogued := h.catalogued.shelved hs ho hlib
  held := fun p hp => hlib.held (h.held p hp)
  names := by
    intro p hp
    obtain ⟨k, hk, hs⟩ := h.names p hp
    have hkc := h.catalogued.held (List.mem_of_getElem? hk)
    exact ⟨k, hk, (hlib.same_iff hkc (h.held p hp)).2 hs⟩
  cones := by
    intro k hk
    obtain ⟨p, hp, hcone⟩ := h.cones k hk
    exact ⟨p, hp, (h.catalogued.orderly.cone_iff hlib (h.held p hp)).2 hcone⟩

omit [Decider σ τ] in
/-- One more formula is built. -/
theorem Shared.concat (h : Shared reps o built) (hn : contains o.library n = true)
    (hb : Built reps n o i new o') : Shared (reps ++ new) o' (built ++ [(n, i)]) where
  catalogued := hb.catalogued
  held := by
    rw [hb.library]
    intro p hp
    obtain hp | hp := List.mem_append.1 hp
    · exact h.held p hp
    · rw [List.mem_singleton.1 hp]
      exact hn
  names := by
    rw [hb.library]
    intro p hp
    obtain hp | hp := List.mem_append.1 hp
    · obtain ⟨k, hk, hs⟩ := h.names p hp
      have hlt := (List.getElem?_eq_some_iff.1 hk).1
      exact ⟨k, (List.getElem?_append_left hlt).trans hk, hs⟩
    · rw [List.mem_singleton.1 hp]
      exact hb.named
  cones := by
    rw [hb.library]
    intro k hk
    obtain hk | hk := List.mem_append.1 hk
    · obtain ⟨p, hp, hcone⟩ := h.cones k hk
      exact ⟨p, List.mem_append_left _ hp, hcone⟩
    · exact ⟨(n, i), List.mem_append_right _ (List.mem_singleton.2 rfl), hb.cone k hk⟩

/-- A formula is built, or it is no formula of the library, or the decider has a fault. -/
theorem Shared.build_cases (h : Shared reps o built) (n : NodeId) :
    (∃ i o₁ new, build n o = .ok i o₁ ∧ o₁.library = o.library ∧
      Shared (reps ++ new) o₁ (built ++ [(n, i)])) ∨
    build n o = .error (.error (.unknownNode n)) o ∨
    ∃ fault o₁, build n o = .error (.fault fault) o₁ := by
  by_cases hn : contains o.library n = true
  · obtain ⟨i, o₁, hbuild, new, hb⟩ | ⟨stop, o₁, hbuild, fault, hstop, _⟩ :=
      (h.catalogued.yields_build hn).cases
    · exact .inl ⟨i, o₁, new, hbuild, hb.library, h.concat hn hb⟩
    · exact .inr (.inr ⟨fault, o₁, hstop ▸ hbuild⟩)
  · exact .inr (.inl (build_of_not_contains (Bool.eq_false_of_not_eq_true hn)))

/-- What a call does, if it ends no run. -/
theorem Shared.perform (h : Shared reps o built) {c : Call NodeId} (hc : ¬ Faults c o)
    (ho : Orderly (after (perform c) o).library)
    (hlib : Steady o.library (after (perform c) o).library) :
    ∃ new, Shared (reps ++ new) (after (perform c) o) (built ++ named c o) := by
  cases hsubject : subject c with
  | none =>
    refine ⟨[], ?_⟩
    rw [named_of_no_subject hsubject, List.append_nil, List.append_nil]
    exact h.shelved (shelved_of_no_subject hsubject o) ho hlib
  | some n =>
    have hs := shelved_of_subject hsubject o
    rw [named_of_subject hsubject]
    obtain ⟨i, o₁, new, hbuild, hlib₁, hshared⟩ | hunknown | ⟨fault, o₁, hfault⟩ := h.build_cases n
    · rw [after_ok hbuild] at hs
      rw [hbuild]
      exact ⟨new, hshared.shelved hs ho (hlib₁ ▸ hlib)⟩
    · rw [after_error hunknown] at hs
      refine ⟨[], ?_⟩
      rw [hunknown, List.append_nil, List.append_nil]
      exact h.shelved hs ho hlib
    · exact absurd (faults_of_build hsubject hfault) hc

/-- What a run does: the catalogue grows at its end. -/
theorem Course.shared (hr : Course o o' built') (h : Shared reps o built) :
    ∃ new, Shared (reps ++ new) o' (built ++ built') ∧ Steady o.library o'.library := by
  induction hr with
  | nil =>
    refine ⟨[], ?_, .refl _⟩
    rwa [List.append_nil, List.append_nil]
  | call c _ hc ho hlib ih =>
    obtain ⟨new, hshared, hsteady⟩ := ih
    obtain ⟨new', hshared'⟩ := hshared.perform hc ho hlib
    rw [List.append_assoc, List.append_assoc] at hshared'
    exact ⟨new ++ new', hshared', hsteady.trans hlib⟩

/-- Building changes no library, so that it goes on with any course. -/
theorem Course.build {s : σ} {settings : Settings} {watched : Bool} {setup : List Event}
    (ho : Orderly lib) (hr : Course (start lib s settings watched setup) o built)
    (hbuild : Oracle.build n o = .ok i o₁) :
    Course (start lib s settings watched setup) o₁ (built ++ [(n, i)]) := by
  obtain ⟨reps, hshared, _⟩ := hr.shared (shared_start ho settings watched setup)
  have hp : Oracle.perform (.build n) o = .ok (.entry i) o₁ := bind_ok hbuild
  have hnamed : named (.build n) o = [(n, i)] := by simp only [named, hbuild]
  have hlib : o₁.library = o.library := by
    obtain ⟨i', o', _, hbuild', hlib, _⟩ | hbuild' | ⟨fault, o', hbuild'⟩ := hshared.build_cases n
    · rw [hbuild] at hbuild'
      cases hbuild'
      exact hlib
    · rw [hbuild] at hbuild'
      cases hbuild'
    · rw [hbuild] at hbuild'
      cases hbuild'
  have hafter : after (Oracle.perform (.build n)) o = o₁ := after_ok hp
  rw [← hnamed, ← hafter]
  apply hr.call _ (not_faults_build hbuild)
  · rw [hafter, hlib]
    exact hshared.catalogued.orderly
  · rw [hafter, hlib]
    exact .refl _

/-! ## What the indices say -/

/-- The nodes of the structure of `n`. -/
def classOf (lib : ε) (n : NodeId) : Set NodeId :=
  { m | contains lib m = true ∧ Same lib n m }

omit [Decider σ τ] in
theorem classOf_eq_iff (ho : Orderly lib) (hm : contains lib m = true)
    (hn : contains lib n = true) : classOf lib m = classOf lib n ↔ Same lib m n := by
  constructor
  · intro heq
    have hmem : n ∈ classOf lib n := ⟨hn, ho.same_refl hn⟩
    exact (heq ▸ hmem : n ∈ classOf lib m).2
  · intro hs
    ext k
    constructor
    · intro ⟨hk, hmk⟩
      exact ⟨hk, ho.same_trans hn hm hk (ho.same_symm hm hn hs) hmk⟩
    · intro ⟨hk, hnk⟩
      exact ⟨hk, ho.same_trans hm hn hk hs hnk⟩

/-- What the indices of the formulas built so far say about their structure. -/
structure Indexed (o : Oracle ε σ τ) (built : List (NodeId × Nat)) : Prop where
  /-- Two formulas have the same index if and only if they have the same structure. -/
  agree    : ∀ p ∈ built, ∀ q ∈ built, p.2 = q.2 ↔ Same o.library p.1 q.1
  /-- An index is still that of the formulas of one structure. -/
  names    : ∀ p ∈ built, ∀ m, contains o.library m = true →
    (indexOf? m o = .ok (some p.2) o ↔ Same o.library p.1 m)
  /-- There is one entry for each structure in the cones of the formulas. -/
  count    : (classOf o.library '' { m | ∃ p ∈ built, Cone o.library p.1 m }).encard
    = o.entries.size
  /-- The indices in use are those below the number of entries. -/
  range    : ∀ i, i < o.entries.size ↔
    ∃ n, contains o.library n = true ∧ indexOf? n o = .ok (some i) o
  /-- Operands have entries with smaller indices. -/
  operands : ∀ n i, contains o.library n = true → indexOf? n o = .ok (some i) o →
    ∀ m, Operand o.library n m → ∃ j < i, indexOf? m o = .ok (some j) o

section Indexed

omit [Decider σ τ]

variable (h : Shared reps o built)
include h

theorem Shared.contains_of_cone {p : NodeId × Nat} (hp : p ∈ built)
    (hm : Cone o.library p.1 m) : contains o.library m = true :=
  h.catalogued.orderly.contains_of_cone (h.held p hp) hm

theorem Shared.names_iff {p : NodeId × Nat} (hp : p ∈ built) (hm : contains o.library m = true) :
    indexOf? m o = .ok (some p.2) o ↔ Same o.library p.1 m := by
  have ho := h.catalogued.orderly
  obtain ⟨k, hk, hs⟩ := h.names p hp
  have hkc := h.catalogued.held (List.mem_of_getElem? hk)
  have hpc := h.held p hp
  rw [h.catalogued.indexOf?_eq_some_iff hm]
  constructor
  · intro ⟨k', hk', hs'⟩
    rw [hk] at hk'
    cases hk'
    exact ho.same_trans hpc hkc hm (ho.same_symm hkc hpc hs) hs'
  · intro hpm
    exact ⟨k, hk, ho.same_trans hkc hpc hm hs hpm⟩

theorem Shared.agree {p q : NodeId × Nat} (hp : p ∈ built) (hq : q ∈ built) :
    p.2 = q.2 ↔ Same o.library p.1 q.1 := by
  have hself := (h.names_iff hq (h.held q hq)).2 (h.catalogued.orderly.same_refl (h.held q hq))
  rw [← h.names_iff hp (h.held q hq), hself]
  constructor
  · intro heq
    rw [heq]
  · intro heq
    injection heq with heq
    exact (Option.some.inj heq).symm

/-- The structures in the cones are those of the catalogue. -/
theorem Shared.image_classOf :
    classOf o.library '' { m | ∃ p ∈ built, Cone o.library p.1 m }
      = { c | c ∈ reps.map (classOf o.library) } := by
  have ho := h.catalogued.orderly
  ext c
  constructor
  · intro ⟨m, ⟨p, hp, hcone⟩, hc⟩
    obtain ⟨k, hk, hs⟩ := h.names p hp
    have hentered := h.catalogued.entered_of_cone (h.held p hp)
      ⟨k, List.mem_of_getElem? hk, hs⟩ hcone
    obtain ⟨r, hr, hrm⟩ := hentered
    have heq := (classOf_eq_iff ho (h.catalogued.held hr) (h.contains_of_cone hp hcone)).2 hrm
    exact List.mem_map.2 ⟨r, hr, heq.trans hc⟩
  · intro hc
    obtain ⟨r, hr, hrc⟩ := List.mem_map.1 hc
    exact ⟨r, h.cones r hr, hrc⟩

theorem Shared.count :
    (classOf o.library '' { m | ∃ p ∈ built, Cone o.library p.1 m }).encard
      = o.entries.size := by
  classical
  have hnodup : (reps.map (classOf o.library)).Nodup := by
    apply List.pairwise_map.2
    apply h.catalogued.distinct.imp_of_mem
    intro m n hm hn hmn heq
    exact hmn ((classOf_eq_iff h.catalogued.orderly (h.catalogued.held hm)
      (h.catalogued.held hn)).1 heq)
  rw [h.image_classOf, ← List.coe_toFinset, Set.encard_coe_eq_coe_finsetCard,
    List.toFinset_card_of_nodup hnodup, List.length_map, h.catalogued.size]

theorem Shared.indexed : Indexed o built where
  agree := fun p hp q hq => h.agree hp hq
  names := fun p hp m hm => h.names_iff hp hm
  count := h.count
  range := by
    intro i
    rw [h.catalogued.size]
    constructor
    · intro hi
      have hget := List.getElem?_eq_getElem hi
      have hheld := h.catalogued.held (List.getElem_mem hi)
      have hself := h.catalogued.orderly.same_refl hheld
      exact ⟨reps[i], hheld, h.catalogued.indexOf?_eq hheld hget hself⟩
    · intro ⟨n, hn, hindex⟩
      obtain ⟨k, hk, _⟩ := (h.catalogued.indexOf?_eq_some_iff hn).1 hindex
      exact (List.getElem?_eq_some_iff.1 hk).1
  operands := by
    intro n i hn hindex m hop
    obtain ⟨k, hk, hs⟩ := (h.catalogued.indexOf?_eq_some_iff hn).1 hindex
    obtain ⟨j, l, hj, hl⟩ := (h.catalogued.entered_of_operand hn hk hs hop).exists_position
    rw [List.getElem?_take] at hj
    by_cases hlt : j < i
    · rw [if_pos hlt] at hj
      have hm := h.catalogued.orderly.contains_of_operand hn hop
      exact ⟨j, hlt, h.catalogued.indexOf?_eq hm hj hl⟩
    · rw [if_neg hlt] at hj
      cases hj

end Indexed

/-- **Formulas share entries if and only if they have the same structure**, over a library
    that keeps its contract and whatever the decider answers.  At a point `o'` of a run the
    indices are as `Indexed` says; those given before a point `o` are still the same; and
    every formula of the library can be built, unless the decider has a fault. -/
theorem structures_shared {s : σ} {settings : Settings} {watched : Bool} {setup : List Event}
    (ho : Orderly lib) (hr : Course (start lib s settings watched setup) o built)
    (hr' : Course o o' built') :
    Indexed o' (built ++ built') ∧
    (∀ n i, contains o.library n = true → indexOf? n o = .ok (some i) o →
      indexOf? n o' = .ok (some i) o') ∧
    ∀ n, contains o'.library n = true →
      Yields (OfDecider σ) (build n) o' fun i o₁ => Indexed o₁ (built ++ built' ++ [(n, i)]) := by
  obtain ⟨reps, hshared, _⟩ := hr.shared (shared_start ho settings watched setup)
  obtain ⟨new, hshared', hsteady⟩ := hr'.shared hshared
  refine ⟨hshared'.indexed, ?_, ?_⟩
  · intro n i hn hindex
    obtain ⟨k, hk, hs⟩ := (hshared.catalogued.indexOf?_eq_some_iff hn).1 hindex
    have hkc := hshared.catalogued.held (List.mem_of_getElem? hk)
    have hlt := (List.getElem?_eq_some_iff.1 hk).1
    exact hshared'.catalogued.indexOf?_eq (hsteady.held hn)
      ((List.getElem?_append_left hlt).trans hk) ((hsteady.same_iff hkc hn).2 hs)
  · intro n hn
    apply (hshared'.catalogued.yields_build hn).mono
    intro i o₁ ⟨new', hb⟩
    exact (hshared'.concat hn hb).indexed

/-! ## Keys that collide -/

/-- Four nodes of one key: two variables, the first one again, and the negation of that. -/
def colliding : Tree where
  nodes := #[⟨.var, "x", [], some 7, .unknown⟩, ⟨.var, "y", [], some 7, .unknown⟩,
    ⟨.var, "x", [], some 7, .unknown⟩, ⟨.not, "not", [⟨2⟩], some 7, .unknown⟩]

/-- The first node that has the structure of `n`. -/
def firstLike (n : NodeId) : NodeId :=
  if n = ⟨2⟩ then ⟨0⟩ else n

section Colliding

variable {m n : NodeId}

theorem exists_fin_of_colliding (hn : contains colliding n = true) : ∃ i : Fin 4, n = ⟨i⟩ :=
  ⟨⟨n.raw, of_decide_eq_true hn⟩, rfl⟩

theorem same_colliding (hm : contains colliding m = true) (hn : contains colliding n = true) :
    Library.structEq colliding m n = .ok (decide (firstLike m = firstLike n)) := by
  obtain ⟨i, rfl⟩ := exists_fin_of_colliding hm
  obtain ⟨j, rfl⟩ := exists_fin_of_colliding hn
  revert i j
  decide

theorem same_colliding_iff (hm : contains colliding m = true)
    (hn : contains colliding n = true) : Same colliding m n ↔ firstLike m = firstLike n := by
  unfold Same
  rw [same_colliding hm hn, Except.ok.injEq, decide_eq_true_iff]

theorem key_colliding (hn : contains colliding n = true) :
    Library.structKey colliding n = .ok 7 := by
  obtain ⟨i, rfl⟩ := exists_fin_of_colliding hn
  revert i
  decide

/-- Only the last node is no variable. -/
theorem node_colliding (hn : contains colliding n = true) :
    Library.kind colliding n = .ok (if n = ⟨3⟩ then .not else .var) ∧
      Library.children colliding n = .ok (if n = ⟨3⟩ then [⟨2⟩] else []) ∧
      ∃ s, Library.label colliding n = .ok s := by
  obtain ⟨i, rfl⟩ := exists_fin_of_colliding hn
  have hlabel : Library.label colliding ⟨i⟩ = .ok (["x", "y", "x", "not"][i]) := by
    revert i
    decide
  refine ⟨?_, ?_, _, hlabel⟩
  · revert i
    decide
  · revert i
    decide

theorem operand_colliding (hn : contains colliding n = true) (hop : Operand colliding n m) :
    n = ⟨3⟩ ∧ m = ⟨2⟩ := by
  obtain ⟨ms, hms, hm⟩ := hop
  rw [(node_colliding hn).2.1] at hms
  cases hms
  by_cases hlast : n = ⟨3⟩
  · rw [if_pos hlast] at hm
    exact ⟨hlast, List.mem_singleton.1 hm⟩
  · rw [if_neg hlast] at hm
    cases hm

theorem orderly_colliding : Orderly colliding where
  lt_bound := fun hn => of_decide_eq_true hn
  node := by
    intro n hn
    obtain ⟨hkind, hchildren, _⟩ := node_colliding hn
    refine ⟨_, _, hkind, hchildren, ?_⟩
    by_cases hlast : n = ⟨3⟩
    · rw [if_pos hlast, if_pos hlast]
      decide
    · rw [if_neg hlast, if_neg hlast]
      decide
  named := fun hn _ => (node_colliding hn).2.2
  key := fun hn => ⟨7, key_colliding hn⟩
  compares := fun hm hn => ⟨_, same_colliding hm hn⟩
  same_refl := fun hn => (same_colliding_iff hn hn).2 rfl
  same_symm := fun hm hn h => (same_colliding_iff hn hm).2 ((same_colliding_iff hm hn).1 h).symm
  same_trans := fun hk hm hn h h' => (same_colliding_iff hk hn).2
    (((same_colliding_iff hk hm).1 h).trans ((same_colliding_iff hm hn).1 h'))
  same_key := fun hm hn _ => (key_colliding hm).trans (key_colliding hn).symm
  same_operands := by
    intro m n hm hn hs ms ns hms hns
    have hlast : m = ⟨3⟩ ↔ n = ⟨3⟩ := by
      have hfirst := (same_colliding_iff hm hn).1 hs
      unfold firstLike at hfirst
      grind
    rw [(node_colliding hm).2.1] at hms
    rw [(node_colliding hn).2.1] at hns
    cases hms
    cases hns
    by_cases hc : m = ⟨3⟩
    · rw [if_pos hc, if_pos (hlast.1 hc)]
      have hself : Same colliding ⟨2⟩ ⟨2⟩ := (same_colliding_iff rfl rfl).2 rfl
      exact .cons hself .nil
    · rw [if_neg hc, if_neg (mt hlast.2 hc)]
      exact .nil
  acyclic := by
    intro n hn hbelow
    obtain ⟨m, hop, hcone⟩ := Relation.TransGen.head'_iff.1 hbelow
    obtain ⟨rfl, rfl⟩ := operand_colliding hn hop
    -- The negated node has no operands, so that nothing else is in its cone.
    obtain heq | ⟨k, hop', _⟩ := hcone.cases_head
    · cases heq
    · cases (operand_colliding rfl hop').1

end Colliding

/-- The negation is built, which gives its operand the first entry; then the other variable,
    of the same key; then the first variable, which shares the entry of the node like it. -/
theorem structures_shared_colliding :
    ∃ o : Oracle Tree Encoder Literal, Indexed o [(⟨3⟩, 1), (⟨1⟩, 2), (⟨0⟩, 0)] := by
  let o₀ : Oracle Tree Encoder Literal := start colliding Encoder.start {} false []
  let o₁ := after (build ⟨3⟩) o₀
  let o₂ := after (build ⟨1⟩) o₁
  let o₃ := after (build ⟨0⟩) o₂
  have hbuild₁ : build ⟨3⟩ o₀ = .ok 1 o₁ := ok_of_run' (by decide +kernel)
  have hbuild₂ : build ⟨1⟩ o₁ = .ok 2 o₂ := ok_of_run' (by decide +kernel)
  have hbuild₃ : build ⟨0⟩ o₂ = .ok 0 o₃ := ok_of_run' (by decide +kernel)
  have h₁ : Course o₀ o₁ [(⟨3⟩, 1)] := Course.build orderly_colliding .nil hbuild₁
  have h₂ : Course o₀ o₂ [(⟨3⟩, 1), (⟨1⟩, 2)] := h₁.build orderly_colliding hbuild₂
  have h₃ : Course o₀ o₃ [(⟨3⟩, 1), (⟨1⟩, 2), (⟨0⟩, 0)] := h₂.build orderly_colliding hbuild₃
  exact ⟨o₃, (structures_shared orderly_colliding h₃ .nil).1⟩

end Oracle

end SatMemo
