import SatMemo.Proofs.Oracle.Sharing

/-! # The order of lowering

    A formula is lowered operands first, from left to right, and what has an entry
    by the time it is reached is left out.  Which nodes this lowers, and in which
    order, is a matter of the library and of the entries alone: `Postorder` is the
    recursion without oracle or decider.

    Every node of such a list can be lowered when its turn comes (`Lowerable`), so
    that lowering the nodes of the list one after another stops for nothing but a
    fault of the decider.  This is what a visit does, and what working off the
    list of pending nodes does, whatever is left of depth and budget. -/

namespace SatMemo

namespace Oracle

open Library (contains bound Same Operand Below Cone Orderly)

variable {ε σ τ : Type} [Library ε] {lib : ε} {o o' : Oracle ε σ τ}
  {reps above ns ms new new' : List NodeId} {k m n : NodeId} {depth : Nat}

/-! ## Lists that may be lowered -/

/-- The nodes may be lowered in this order where those of `reps` have entries: none has an
    entry when its turn comes, and all its operands have. -/
inductive Lowerable (lib : ε) : (reps new : List NodeId) → Prop where
  | nil {reps : List NodeId} : Lowerable lib reps []
  | cons {reps new : List NodeId} {n : NodeId} : contains lib n = true →
      ¬ Entered lib reps n → (∀ m, Operand lib n m → Entered lib reps m) →
        Lowerable lib (reps ++ [n]) new → Lowerable lib reps (n :: new)

theorem Lowerable.append (h : Lowerable lib reps new) (h' : Lowerable lib (reps ++ new) new') :
    Lowerable lib reps (new ++ new') := by
  induction h with
  | nil => rwa [List.append_nil] at h'
  | cons hn hnew hops _ ih =>
    rw [← List.append_cons] at ih
    exact .cons hn hnew hops (ih h')

theorem Lowerable.singleton (hn : contains lib n = true) (hnew : ¬ Entered lib reps n)
    (hops : ∀ m, Operand lib n m → Entered lib reps m) : Lowerable lib reps [n] :=
  .cons hn hnew hops .nil

/-- None of the nodes has an entry before. -/
theorem Lowerable.not_entered (h : Lowerable lib reps new) : ∀ k ∈ new, ¬ Entered lib reps k := by
  induction h with
  | nil => exact nofun
  | cons hn hnew hops _ ih =>
    intro k hk hentered
    obtain rfl | hk := List.mem_cons.1 hk
    · exact hnew hentered
    · exact ih k hk (hentered.mono (List.subset_append_left _ _))

/-- They have different structures. -/
theorem Lowerable.distinct (h : Lowerable lib reps new) :
    new.Pairwise fun m n => ¬ Same lib m n := by
  induction h with
  | nil => exact .nil
  | @cons reps new n hn hnew hops hrest ih =>
    refine List.pairwise_cons.2 ⟨?_, ih⟩
    intro k hk hs
    exact hrest.not_entered k hk ⟨n, List.mem_append_right _ (List.mem_singleton.2 rfl), hs⟩

/-- Every node of the list is held, and its operands have entries. -/
def Closed (lib : ε) (reps : List NodeId) : Prop :=
  ∀ k ∈ reps, contains lib k = true ∧ ∀ m, Operand lib k m → Entered lib reps m

theorem Lowerable.closed (h : Lowerable lib reps new) (hreps : Closed lib reps) :
    Closed lib (reps ++ new) := by
  induction h with
  | nil => rwa [List.append_nil]
  | @cons reps new n hn hnew hops _ ih =>
    rw [List.append_cons]
    apply ih
    intro k hk
    have hsub : reps ⊆ reps ++ [n] := List.subset_append_left _ _
    obtain hk | hk := List.mem_append.1 hk
    · exact ⟨(hreps k hk).1, fun m hop => ((hreps k hk).2 m hop).mono hsub⟩
    · rw [List.mem_singleton.1 hk]
      exact ⟨hn, fun m hop => (hops m hop).mono hsub⟩

/-- Where the operands of entries have entries, whole cones have. -/
theorem Closed.entered_of_cone (h : Closed lib reps) (ho : Orderly lib)
    (hn : contains lib n = true) (hentered : Entered lib reps n) (hm : Cone lib n m) :
    Entered lib reps m := by
  induction hm with
  | refl => exact hentered
  | @tail x y hx hop ih =>
    obtain ⟨k, hk, hs⟩ := ih
    obtain ⟨hkc, hops⟩ := h k hk
    have hxc := ho.contains_of_cone hn hx
    have hyc := ho.contains_of_operand hxc hop
    -- The entry was made for a node of the same structure, which has such an operand.
    obtain ⟨z, hz, hyz⟩ := ho.exists_operand_same hxc hkc (ho.same_symm hkc hxc hs) hop
    have hzc := ho.contains_of_operand hkc hz
    obtain ⟨l, hl, hlz⟩ := hops z hz
    exact ⟨l, hl, ho.same_trans (h l hl).1 hzc hyc hlz (ho.same_symm hyc hzc hyz)⟩

theorem Catalogued.closed_reps (h : Catalogued reps o) : Closed o.library reps := by
  intro k hk
  obtain ⟨i, hi⟩ := List.mem_iff_getElem?.1 hk
  exact ⟨h.held hk, fun m hop => (h.closed hi hop).mono (List.take_subset i reps)⟩

/-! ## The recursion without an oracle -/

/-- Going through `ns` from left to right, where the nodes of `reps` have entries, lowers the
    nodes `new` in this order. -/
inductive Postorder (lib : ε) : (reps ns new : List NodeId) → Prop where
  | nil {reps : List NodeId} : Postorder lib reps [] []
  | entered {reps ns new : List NodeId} {n : NodeId} : Entered lib reps n →
      Postorder lib reps ns new → Postorder lib reps (n :: ns) new
  | lowered {reps ns ms new new' : List NodeId} {n : NodeId} : ¬ Entered lib reps n →
      Library.children lib n = .ok ms → Postorder lib reps ms new →
        Postorder lib (reps ++ (new ++ [n])) ns new' →
          Postorder lib reps (n :: ns) (new ++ [n] ++ new')

/-- First one node, then the others. -/
theorem Postorder.cons (h : Postorder lib reps [n] new) (h' : Postorder lib (reps ++ new) ns new') :
    Postorder lib reps (n :: ns) (new ++ new') := by
  cases h with
  | entered hn hnil =>
    cases hnil
    rw [List.append_nil] at h'
    exact .entered hn h'
  | lowered hn hms hops hnil =>
    cases hnil
    rw [List.append_nil] at h' ⊢
    exact .lowered hn hms hops h'

theorem exists_postorder_of_forall
    (h : ∀ n ∈ ns, ∀ reps, ∃ new, Postorder lib reps [n] new) (reps : List NodeId) :
    ∃ new, Postorder lib reps ns new := by
  induction ns generalizing reps with
  | nil => exact ⟨[], .nil⟩
  | cons n ns ih =>
    obtain ⟨new, hnew⟩ := h n (List.mem_cons_self ..) reps
    obtain ⟨new', hnew'⟩ := ih (fun m hm => h m (List.mem_cons_of_mem _ hm)) (reps ++ new)
    exact ⟨new ++ new', hnew.cons hnew'⟩

/-- The recursion ends on every formula, since no node is below itself. -/
theorem exists_postorder (ho : Orderly lib) (hn : contains lib n = true) (reps : List NodeId) :
    ∃ new, Postorder lib reps [n] new := by
  refine ho.induction (P := fun n => ∀ reps, ∃ new, Postorder lib reps [n] new) ?_ hn reps
  intro n hn ih reps
  by_cases hentered : Entered lib reps n
  · exact ⟨[], .entered hentered .nil⟩
  · obtain ⟨_, ms, _, hms, _, _⟩ := ho.node hn
    obtain ⟨new, hnew⟩ := exists_postorder_of_forall
      (fun m hm => ih m (.single ⟨ms, hms, hm⟩)) reps
    exact ⟨_, .lowered hentered hms hnew .nil⟩

/-- What the recursion makes of a list of nodes. -/
structure Ordered (lib : ε) (reps ns new : List NodeId) : Prop where
  lowerable : Lowerable lib reps new
  cone      : ∀ k ∈ new, ∃ n ∈ ns, Cone lib n k
  entered   : ∀ n ∈ ns, Entered lib (reps ++ new) n

/-- A node whose operands were gone through may be lowered: nothing below it has its
    structure. -/
theorem Ordered.lowerable_next (h : Ordered lib reps ms new) (ho : Orderly lib)
    (hn : contains lib n = true) (hnew : ¬ Entered lib reps n)
    (hms : Library.children lib n = .ok ms) : Lowerable lib (reps ++ new) [n] := by
  apply Lowerable.singleton hn
  · intro ⟨k, hk, hs⟩
    obtain hk | hk := List.mem_append.1 hk
    · exact hnew ⟨k, hk, hs⟩
    · obtain ⟨m, hm, hcone⟩ := h.cone k hk
      have hbelow : Below lib n k := .head' ⟨ms, hms, hm⟩ hcone
      have hkc := ho.contains_of_below hn hbelow
      exact ho.not_same_of_below hn hbelow (ho.same_symm hkc hn hs)
  · intro m ⟨ms', hms', hm⟩
    rw [hms] at hms'
    cases hms'
    exact h.entered m hm

theorem Postorder.ordered (h : Postorder lib reps ns new) (ho : Orderly lib)
    (hns : ∀ n ∈ ns, contains lib n = true) : Ordered lib reps ns new := by
  induction h with
  | nil => exact ⟨.nil, nofun, nofun⟩
  | @entered reps ns new n hn _ ih =>
    have ih := ih fun m hm => hns m (List.mem_cons_of_mem _ hm)
    refine ⟨ih.lowerable, ?_, ?_⟩
    · intro k hk
      obtain ⟨m, hm, hcone⟩ := ih.cone k hk
      exact ⟨m, List.mem_cons_of_mem _ hm, hcone⟩
    · intro m hm
      obtain rfl | hm := List.mem_cons.1 hm
      · exact hn.mono (List.subset_append_left _ _)
      · exact ih.entered m hm
  | @lowered reps ns ms new new' n hn hms _ _ ih ih' =>
    have hnc := hns n (List.mem_cons_self ..)
    have ih := ih fun m hm => ho.contains_of_operand hnc ⟨ms, hms, hm⟩
    have ih' := ih' fun m hm => hns m (List.mem_cons_of_mem _ hm)
    refine ⟨?_, ?_, ?_⟩
    · exact (ih.lowerable.append (ih.lowerable_next ho hnc hn hms)).append ih'.lowerable
    · intro k hk
      obtain hk | hk := List.mem_append.1 hk
      · refine ⟨n, List.mem_cons_self .., ?_⟩
        obtain hk | hk := List.mem_append.1 hk
        · obtain ⟨m, hm, hcone⟩ := ih.cone k hk
          exact hcone.head ⟨ms, hms, hm⟩
        · rw [List.mem_singleton.1 hk]
          exact .refl
      · obtain ⟨m, hm, hcone⟩ := ih'.cone k hk
        exact ⟨m, List.mem_cons_of_mem _ hm, hcone⟩
    · rw [← List.append_assoc]
      intro m hm
      obtain rfl | hm := List.mem_cons.1 hm
      · exact ⟨m, by simp, ho.same_refl hnc⟩
      · exact ih'.entered m hm

/-! ## Lowering the list -/

variable [Decider σ τ]

/-- What lowering the nodes `new` one after another comes to. -/
structure LoweredAll (reps new : List NodeId) (o o' : Oracle ε σ τ) : Prop where
  library    : o'.library = o.library
  catalogued : Catalogued (reps ++ new) o'
  misses     : o'.stats.misses = o.stats.misses + new.length

/-- One node after another gets an entry, unless the decider has a fault. -/
theorem Lowerable.yields_forM (h : Lowerable o.library reps new) (hc : Catalogued reps o) :
    Yields (OfDecider σ) (new.forM lower) o fun _ o' => LoweredAll reps new o o' := by
  induction new generalizing reps o with
  | nil =>
    refine Gives.yields (Gives.pure ⟨rfl, ?_, rfl⟩)
    rwa [List.append_nil]
  | cons n new ih =>
    cases h with
    | cons hn hnew hops hrest =>
      apply (hc.yields_appended hn hops).bind
      intro _ o₁ ha
      have hc₁ := hc.appended hn hnew hops ha
      rw [← ha.library] at hrest
      apply (ih hrest hc₁).mono
      intro _ o₂ hl
      refine ⟨hl.library.trans ha.library, ?_, ?_⟩
      · rw [List.append_cons]
        exact hl.catalogued
      · rw [hl.misses, ha.misses, List.length_cons]
        omega

omit [Decider σ τ] in
/-- Where the recursion is at its end, all its nodes were visited. -/
theorem Ordered.visited (h : Ordered o.library reps ns new) (hl : LoweredAll reps new o o') :
    Visited reps ns o new o' where
  library := hl.library
  catalogued := hl.catalogued
  cone := h.cone
  entered := h.entered

/-! ## Visiting is lowering the list -/

omit [Library ε] [Decider σ τ] in
theorem forM_append (ns ns' : List NodeId) (f : NodeId → OracleM ε σ τ Unit) :
    (ns ++ ns').forM f = (ns.forM f >>= fun _ => ns'.forM f) := by
  induction ns with
  | nil => rfl
  | cons n ns ih =>
    show (f n >>= fun _ => (ns ++ ns').forM f) = _
    rw [ih, ← bind_assoc]
    rfl

/-- A visit is the recursion: it lowers the nodes of the list and stops where lowering
    them stops. -/
theorem Visitable.forM_visit_eq (h : Visitable reps above ns depth o)
    (hp : Postorder o.library reps ns new) :
    ns.forM (visit depth) o = new.forM lower o := by
  generalize hlib : o.library = lib at hp
  induction hp generalizing above depth o with
  | nil => rfl
  | @entered reps ns new n hn _ ih =>
    subst hlib
    obtain ⟨i, hindex, _⟩ | ⟨_, hnew, _⟩ := h.head.cases
    · have htail := h.tail (.of_entered h.catalogued hn)
      rw [List.append_nil] at htail
      exact (bind_ok (visit_of_entered hindex)).trans (ih htail rfl)
    · exact absurd hn hnew
  | @lowered reps ns ms new new' n hn hms hops _ ih ih' =>
    subst hlib
    obtain ⟨i, _, hentered⟩ | ⟨hindex, _, hpos⟩ := h.head.cases
    · exact absurd hentered hn
    obtain ⟨depth, rfl⟩ : ∃ d, depth = d + 1 := ⟨depth - 1, by omega⟩
    -- The node itself: its operands by the induction hypothesis, then its own entry.
    have hhead : visit (depth + 1) n o = (new ++ [n]).forM lower o := by
      rw [forM_append]
      refine (visit_succ_of_new hindex hms).trans ?_
      apply bind_eq_of_eq (ih (h.head.operands hn hms) rfl)
      intro _ o₁ _
      cases hrun : lower n o₁ with
      | ok u o₂ => exact (bind_ok hrun).symm
      | error stop o₂ => exact (bind_error hrun).symm
    -- After it, the others may be visited.
    have hsingle : Postorder o.library reps [n] (new ++ [n]) := by
      have hp := Postorder.lowered hn hms hops .nil
      rwa [List.append_nil] at hp
    have hordered := hsingle.ordered h.catalogued.orderly h.head.held
    rw [forM_append (new ++ [n]) new']
    apply bind_eq_of_eq (k := fun _ => ns.forM (visit (depth + 1))) hhead
    intro _ o₁ hrun
    have hl := (hordered.lowerable.yields_forM h.catalogued).of_ok hrun
    exact ih' (h.tail (hordered.visited hl)) hl.library

/-- One formula, at any depth that suffices. -/
theorem Catalogued.visit_eq (h : Catalogued reps o) (hn : contains o.library n = true)
    (hdepth : bound o.library ≤ depth) (hp : Postorder o.library reps [n] new) :
    visit depth n o = new.forM lower o := by
  have hvisitable : Visitable reps [] [n] depth o :=
    { h.visitable hn with deep := hdepth }
  refine Eq.trans ?_ (hvisitable.forM_visit_eq hp)
  cases hrun : visit depth n o with
  | ok u o₁ => exact (bind_ok hrun).symm
  | error stop o₁ => exact (bind_error hrun).symm

/-- Working off a formula, with any budget that suffices. -/
theorem Catalogued.workOff_eq (h : Catalogued reps o) (hn : contains o.library n = true)
    {budget : Nat} (hbudget : bound o.library ≤ budget) (hp : Postorder o.library reps [n] new) :
    workOff budget [⟨n, false⟩] o = new.forM lower o := by
  rw [← h.visit_eq hn (Nat.le_refl _) hp]
  exact (replays_visit (h.visitable hn) (by omega)).workOff_eq

/-! ## Building -/

/-- The nodes `new` are those that building a formula has to lower. -/
structure Missing (n : NodeId) (o : Oracle ε σ τ) (new : List NodeId) : Prop where
  cone   : ∀ k ∈ new, Cone o.library n k
  absent : ∀ k ∈ new, indexOf? k o = .ok none o
  /-- Every structure in the cone that has no entry stands in the list exactly once. -/
  once   : ∀ m, Cone o.library n m → indexOf? m o = .ok none o →
    ∃! i : Fin new.length, Same o.library new[i] m

omit [Decider σ τ] in
theorem Ordered.missing (h : Ordered o.library reps [n] new) (hc : Catalogued reps o)
    (hn : contains o.library n = true) : Missing n o new := by
  have ho := hc.orderly
  have hclosed := h.lowerable.closed hc.closed_reps
  have hheld : ∀ k ∈ new, contains o.library k = true :=
    fun k hk => (hclosed k (List.mem_append_right _ hk)).1
  refine ⟨?_, ?_, ?_⟩
  · intro k hk
    obtain ⟨m, hm, hcone⟩ := h.cone k hk
    rwa [List.mem_singleton.1 hm] at hcone
  · intro k hk
    exact hc.indexOf?_eq_none (hheld k hk) (h.lowerable.not_entered k hk)
  · intro m hm hnone
    have hmc := ho.contains_of_cone hn hm
    have hnew := (indexOf?_eq_none_iff_of_files ho.classified hc.index hc.distinct hmc).1 hnone
    -- The whole cone has entries in the end, and `m` has none before.
    have hentered := hclosed.entered_of_cone ho hn (h.entered n (List.mem_singleton.2 rfl)) hm
    obtain ⟨k, hk, hs⟩ := hentered
    have hk : k ∈ new := by
      obtain hk | hk := List.mem_append.1 hk
      · exact absurd ⟨k, hk, hs⟩ hnew
      · exact hk
    obtain ⟨i, hi, rfl⟩ := List.mem_iff_getElem.1 hk
    refine ⟨⟨i, hi⟩, hs, ?_⟩
    intro ⟨j, hj⟩ hjs
    have hik := hheld _ (List.getElem_mem hi)
    have hjk := hheld _ (List.getElem_mem hj)
    have hij : Same o.library new[i] new[j] :=
      ho.same_trans hik hmc hjk hs (ho.same_symm hjk hmc hjs)
    have hji : Same o.library new[j] new[i] := ho.same_symm hik hjk hij
    have hdistinct := List.pairwise_iff_getElem.1 h.lowerable.distinct
    apply Fin.ext
    show j = i
    by_contra hne
    obtain hlt | hlt := Nat.lt_or_gt_of_ne hne
    · exact hdistinct j i hj hi hlt hji
    · exact hdistinct i j hi hj hlt hij

/-- How building a formula ends, where the nodes `new` are to be lowered. -/
inductive Concludes (n : NodeId) (new : List NodeId) (o : Oracle ε σ τ) : Prop where
  /-- The formula has an entry, and nothing is lowered. -/
  | reused (i : Nat) : indexOf? n o = .ok (some i) o → new = [] →
      build n o = .ok i { o with
        stats := { o.stats with hits := o.stats.hits + 1 }
        journal := o.journal.push (.reused n i) } → Concludes n new o
  /-- The nodes are lowered, each with an entry of its own, and then the formula has one. -/
  | lowered (i : Nat) (o' : Oracle ε σ τ) : indexOf? n o = .ok none o →
      new.forM lower o = .ok () o' → build n o = .ok i o' → indexOf? n o' = .ok (some i) o' →
        o'.entries.size = o.entries.size + new.length →
          o'.stats.misses = o.stats.misses + new.length → Concludes n new o
  /-- The decider stops the work. -/
  | stopped (fault : Fault) (o' : Oracle ε σ τ) : indexOf? n o = .ok none o →
      new.forM lower o = .error (.fault fault) o' → build n o = .error (.fault fault) o' →
        Decider.Raises σ fault → Concludes n new o

theorem Catalogued.concludes (h : Catalogued reps o) (hn : contains o.library n = true)
    (hp : Postorder o.library reps [n] new) : Concludes n new o := by
  have hordered := hp.ordered h.orderly (h.visitable hn).held
  by_cases hentered : Entered o.library reps n
  · obtain ⟨i, k, hi, hs⟩ := hentered.exists_position
    have hindex := h.indexOf?_eq hn hi hs
    have hnil : new = [] := by
      cases hp with
      | entered _ hnil =>
        cases hnil
        rfl
      | lowered hnew _ _ _ => exact absurd hentered hnew
    exact .reused i hindex hnil (build_of_entered hn hindex)
  · have hindex := h.indexOf?_eq_none hn hentered
    have hbuild := build_of_new hn hindex
    have hwork := h.workOff_eq hn (Nat.le_refl _) hp
    obtain ⟨_, o₁, hrun, hl⟩ | ⟨stop, o₁, hrun, fault, rfl, hraises⟩ :=
      (hordered.lowerable.yields_forM h).cases
    · -- The formula is found now, so that the second look-up does not fail.
      have hv := hordered.visited hl
      obtain ⟨i, k, hi, hs⟩ := (hv.entered n (List.mem_singleton.2 rfl)).exists_position
      have hindex₁ : indexOf? n o₁ = .ok (some i) o₁ :=
        hl.catalogued.indexOf?_eq (hl.library ▸ hn) hi (hl.library ▸ hs)
      refine .lowered i o₁ hindex hrun ?_ hindex₁ ?_ hl.misses
      · rw [hbuild, bind_ok (hwork.trans hrun), bind_ok hindex₁]
        rfl
      · rw [hl.catalogued.size, h.size, List.length_append]
    · refine .stopped fault o₁ hindex hrun ?_ hraises
      rw [hbuild, bind_error (hwork.trans hrun)]

/-- **Building is the recursion.** Whatever was asked before of an oracle over a library that
    keeps its contract, a formula of the library comes with a list `new` of nodes such that

    - the list holds nodes of its cone that have no entries, and exactly one node for each
      structure in the cone that has none;
    - working off the formula ends, with any budget from the bound of the library on, and does
      what visiting it by recursion does, at any depth from there on: both lower the nodes of
      the list, one after another, and come to the same oracle or stop together;
    - building ends as the list says: every node of it gets an entry, and the formula is found
      in the end, unless the decider has a fault.  No other stop is possible. -/
theorem build_recursive {s : σ} {settings : Settings} {watched : Bool} {setup : List Event}
    {built : List (NodeId × Nat)} (ho : Orderly lib)
    (hr : Course (start lib s settings watched setup) o built)
    (hn : contains o.library n = true) :
    ∃ new : List NodeId, Missing n o new ∧
      (∀ budget depth, bound o.library ≤ budget → bound o.library ≤ depth →
        workOff budget [⟨n, false⟩] o = visit depth n o ∧
          visit depth n o = new.forM lower o) ∧
      Concludes n new o := by
  obtain ⟨reps, hshared, _⟩ := hr.shared (shared_start ho settings watched setup)
  have hc := hshared.catalogued
  obtain ⟨new, hp⟩ := exists_postorder hc.orderly hn reps
  have hordered := hp.ordered hc.orderly (hc.visitable hn).held
  refine ⟨new, hordered.missing hc hn, ?_, hc.concludes hn hp⟩
  intro budget depth hbudget hdepth
  have hvisit := hc.visit_eq hn hdepth hp
  exact ⟨(hc.workOff_eq hn hbudget hp).trans hvisit.symm, hvisit⟩

/-- In a library in which all nodes have one key, the negation of a variable is built in two
    steps, and the oracle with its two entries is the one that the recursion leaves. -/
theorem build_recursive_colliding :
    let o : Oracle Tree Encoder Literal := start colliding Encoder.start {} false []
    contains colliding ⟨3⟩ = true ∧ workOff 4 [⟨⟨3⟩, false⟩] o = visit 7 ⟨3⟩ o ∧
      ∃ new : List NodeId, visit 7 ⟨3⟩ o = new.forM lower o ∧ new.length = 2 := by
  intro o
  have hcourse : Course (start colliding Encoder.start {} false []) o [] := .nil
  obtain ⟨new, _, hwork, hend⟩ := build_recursive orderly_colliding hcourse (n := ⟨3⟩) rfl
  have hvisit := hwork 4 7 (by decide) (by decide)
  have hbuild : build ⟨3⟩ o = .ok 1 (after (build ⟨3⟩) o) := ok_of_run' (by decide +kernel)
  have hmisses : (after (build ⟨3⟩) o).stats.misses = 2 := by decide +kernel
  refine ⟨rfl, hvisit.1, new, hvisit.2, ?_⟩
  cases hend with
  | reused i hindex =>
    have hnone : indexOf? ⟨3⟩ o = .ok none o := rfl
    rw [hnone] at hindex
    cases hindex
  | lowered i o' _ _ hbuild' _ _ hlength =>
    rw [hbuild] at hbuild'
    cases hbuild'
    rw [hmisses] at hlength
    exact (Nat.zero_add _).symm.trans hlength.symm
  | stopped fault o' _ _ hbuild' =>
    rw [hbuild] at hbuild'
    cases hbuild'

end Oracle

end SatMemo
