import SatMemo.Proofs.Oracle.Faithful

/-! # Building comes to an end

    The list of nodes still to be lowered is arranged: a node that was opened is
    numbered after every node before it, and its operands are among those or have
    entries.  So it can be lowered when its turn comes, and it is not opened
    again.

    Nodes that have entries and nodes that were opened are therefore different,
    and there are fewer of them than the bound of the library says.  The budget
    for opening nodes never runs out before the list does. -/

namespace SatMemo

namespace Oracle

open Library (term? contains value Right Lawful bound)

variable {ε σ τ : Type} [Library ε] [Lawful ε] [Decider σ τ] {s₀ : σ}
  {v : Nat} {o o' : Oracle ε σ τ} {lib : ε} {reps reps' before before' : List NodeId}
  {pending rest : List Pending} {m n : NodeId}

/-! ## Arranged lists -/

/-- A node that was opened: it has no entry yet, comes after all those before it, and its
    operands have entries or are among those. -/
structure Opened (lib : ε) (reps before : List NodeId) (n : NodeId) : Prop where
  new     : n ∉ reps
  after   : ∀ m ∈ before, m.raw < n.raw
  operand : ∀ {t}, term? lib n = some t → ∀ m ∈ t.children, m ∈ reps ∨ m ∈ before

/-- The nodes of a list are there, and opened ones stand where they may, where the nodes
    `before` come before the list. -/
def Arranged (lib : ε) (reps : List NodeId) : (before : List NodeId) → List Pending → Prop
  | _, []                      => True
  | before, ⟨n, opened⟩ :: rest =>
      contains lib n = true ∧ (opened = true → Opened lib reps before n) ∧
        Arranged lib reps (n :: before) rest

section Arranged

omit [Lawful ε]

/-- Nodes before the list that get entries may be forgotten. -/
theorem Arranged.settle (h : Arranged lib reps before rest) (hreps : ∀ m ∈ reps, m ∈ reps')
    (hreps' : ∀ m ∈ reps', m ∈ reps ∨ m ∈ before) (hbefore : ∀ m ∈ before', m ∈ before)
    (hcover : ∀ m ∈ before, m ∈ before' ∨ m ∈ reps') : Arranged lib reps' before' rest := by
  induction rest generalizing before before' with
  | nil => exact trivial
  | cons p rest ih =>
    obtain ⟨n, opened⟩ := p
    obtain ⟨hn, hopened, hrest⟩ := h
    refine ⟨hn, fun ho => ?_, ?_⟩
    · have ho := hopened ho
      refine ⟨?_, fun m hm => ho.after m (hbefore m hm), ?_⟩
      · intro hmem
        -- An opened node comes after everything before it, so it is not among that.
        rcases hreps' n hmem with hmem | hmem
        · exact ho.new hmem
        · exact absurd (ho.after n hmem) (Nat.lt_irrefl _)
      · intro t ht m hm
        rcases ho.operand ht m hm with hm | hm
        · exact .inl (hreps m hm)
        · exact (hcover m hm).symm
    · apply ih hrest
      · intro m hm
        exact (hreps' m hm).imp_right (List.mem_cons_of_mem _)
      · intro m hm
        rcases List.mem_cons.1 hm with rfl | hm
        · exact List.mem_cons_self ..
        · exact List.mem_cons_of_mem _ (hbefore m hm)
      · intro m hm
        rcases List.mem_cons.1 hm with rfl | hm
        · exact .inl (List.mem_cons_self ..)
        · exact (hcover m hm).imp_left (List.mem_cons_of_mem _)

/-- Nodes may come before the list that are numbered before nodes that do. -/
theorem Arranged.widen (h : Arranged lib reps before rest) (hbefore : ∀ m ∈ before, m ∈ before')
    (hraw : ∀ m ∈ before', ∃ k ∈ before, m.raw ≤ k.raw) : Arranged lib reps before' rest := by
  induction rest generalizing before before' with
  | nil => exact trivial
  | cons p rest ih =>
    obtain ⟨n, opened⟩ := p
    obtain ⟨hn, hopened, hrest⟩ := h
    refine ⟨hn, fun ho => ?_, ?_⟩
    · have ho := hopened ho
      refine ⟨ho.new, ?_, ?_⟩
      · intro m hm
        obtain ⟨k, hk, hle⟩ := hraw m hm
        exact Nat.lt_of_le_of_lt hle (ho.after k hk)
      · intro t ht m hm
        exact (ho.operand ht m hm).imp_right (hbefore m)
    · apply ih hrest
      · intro m hm
        rcases List.mem_cons.1 hm with rfl | hm
        · exact List.mem_cons_self ..
        · exact List.mem_cons_of_mem _ (hbefore m hm)
      · intro m hm
        rcases List.mem_cons.1 hm with rfl | hm
        · exact ⟨m, List.mem_cons_self .., Nat.le_refl _⟩
        · obtain ⟨k, hk, hle⟩ := hraw m hm
          exact ⟨k, List.mem_cons_of_mem _ hk, hle⟩

/-- Unopened nodes in front of a list. -/
theorem arranged_append {ns : List NodeId} (hns : ∀ n ∈ ns, contains lib n = true)
    (h : Arranged lib reps (ns.reverse ++ before) rest) :
    Arranged lib reps before (ns.map (fun n => ⟨n, false⟩) ++ rest) := by
  induction ns generalizing before with
  | nil => exact h
  | cons n ns ih =>
    have hrest : ∀ m ∈ ns, contains lib m = true := fun m hm => hns m (List.mem_cons_of_mem _ hm)
    rw [List.reverse_cons, List.append_assoc] at h
    exact ⟨hns n (List.mem_cons_self ..), nofun, ih hrest h⟩

end Arranged

/-! ## Counting -/

/-- The nodes of a list that were opened. -/
def openedNodes (pending : List Pending) : List NodeId :=
  (pending.filter Pending.opened).map Pending.node

omit [Lawful ε] in
/-- They are different from each other and from those that have entries. -/
theorem Arranged.nodup (h : Arranged lib reps before rest) :
    (openedNodes rest).Nodup ∧ ∀ n ∈ openedNodes rest,
      n ∉ reps ∧ contains lib n = true ∧ ∀ m ∈ before, m.raw < n.raw := by
  induction rest generalizing before with
  | nil => exact ⟨List.nodup_nil, nofun⟩
  | cons p rest ih =>
    obtain ⟨n, opened⟩ := p
    obtain ⟨hn, hopened, hrest⟩ := h
    obtain ⟨hnodup, hall⟩ := ih hrest
    have hlater : ∀ k ∈ openedNodes rest,
        k ∉ reps ∧ contains lib k = true ∧ ∀ m ∈ before, m.raw < k.raw := by
      intro k hk
      obtain ⟨hnew, hheld, hraw⟩ := hall k hk
      exact ⟨hnew, hheld, fun m hm => hraw m (List.mem_cons_of_mem _ hm)⟩
    cases opened with
    | false => exact ⟨hnodup, hlater⟩
    | true =>
      have ho := hopened rfl
      show (n :: openedNodes rest).Nodup ∧ ∀ k ∈ n :: openedNodes rest, _
      refine ⟨List.nodup_cons.2 ⟨fun hmem => ?_, hnodup⟩, ?_⟩
      · exact absurd ((hall n hmem).2.2 n (List.mem_cons_self ..)) (Nat.lt_irrefl _)
      · intro k hk
        rcases List.mem_cons.1 hk with rfl | hk
        · exact ⟨ho.new, hn, ho.after⟩
        · exact hlater k hk

/-- Different nodes of a library are fewer than its bound. -/
theorem length_le_bound (h : Lawful.Wf lib) {ns : List NodeId} (hnodup : ns.Nodup)
    (hns : ∀ n ∈ ns, contains lib n = true) : ns.length ≤ bound lib := by
  -- Nodes are told apart by their numbers, which are below the bound.
  have hraws : (ns.map NodeId.raw).Nodup := by
    refine List.pairwise_map.2 (hnodup.imp ?_)
    intro m n hmn hraw
    exact hmn (NodeId.eq_of_raw_eq hraw)
  have hsub : ns.map NodeId.raw ⊆ List.range (bound lib) := by
    intro raw hraw
    obtain ⟨n, hn, rfl⟩ := List.mem_map.1 hraw
    exact List.mem_range.2 ((Lawful.founded h).lt_bound (hns n hn))
  have hlength := hraws.length_le_of_subset hsub
  rwa [List.length_map, List.length_range] at hlength

/-- Something is left to open only if the bound is not reached. -/
theorem Faithful.length_lt (h : Faithful s₀ v reps o) (hn : contains o.library n = true)
    (hnew : n ∉ reps) (hrest : Arranged o.library reps [n] rest) :
    reps.length + (openedNodes rest).length < bound o.library := by
  obtain ⟨hnodup, hopened⟩ := hrest.nodup
  have hdistinct : (n :: (reps ++ openedNodes rest)).Nodup := by
    rw [List.nodup_cons, List.mem_append, not_or, List.nodup_append]
    refine ⟨⟨hnew, fun hmem => ?_⟩, h.distinct, hnodup, ?_⟩
    · exact absurd ((hopened n hmem).2.2 n (List.mem_cons_self ..)) (Nat.lt_irrefl _)
    · rintro m hm k hk rfl
      exact (hopened m hk).1 hm
  have hheld : ∀ m ∈ n :: (reps ++ openedNodes rest), contains o.library m = true := by
    intro m hm
    rcases List.mem_cons.1 hm with rfl | hm
    · exact hn
    · rcases List.mem_append.1 hm with hm | hm
      · exact h.held hm
      · exact (hopened m hm).2.1
  have hlength := length_le_bound h.wf hdistinct hheld
  rw [List.length_cons, List.length_append] at hlength
  exact hlength

/-! ## Working off the list -/

/-- What working off the front of a list comes to: the rest of the list, behind a node that
    has to be opened. -/
structure WorkedOff (lib : ε) (reps : List NodeId) (pending : List Pending)
    (next? : Option (NodeId × List Pending)) (reps' : List NodeId) : Prop where
  earlier : reps <+: reps'
  done    : next? = none → ∀ p ∈ pending, p.node ∈ reps'
  next    : ∀ {n rest}, next? = some (n, rest) →
    n ∉ reps' ∧ Arranged lib reps' [] (⟨n, false⟩ :: rest) ∧
      reps'.length + (openedNodes rest).length = reps.length + (openedNodes pending).length ∧
      ∀ p ∈ pending, p.node ∈ reps' ∨ p ∈ (⟨n, false⟩ : Pending) :: rest

omit [Lawful ε] in
/-- A node in front that has an entry now. -/
theorem WorkedOff.cons {reps₁ : List NodeId} {next? : Option (NodeId × List Pending)}
    {p : Pending} (h : WorkedOff lib reps₁ rest next? reps') (hreps : reps <+: reps₁)
    (hp : p.node ∈ reps₁)
    (hcount : reps₁.length + (openedNodes rest).length
      = reps.length + (openedNodes (p :: rest)).length) :
    WorkedOff lib reps (p :: rest) next? reps' where
  earlier := hreps.trans h.earlier
  done := by
    intro hnone q hq
    rcases List.mem_cons.1 hq with rfl | hq
    · exact h.earlier.subset hp
    · exact h.done hnone q hq
  next := by
    intro n rest' hsome
    obtain ⟨hnew, harranged, hlength, hcover⟩ := h.next hsome
    refine ⟨hnew, harranged, hlength.trans hcount, ?_⟩
    intro q hq
    rcases List.mem_cons.1 hq with rfl | hq
    · exact .inl (h.earlier.subset hp)
    · exact hcover q hq

variable (hexact : Decider.Exact s₀)
include hexact

theorem Faithful.gives_settle (h : Faithful s₀ v reps o)
    (harranged : Arranged o.library reps [] pending) :
    Gives (settle pending) o fun next? o' => o'.library = o.library ∧
      ∃ reps', Faithful s₀ v reps' o' ∧ WorkedOff o.library reps pending next? reps' := by
  induction pending generalizing o reps with
  | nil => exact Gives.pure ⟨rfl, reps, h, List.prefix_refl _, nofun, nofun⟩
  | cons p rest ih =>
    obtain ⟨n, opened⟩ := p
    obtain ⟨hn, hopened, hrest⟩ := harranged
    unfold settle
    by_cases hmem : n ∈ reps
    · -- The node has an entry, so it was not opened, and it is left alone.
      have hunopened : opened = false := by
        cases opened with
        | false => rfl
        | true => exact absurd hmem (hopened rfl).new
      subst hunopened
      obtain ⟨i, hi⟩ := List.mem_iff_getElem?.1 hmem
      have hforget : Arranged o.library reps [] rest := by
        refine hrest.settle (fun _ hm => hm) (fun _ hm => .inl hm) nofun ?_
        intro m hm
        rw [List.mem_singleton.1 hm]
        exact .inr hmem
      refine Gives.step (h.indexOf?_eq hi) ((ih h hforget).mono ?_)
      rintro next? o' ⟨hlibrary, reps', hfaithful, hworked⟩
      exact ⟨hlibrary, reps', hfaithful, hworked.cons (List.prefix_refl _) hmem rfl⟩
    · refine Gives.step (h.indexOf?_eq_none hn hmem) ?_
      cases opened with
      | false =>
        refine Gives.pure ⟨rfl, reps, h, List.prefix_refl _, nofun, ?_⟩
        rintro _ _ ⟨⟩
        exact ⟨hmem, ⟨hn, nofun, hrest⟩, rfl, fun p hp => .inr hp⟩
      | true =>
        -- The operands come from before the node, and before it is nothing.
        have hops : ∀ {term}, term? o.library n = some term → ∀ m ∈ term.children, m ∈ reps :=
          fun hterm m hm => ((hopened rfl).operand hterm m hm).resolve_right nofun
        refine (h.gives_lower hexact hn hmem hops).bind ?_
        rintro _ o₁ ⟨hfaithful₁, hlibrary₁⟩
        have hforget : Arranged o₁.library (reps ++ [n]) [] rest := by
          rw [hlibrary₁]
          refine hrest.settle (fun _ hm => List.mem_append_left _ hm) ?_ nofun ?_
          · intro m hm
            exact List.mem_append.1 hm
          · intro m hm
            exact .inr (List.mem_append_right _ hm)
        refine (ih hfaithful₁ hforget).mono ?_
        rintro next? o' ⟨hlibrary, reps', hfaithful, hworked⟩
        rw [hlibrary₁] at hlibrary hworked
        refine ⟨hlibrary, reps', hfaithful, hworked.cons (List.prefix_append _ _) ?_ ?_⟩
        · exact List.mem_append_right _ (List.mem_singleton.2 rfl)
        · show (reps ++ [n]).length + _ = reps.length + (n :: openedNodes rest).length
          simp only [List.length_append, List.length_cons, List.length_nil]
          omega

/-! ## Opening a node -/

omit [Lawful ε] [Decider σ τ] hexact in
theorem openedNodes_append (ns : List NodeId) (rest : List Pending) :
    openedNodes (ns.map (fun n => ⟨n, false⟩) ++ rest) = openedNodes rest := by
  induction ns with
  | nil => rfl
  | cons n ns ih => exact ih

omit hexact in
/-- Operands without entries are put in front, in order. -/
theorem Faithful.gives_pushOperands (h : Faithful s₀ v reps o) {ns : List NodeId}
    (hns : ∀ n ∈ ns, contains o.library n = true) (pending : List Pending) :
    Gives (pushOperands ns pending) o fun pending' o' => o' = o ∧
      pending' = (ns.reverse.filter fun n => n ∉ reps).map (fun n => ⟨n, false⟩) ++ pending := by
  induction ns generalizing pending with
  | nil => exact Gives.pure ⟨rfl, rfl⟩
  | cons n ns ih =>
    have hn : contains o.library n = true := hns n (List.mem_cons_self ..)
    have hrest := fun m hm => hns m (List.mem_cons_of_mem _ hm)
    have hholds : holds n o = .ok true o := by
      show EStateM.Result.ok (contains o.library n) o = _
      rw [hn]
    unfold pushOperands
    refine Gives.step hholds ?_
    rw [List.reverse_cons, List.filter_append, List.map_append, List.append_assoc]
    by_cases hmem : n ∈ reps
    · obtain ⟨i, hi⟩ := List.mem_iff_getElem?.1 hmem
      refine Gives.step (h.indexOf?_eq hi) ((ih hrest pending).mono ?_)
      rintro pending' o' ⟨ho, hpending'⟩
      refine ⟨ho, ?_⟩
      rw [hpending', List.filter_cons_of_neg (by simpa using hmem)]
      rfl
    · refine Gives.step (h.indexOf?_eq_none hn hmem) ((ih hrest _).mono ?_)
      rintro pending' o' ⟨ho, hpending'⟩
      refine ⟨ho, ?_⟩
      rw [hpending', List.filter_cons_of_pos (by simpa using hmem)]
      rfl

omit hexact in
/-- Opening a node in front of a list puts arranged nodes in its place. -/
theorem Faithful.gives_openNode (h : Faithful s₀ v reps o) (hn : contains o.library n = true)
    (hnew : n ∉ reps) (hrest : Arranged o.library reps [n] rest) :
    Gives (openNode n) o fun opened o' => o' = o ∧
      Arranged o.library reps [] (opened ++ rest) ∧
      (openedNodes (opened ++ rest)).length = (openedNodes rest).length + 1 ∧
      (⟨n, true⟩ : Pending) ∈ opened := by
  have hfounded := Lawful.founded h.wf
  obtain ⟨t, ht⟩ := hfounded.exists_term hn
  have hops : ∀ m ∈ t.children, m.raw < n.raw ∧ contains o.library m = true :=
    fun m hm => hfounded.operand ht hm
  unfold openNode
  refine Gives.step (ask_eq (Library.kind_of_term? ht)) ?_
  refine Gives.step (ask_eq (Library.children_of_term? ht)) ?_
  refine Gives.guard (Library.accepts_of_term? ht) ?_
  have hheld : ∀ m ∈ t.children.reverse, contains o.library m = true :=
    fun m hm => (hops m (List.mem_reverse.1 hm)).2
  refine (h.gives_pushOperands hheld _).mono ?_
  rintro opened o' ⟨ho, rfl⟩
  rw [List.reverse_reverse]
  let ns : List NodeId := t.children.filter fun m => m ∉ reps
  have hns : ∀ m ∈ ns, m ∈ t.children := fun m hm => (List.mem_filter.1 hm).1
  refine ⟨ho, ?_, ?_, List.mem_append_right _ (List.mem_singleton.2 rfl)⟩
  · rw [List.append_assoc]
    apply arranged_append (fun m hm => (hops m (hns m hm)).2)
    rw [List.append_nil]
    refine ⟨hn, fun _ => ⟨hnew, ?_, ?_⟩, ?_⟩
    · intro m hm
      exact (hops m (hns m (List.mem_reverse.1 hm))).1
    · intro t' ht' m hm
      obtain rfl : t = t' := Option.some.inj (ht.symm.trans ht')
      by_cases hmem : m ∈ reps
      · exact .inl hmem
      · exact .inr (List.mem_reverse.2 (List.mem_filter.2 ⟨hm, decide_eq_true hmem⟩))
    · -- The operands are numbered before the node, which was there already.
      refine hrest.widen ?_ ?_
      · intro m hm
        rw [List.mem_singleton.1 hm]
        exact List.mem_cons_self ..
      · intro m hm
        refine ⟨n, List.mem_singleton.2 rfl, ?_⟩
        rcases List.mem_cons.1 hm with rfl | hm
        · exact Nat.le_refl _
        · exact Nat.le_of_lt (hops m (hns m (List.mem_reverse.1 hm))).1
  · rw [List.append_assoc, openedNodes_append]
    rfl

/-! ## Building -/

/-- The budget lasts until the whole list is worked off. -/
theorem Faithful.gives_workOff (h : Faithful s₀ v reps o)
    (harranged : Arranged o.library reps [] pending) {budget : Nat}
    (hbudget : bound o.library ≤ budget + (reps.length + (openedNodes pending).length)) :
    Gives (workOff budget pending) o fun _ o' => o'.library = o.library ∧
      ∃ reps', Faithful s₀ v reps' o' ∧ reps <+: reps' ∧ ∀ p ∈ pending, p.node ∈ reps' := by
  -- By induction on the budget, one unit of which is spent on each node opened.
  induction budget generalizing o reps pending with
  | zero =>
    unfold workOff
    refine (h.gives_settle hexact harranged).bind ?_
    rintro next? o₁ ⟨hlibrary, reps', hfaithful, hworked⟩
    cases next? with
    | none => exact Gives.pure ⟨hlibrary, reps', hfaithful, hworked.earlier, hworked.done rfl⟩
    | some next =>
      -- Nothing can be left to open.
      obtain ⟨n, rest⟩ := next
      obtain ⟨hnew, ⟨hn, -, hrest⟩, hlength, -⟩ := hworked.next rfl
      rw [← hlibrary] at hn hrest
      have hlt := hfaithful.length_lt hn hnew hrest
      rw [hlibrary] at hlt
      omega
  | succ budget ih =>
    unfold workOff
    refine (h.gives_settle hexact harranged).bind ?_
    rintro next? o₁ ⟨hlibrary, reps', hfaithful, hworked⟩
    cases next? with
    | none => exact Gives.pure ⟨hlibrary, reps', hfaithful, hworked.earlier, hworked.done rfl⟩
    | some next =>
      obtain ⟨n, rest⟩ := next
      obtain ⟨hnew, ⟨hn, -, hrest⟩, hlength, hcover⟩ := hworked.next rfl
      rw [← hlibrary] at hn hrest
      refine (hfaithful.gives_openNode hn hnew hrest).bind ?_
      rintro opened o₂ ⟨rfl, harranged', hcount, hmem⟩
      have hbudget' : bound o₂.library
          ≤ budget + (reps'.length + (openedNodes (opened ++ rest)).length) := by
        rw [hlibrary]
        omega
      refine (ih hfaithful harranged' hbudget').mono ?_
      rintro _ o' ⟨hlibrary', reps'', hfaithful', hprefix, hdone⟩
      refine ⟨hlibrary'.trans hlibrary, reps'', hfaithful', hworked.earlier.trans hprefix, ?_⟩
      intro p hp
      rcases hcover p hp with hp | hp
      · exact hprefix.subset hp
      · rcases List.mem_cons.1 hp with rfl | hp
        · exact hdone ⟨n, true⟩ (List.mem_append_left _ hmem)
        · exact hdone p (List.mem_append_right _ hp)

/-- Building a node gives it an entry. -/
theorem Faithful.gives_build (h : Faithful s₀ v reps o) (hn : contains o.library n = true) :
    Gives (build n) o fun i o' => o'.library = o.library ∧
      ∃ reps', Faithful s₀ v reps' o' ∧ reps <+: reps' ∧ reps'[i]? = some n := by
  have hholds : holds n o = .ok true o := by
    show EStateM.Result.ok (contains o.library n) o = _
    rw [hn]
  unfold build
  refine Gives.step hholds ?_
  by_cases hmem : n ∈ reps
  · -- The node has an entry, and only counts and reports change.
    obtain ⟨i, hi⟩ := List.mem_iff_getElem?.1 hmem
    refine Gives.step (h.indexOf?_eq hi) ?_
    refine Gives.step rfl (Gives.step rfl (Gives.pure ⟨rfl, reps, ?_, List.prefix_refl _, hi⟩))
    refine h.larger ?_ ?_
    · exact ⟨h.wf, .refl _, rfl, rfl, rfl, rfl⟩
    · exact h.varCount
  · refine Gives.step (h.indexOf?_eq_none hn hmem) ?_
    refine Gives.step rfl ?_
    have harranged : Arranged o.library reps [] [⟨n, false⟩] := ⟨hn, nofun, trivial⟩
    refine (h.gives_workOff hexact harranged (Nat.le_add_right _ _)).bind ?_
    rintro _ o₁ ⟨hlibrary, reps', hfaithful, hprefix, hdone⟩
    obtain ⟨i, hi⟩ := List.mem_iff_getElem?.1 (hdone _ (List.mem_singleton.2 rfl))
    refine Gives.step (hfaithful.indexOf?_eq hi) ?_
    exact Gives.pure ⟨hlibrary, reps', hfaithful, hprefix, hi⟩

end Oracle

end SatMemo
