import SatMemo.Proofs.Oracle.Catalogue
import SatMemo.Proofs.Oracle.Replaying

/-! # Building is a recursion

    `visit` lowers a formula by recursion: if it has an entry nothing is done,
    else its operands are visited from left to right and then the node itself is
    lowered.  Over an orderly library this comes to an end (`yields_visit`), and
    the list of nodes that building works off runs through the same oracles
    (`replays_visit`), whatever the decider does.

    The nodes whose operands are being visited are kept in a list `above`.  They
    have no entries, and each is above all that is visited next, so that no node
    of theirs is lowered meanwhile.  With the entries they make nodes of different
    structures, of which there are no more than the bound of the library: this is
    why neither the depth nor the budget runs out. -/

namespace SatMemo

namespace Oracle

open Library (contains bound Same Operand Below Cone Orderly)

variable {ε σ τ : Type} [Library ε] [Decider σ τ] {o o' : Oracle ε σ τ}
  {reps above ms : List NodeId} {n : NodeId} {depth b : Nat}

/-! ## The recursion -/

/-- Give a formula an entry, at most `depth` levels down. -/
def visit : (depth : Nat) → NodeId → OracleM ε σ τ Unit
  | 0, n         => do
      unless (← indexOf? n).isSome do
        throw (.fault .endlessDescent)
  | depth + 1, n => do
      unless (← indexOf? n).isSome do
        let children ← ask fun lib => Library.children lib n
        children.forM (visit depth)
        lower n

theorem visit_of_entered {i : Nat} (h : indexOf? n o = .ok (some i) o) :
    visit depth n o = .ok () o := by
  cases depth <;> exact bind_ok h

theorem visit_succ_of_new (h : indexOf? n o = .ok none o)
    (hms : Library.children o.library n = .ok ms) :
    visit (depth + 1) n o = (ms.forM (visit depth) >>= fun _ => lower n) o :=
  (bind_ok h).trans (bind_ok (ask_eq hms))

/-! ## Nodes above -/

/-- The nodes in `above` are being visited: they have no entries yet. -/
structure Above (o : Oracle ε σ τ) (reps above : List NodeId) : Prop where
  held     : ∀ a ∈ above, contains o.library a = true
  distinct : above.Pairwise fun m n => ¬ Same o.library m n
  waiting  : ∀ a ∈ above, ¬ Entered o.library reps a

omit [Decider σ τ] in
theorem above_nil (o : Oracle ε σ τ) (reps : List NodeId) : Above o reps [] :=
  ⟨nofun, .nil, nofun⟩

omit [Decider σ τ] in
/-- They and the nodes with entries are no more than the library can hold. -/
theorem Above.length_le (ha : Above o reps above) (h : Catalogued reps o) :
    reps.length + above.length ≤ bound o.library := by
  have hdistinct : (reps ++ above).Pairwise fun m n => ¬ Same o.library m n := by
    rw [List.pairwise_append]
    refine ⟨h.distinct, ha.distinct, ?_⟩
    intro k hk a hmem hs
    exact ha.waiting a hmem ⟨k, hk, hs⟩
  have hheld : ∀ m ∈ reps ++ above, contains o.library m = true := by
    intro m hm
    obtain hm | hm := List.mem_append.1 hm
    · exact h.held hm
    · exact ha.held m hm
  have hlength := h.orderly.length_le_bound hdistinct hheld
  rwa [List.length_append] at hlength

omit [Decider σ τ] in
/-- A node below all of them that has no entry may join them. -/
theorem Above.cons (ha : Above o reps above) (h : Catalogued reps o)
    (hn : contains o.library n = true) (hnew : ¬ Entered o.library reps n)
    (hbelow : ∀ a ∈ above, Below o.library a n) : Above o reps (n :: above) where
  held := by
    intro a hmem
    obtain rfl | hmem := List.mem_cons.1 hmem
    · exact hn
    · exact ha.held a hmem
  distinct := by
    refine List.pairwise_cons.2 ⟨?_, ha.distinct⟩
    intro a hmem hs
    have hac := ha.held a hmem
    exact h.orderly.not_same_of_below hac (hbelow a hmem) (h.orderly.same_symm hn hac hs)
  waiting := by
    intro a hmem
    obtain rfl | hmem := List.mem_cons.1 hmem
    · exact hnew
    · exact ha.waiting a hmem

omit [Decider σ τ] in
/-- They still have no entries when nodes below them get some. -/
theorem Above.later (ha : Above o reps above) (ho : Orderly o.library)
    (hlib : o'.library = o.library) {new : List NodeId}
    (hnew : ∀ k ∈ new, ∀ a ∈ above, Below o.library a k) : Above o' (reps ++ new) above where
  held := fun a hmem => hlib ▸ ha.held a hmem
  distinct := hlib ▸ ha.distinct
  waiting := by
    rw [hlib]
    intro a hmem ⟨k, hk, hs⟩
    have hac := ha.held a hmem
    obtain hk | hk := List.mem_append.1 hk
    · exact ha.waiting a hmem ⟨k, hk, hs⟩
    · have hbelow := hnew k hk a hmem
      have hkc := ho.contains_of_below hac hbelow
      exact ho.not_same_of_below hac hbelow (ho.same_symm hkc hac hs)

/-! ## The recursion comes to an end -/

/-- What a visit of the nodes `ns` comes to: the nodes `new`, all from their cones, have
    entries now, and so have `ns`. -/
structure Visited (reps ns : List NodeId) (o : Oracle ε σ τ) (new : List NodeId)
    (o' : Oracle ε σ τ) : Prop where
  library    : o'.library = o.library
  catalogued : Catalogued (reps ++ new) o'
  cone       : ∀ k ∈ new, ∃ n ∈ ns, Cone o.library n k
  entered    : ∀ n ∈ ns, Entered o.library (reps ++ new) n

/-- Where a visit may start: all that is visited is below the nodes in `above`, and the depth
    suffices for as long a path as there can be below them. -/
structure Visitable (reps above ns : List NodeId) (depth : Nat) (o : Oracle ε σ τ) : Prop where
  catalogued : Catalogued reps o
  held       : ∀ n ∈ ns, contains o.library n = true
  chain      : Above o reps above
  below      : ∀ n ∈ ns, ∀ a ∈ above, Below o.library a n
  deep       : bound o.library ≤ depth + above.length

section Visitable

omit [Decider σ τ]

/-- Any node may be visited with none above it. -/
theorem Catalogued.visitable (h : Catalogued reps o) (hn : contains o.library n = true) :
    Visitable reps [] [n] (bound o.library) o where
  catalogued := h
  held := by
    intro m hm
    rw [List.mem_singleton.1 hm]
    exact hn
  chain := above_nil o reps
  below := nofun
  deep := Nat.le_refl _

/-- The nodes that a visit gives entries are below all that the visit is below. -/
theorem Visitable.below_new {new : List NodeId} (h : Visitable reps above ms depth o)
    (hv : Visited reps ms o new o') : ∀ k ∈ new, ∀ a ∈ above, Below o.library a k := by
  intro k hk a ha
  obtain ⟨m, hm, hcone⟩ := hv.cone k hk
  exact (h.below m hm a ha).trans_left hcone

theorem Visitable.head (h : Visitable reps above (n :: ms) depth o) :
    Visitable reps above [n] depth o where
  catalogued := h.catalogued
  held := fun m hm => h.held m (List.mem_singleton.1 hm ▸ List.mem_cons_self ..)
  chain := h.chain
  below := fun m hm => h.below m (List.mem_singleton.1 hm ▸ List.mem_cons_self ..)
  deep := h.deep

/-- The other nodes may be visited after the first. -/
theorem Visitable.tail {new : List NodeId} (h : Visitable reps above (n :: ms) depth o)
    (hv : Visited reps [n] o new o') : Visitable (reps ++ new) above ms depth o' where
  catalogued := hv.catalogued
  held := fun m hm => hv.library ▸ h.held m (List.mem_cons_of_mem _ hm)
  chain := h.chain.later h.catalogued.orderly hv.library (h.head.below_new hv)
  below := fun m hm => hv.library ▸ h.below m (List.mem_cons_of_mem _ hm)
  deep := hv.library ▸ h.deep

/-- The operands of a node without an entry may be visited below it. -/
theorem Visitable.operands (h : Visitable reps above [n] (depth + 1) o)
    (hnew : ¬ Entered o.library reps n) (hms : Library.children o.library n = .ok ms) :
    Visitable reps (n :: above) ms depth o := by
  have hn := h.held n (List.mem_singleton.2 rfl)
  have hbelow := h.below n (List.mem_singleton.2 rfl)
  exact {
    catalogued := h.catalogued
    held       := fun m hm => h.catalogued.orderly.contains_of_operand hn ⟨ms, hms, hm⟩
    chain      := h.chain.cons h.catalogued hn hnew hbelow
    below      := by
      intro m hm a ha
      have hop : Below o.library n m := .single ⟨ms, hms, hm⟩
      obtain rfl | ha := List.mem_cons.1 ha
      · exact hop
      · exact (hbelow a ha).trans hop
    deep       := by
      have := h.deep
      rw [List.length_cons]
      omega }

/-- Something is left to visit only if the depth is not used up. -/
theorem Visitable.depth_pos (h : Visitable reps above [n] depth o)
    (hnew : ¬ Entered o.library reps n) : 0 < depth := by
  have hn := h.held n (List.mem_singleton.2 rfl)
  have hbelow := h.below n (List.mem_singleton.2 rfl)
  have hlength := (h.chain.cons h.catalogued hn hnew hbelow).length_le h.catalogued
  have hdeep := h.deep
  rw [List.length_cons] at hlength
  omega

/-- The node has an entry, or it has none and the depth is not used up. -/
theorem Visitable.cases (h : Visitable reps above [n] depth o) :
    (∃ i, indexOf? n o = .ok (some i) o ∧ Entered o.library reps n) ∨
      (indexOf? n o = .ok none o ∧ ¬ Entered o.library reps n ∧ 0 < depth) := by
  have hn := h.held n (List.mem_singleton.2 rfl)
  by_cases hentered : Entered o.library reps n
  · obtain ⟨i, k, hi, hs⟩ := hentered.exists_position
    exact .inl ⟨i, h.catalogued.indexOf?_eq hn hi hs, hentered⟩
  · exact .inr ⟨h.catalogued.indexOf?_eq_none hn hentered, hentered, h.depth_pos hentered⟩

theorem Visited.nil (h : Catalogued reps o) : Visited reps [] o [] o where
  library := rfl
  catalogued := by rwa [List.append_nil]
  cone := nofun
  entered := nofun

theorem Visited.of_entered (h : Catalogued reps o) (hn : Entered o.library reps n) :
    Visited reps [n] o [] o where
  library := rfl
  catalogued := by rwa [List.append_nil]
  cone := nofun
  entered := by
    intro m hm
    rw [List.mem_singleton.1 hm, List.append_nil]
    exact hn

/-- One visit after another. -/
theorem Visited.cons {o₁ : Oracle ε σ τ} {new new' : List NodeId}
    (h : Visited reps [n] o new o₁) (h' : Visited (reps ++ new) ms o₁ new' o') :
    Visited reps (n :: ms) o (new ++ new') o' where
  library := h'.library.trans h.library
  catalogued := by
    rw [← List.append_assoc]
    exact h'.catalogued
  cone := by
    intro k hk
    obtain hk | hk := List.mem_append.1 hk
    · obtain ⟨m, hm, hcone⟩ := h.cone k hk
      rw [List.mem_singleton.1 hm] at hcone
      exact ⟨n, List.mem_cons_self .., hcone⟩
    · obtain ⟨m, hm, hcone⟩ := h'.cone k hk
      exact ⟨m, List.mem_cons_of_mem _ hm, h.library ▸ hcone⟩
  entered := by
    rw [← List.append_assoc]
    intro m hm
    obtain rfl | hm := List.mem_cons.1 hm
    · exact (h.entered m (List.mem_singleton.2 rfl)).mono (List.subset_append_left _ _)
    · exact h.library ▸ h'.entered m hm

/-- The node itself after its operands. -/
theorem Visited.lowered {o₁ : Oracle ε σ τ} {new : List NodeId}
    (h : Visited reps ms o new o₁) (ho : Orderly o.library) (hn : contains o.library n = true)
    (hms : Library.children o.library n = .ok ms) (hc : Catalogued (reps ++ new ++ [n]) o')
    (hlib : o'.library = o₁.library) : Visited reps [n] o (new ++ [n]) o' where
  library := hlib.trans h.library
  catalogued := by
    rw [← List.append_assoc]
    exact hc
  cone := by
    intro k hk
    refine ⟨n, List.mem_singleton.2 rfl, ?_⟩
    obtain hk | hk := List.mem_append.1 hk
    · obtain ⟨m, hm, hcone⟩ := h.cone k hk
      exact hcone.head ⟨ms, hms, hm⟩
    · rw [List.mem_singleton.1 hk]
      exact .refl
  entered := by
    intro m hm
    rw [List.mem_singleton.1 hm]
    exact ⟨n, by simp, ho.same_refl hn⟩

/-- After its operands were visited, a node still has no entry, and they all have one. -/
theorem Visitable.ready {o₁ : Oracle ε σ τ} {new : List NodeId}
    (h : Visitable reps above [n] (depth + 1) o) (hnew : ¬ Entered o.library reps n)
    (hms : Library.children o.library n = .ok ms) (hv : Visited reps ms o new o₁) :
    contains o₁.library n = true ∧ ¬ Entered o₁.library (reps ++ new) n ∧
      ∀ m, Operand o₁.library n m → Entered o₁.library (reps ++ new) m := by
  have hops := h.operands hnew hms
  have habove := hops.chain.later h.catalogued.orderly hv.library (hops.below_new hv)
  refine ⟨habove.held n (List.mem_cons_self ..), habove.waiting n (List.mem_cons_self ..), ?_⟩
  intro m hop
  rw [hv.library] at hop ⊢
  obtain ⟨ms', hms', hm⟩ := hop
  rw [hms] at hms'
  cases hms'
  exact hv.entered m hm

end Visitable

theorem yields_visitAll (h : Visitable reps above ms depth o)
    (hvisit : ∀ {reps : List NodeId} {o : Oracle ε σ τ} {n : NodeId},
      Visitable reps above [n] depth o →
        Yields (OfDecider σ) (visit depth n) o fun _ o' => ∃ new, Visited reps [n] o new o') :
    Yields (OfDecider σ) (ms.forM (visit depth)) o fun _ o' =>
      ∃ new, Visited reps ms o new o' := by
  induction ms generalizing reps o with
  | nil => exact Gives.yields (Gives.pure ⟨[], .nil h.catalogued⟩)
  | cons m ms ih =>
    refine (hvisit h.head).bind ?_
    intro _ o₁ ⟨new, hv⟩
    refine (ih (h.tail hv)).mono ?_
    intro _ o₂ ⟨new', hv'⟩
    exact ⟨new ++ new', hv.cons hv'⟩

/-- A visit gives a node an entry, unless the decider has a fault. -/
theorem yields_visit (h : Visitable reps above [n] depth o) :
    Yields (OfDecider σ) (visit depth n) o fun _ o' => ∃ new, Visited reps [n] o new o' := by
  -- By induction on the depth, which a visit of the operands has one less of.
  induction depth generalizing reps above n o with
  | zero =>
    obtain ⟨i, hindex, hentered⟩ | ⟨_, _, hpos⟩ := h.cases
    · exact Gives.yields ⟨(), o, visit_of_entered hindex, [], .of_entered h.catalogued hentered⟩
    · exact absurd hpos (Nat.lt_irrefl 0)
  | succ depth ih =>
    obtain ⟨i, hindex, hentered⟩ | ⟨hindex, hnew, _⟩ := h.cases
    · exact Gives.yields ⟨(), o, visit_of_entered hindex, [], .of_entered h.catalogued hentered⟩
    · have hn := h.held n (List.mem_singleton.2 rfl)
      have ho := h.catalogued.orderly
      obtain ⟨_, ms, _, hms, _, _⟩ := ho.node hn
      refine Ends.congr ?_ (visit_succ_of_new hindex hms)
      refine (yields_visitAll (h.operands hnew hms) ih).bind ?_
      intro _ o₁ ⟨new, hv⟩
      obtain ⟨hn₁, hnew₁, hops₁⟩ := h.ready hnew hms hv
      refine (hv.catalogued.yields_lower hn₁ hnew₁ hops₁).mono ?_
      intro _ o₂ ⟨hc, hlib⟩
      exact ⟨new ++ [n], hv.lowered ho hn hms hc hlib⟩

/-! ## Working off is visiting -/

section Replaying

open Classical

omit [Decider σ τ] in
theorem Catalogued.known (h : Catalogued reps o) (hms : ∀ m ∈ ms, contains o.library m = true) :
    Known (Entered o.library reps) ms o := by
  intro m hm
  refine ⟨hms m hm, ?_, h.indexOf?_eq_none (hms m hm)⟩
  intro hentered
  obtain ⟨i, k, hi, hs⟩ := hentered.exists_position
  exact ⟨i, h.indexOf?_eq (hms m hm) hi hs⟩

/-- The operands of a node, of which those that had entries when it was opened were left
    out. -/
theorem replays_visitAll {reps₀ : List NodeId} (h : Visitable reps above ms depth o)
    (hsub : reps₀ ⊆ reps) (hb : bound o.library ≤ b + reps.length + above.length)
    (hvisit : ∀ {b : Nat} {reps : List NodeId} {o : Oracle ε σ τ} {n : NodeId},
      Visitable reps above [n] depth o → bound o.library ≤ b + reps.length + above.length →
        Replays b [⟨n, false⟩] (visit depth n) o) :
    Replays b (unopened (Entered o.library reps₀) ms) (ms.forM (visit depth)) o := by
  let lib := o.library
  let I (b : Nat) (ms : List NodeId) (o : Oracle ε σ τ) : Prop :=
    ∃ reps, o.library = lib ∧ Visitable reps above ms depth o ∧ reps₀ ⊆ reps ∧
      bound o.library ≤ b + reps.length + above.length
  have hI : I b ms o := ⟨reps, rfl, h, hsub, hb⟩
  refine replays_forM (I := I) ?_ ?_ ?_ hI
  · intro b m ms o ⟨reps, hlib, h, hsub, _⟩ hentered
    obtain ⟨i, hindex, _⟩ | ⟨_, hnew, _⟩ := h.head.cases
    · exact visit_of_entered hindex
    · exact absurd (hlib ▸ hentered.mono hsub) hnew
  · intro b m ms o ⟨reps, _, h, _, hb⟩
    exact hvisit h.head hb
  · intro b b' m ms o o' ⟨reps, hlib, h, hsub, hb⟩ hrun hsize
    obtain ⟨new, hv⟩ := (yields_visit h.head).of_ok hrun
    refine ⟨reps ++ new, hv.library.trans hlib, h.tail hv,
      List.subset_append_of_subset_left _ hsub, ?_⟩
    rw [h.catalogued.size, hv.catalogued.size] at hsize
    rw [hv.library]
    omega

/-- The budget suffices because every node above has taken one of it, and every entry. -/
theorem replays_visit (h : Visitable reps above [n] depth o)
    (hb : bound o.library ≤ b + reps.length + above.length) :
    Replays b [⟨n, false⟩] (visit depth n) o := by
  induction depth generalizing b reps above n o with
  | zero =>
    obtain ⟨i, hindex, _⟩ | ⟨_, _, hpos⟩ := h.cases
    · exact replays_of_entered hindex (visit_of_entered hindex)
    · exact absurd hpos (Nat.lt_irrefl 0)
  | succ depth ih =>
    obtain ⟨i, hindex, _⟩ | ⟨hindex, hnew, _⟩ := h.cases
    · exact replays_of_entered hindex (visit_of_entered hindex)
    · have hn := h.held n (List.mem_singleton.2 rfl)
      obtain ⟨kind, ms, hkind, hms, haccepts, hheld⟩ := h.catalogued.orderly.node hn
      have hops := h.operands hnew hms
      have hlength := hops.chain.length_le h.catalogued
      rw [List.length_cons] at hlength
      obtain ⟨b, rfl⟩ : ∃ b', b = b' + 1 := ⟨b - 1, by omega⟩
      have hb' : bound o.library ≤ b + reps.length + (n :: above).length := by
        rw [List.length_cons]
        omega
      have hopen := openNode_eq hkind hms haccepts (h.catalogued.known hheld)
      refine (replays_open hindex hopen (countP_unopened ms n) ?_).congr
        (visit_succ_of_new hindex hms)
      apply (replays_visitAll hops (List.Subset.refl _) hb' ih).bind
      intro b₁ o₁ hrun _
      obtain ⟨new, hv⟩ := (yields_visitAll hops yields_visit).of_ok hrun
      obtain ⟨hn₁, hnew₁, hops₁⟩ := h.ready hnew hms hv
      apply replays_lower (hv.catalogued.indexOf?_eq_none hn₁ hnew₁)
      intro o₂ hlower
      obtain ⟨hc, _⟩ := (hv.catalogued.yields_lower hn₁ hnew₁ hops₁).of_ok hlower
      rw [hc.size, hv.catalogued.size, List.length_append]
      rfl

end Replaying

/-- Working off a node, within the bound of the library, is visiting it. -/
theorem Catalogued.workOff_eq_visit (h : Catalogued reps o)
    (hn : contains o.library n = true) :
    workOff (bound o.library) [⟨n, false⟩] o = visit (bound o.library) n o :=
  (replays_visit (h.visitable hn) (Nat.le_add_right _ _)).workOff_eq

/-! ## Building -/

/-- What building a formula comes to: the nodes `new` of its cone have entries now, and entry
    `i` is the one of its structure. -/
structure Built (reps : List NodeId) (n : NodeId) (o : Oracle ε σ τ) (i : Nat)
    (new : List NodeId) (o' : Oracle ε σ τ) : Prop where
  library    : o'.library = o.library
  catalogued : Catalogued (reps ++ new) o'
  cone       : ∀ k ∈ new, Cone o.library n k
  named      : ∃ k, (reps ++ new)[i]? = some k ∧ Same o.library k n

/-- A formula of the library is built, unless the decider has a fault. -/
theorem Catalogued.yields_build (h : Catalogued reps o) (hn : contains o.library n = true) :
    Yields (OfDecider σ) (build n) o fun i o' => ∃ new, Built reps n o i new o' := by
  by_cases hentered : Entered o.library reps n
  · obtain ⟨i, k, hi, hs⟩ := hentered.exists_position
    refine Gives.yields ⟨i, _, build_of_entered hn (h.indexOf?_eq hn hi hs), [], ?_⟩
    exact {
      library    := rfl
      catalogued := by
        rw [List.append_nil]
        exact h.of_library_eq ⟨rfl, rfl⟩ rfl
      cone       := nofun
      named      := ⟨k, by rwa [List.append_nil], hs⟩ }
  · refine Ends.congr ?_ (build_of_new hn (h.indexOf?_eq_none hn hentered))
    have hwork := (yields_visit (h.visitable hn)).congr (h.workOff_eq_visit hn)
    apply Yields.bind hwork
    intro _ o₁ ⟨new, hv⟩
    have hn₁ : contains o₁.library n = true := hv.library ▸ hn
    obtain ⟨i, k, hi, hs⟩ := (hv.entered n (List.mem_singleton.2 rfl)).exists_position
    have hindex := hv.catalogued.indexOf?_eq hn₁ hi (hv.library ▸ hs)
    refine Yields.step hindex (Gives.yields (Gives.pure ⟨new, ?_⟩))
    exact {
      library    := hv.library
      catalogued := hv.catalogued
      cone       := by
        intro m hm
        obtain ⟨n', hn', hcone⟩ := hv.cone m hm
        rwa [List.mem_singleton.1 hn'] at hcone
      named      := ⟨k, hi, hs⟩ }

end Oracle

end SatMemo
