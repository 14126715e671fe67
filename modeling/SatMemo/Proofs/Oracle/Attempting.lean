import SatMemo.Proofs.Oracle.Vetted

/-! # Building may stop halfway

    `attempt` lowers a formula by recursion, like building does with its list of
    nodes (`replays_attempt`), over a library where nodes need not be sane.  A
    node is opened, which may fail, its operands are attempted from left to right,
    and then the node itself is lowered.

    `attempt_ends` says what an attempt comes to.  Either all that was asked for has
    entries, or the attempt met a flaw in the cone of a node asked for; or else the
    decider has a fault.  In the second case the entries made meanwhile stay, and
    another attempt, which passes over them, meets the same flaw at once. -/

namespace SatMemo

namespace Oracle

open Library (contains bound Operand Cone HeldBelow HeldCone Openable Blocked Flaw)

variable {ε σ τ : Type} [Library ε] [Decider σ τ] {o o' : Oracle ε σ τ}
  {reps above ms : List NodeId} {n : NodeId} {e : Error}
  {depth b : Nat}

/-! ## The recursion -/

/-- Give a formula an entry, at most `depth` levels down. -/
def attempt : (depth : Nat) → NodeId → OracleM ε σ τ Unit
  | 0, n         => do
      unless (← indexOf? n).isSome do
        throw (.fault .endlessDescent)
  | depth + 1, n => do
      unless (← indexOf? n).isSome do
        let _ ← openNode n
        let children ← ask fun lib => Library.children lib n
        children.forM (attempt depth)
        lower n

theorem attempt_of_entered {i : Nat} (h : indexOf? n o = .ok (some i) o) :
    attempt depth n o = .ok () o := by
  cases depth <;> exact bind_ok h

theorem attempt_succ_of_opened {opened : List Pending} (h : indexOf? n o = .ok none o)
    (hopen : openNode n o = .ok opened o) (hms : Library.children o.library n = .ok ms) :
    attempt (depth + 1) n o = (ms.forM (attempt depth) >>= fun _ => lower n) o :=
  (bind_ok h).trans ((bind_ok hopen).trans (bind_ok (ask_eq hms)))

theorem attempt_succ_of_error {stop : Stop} (h : indexOf? n o = .ok none o)
    (hopen : openNode n o = .error stop o) : attempt (depth + 1) n o = .error stop o :=
  (bind_ok h).trans (bind_error hopen)

/-! ## Opening -/

section Opening

omit [Decider σ τ]

theorem Vetted.openNode_eq (h : Vetted reps o) (hn : Openable o.library n ms) :
    openNode n o = .ok (unopened (· ∈ reps) ms ++ [⟨n, true⟩]) o := by
  obtain ⟨⟨_, kind, ms', hkind, hms', haccepts⟩, hms, hheld⟩ := hn
  rw [hms] at hms'
  cases hms'
  exact Oracle.openNode_eq hkind hms haccepts (h.known hheld)

theorem Vetted.openNode_eq_error (h : Vetted reps o) (hn : Blocked o.library n e) :
    openNode n o = .error (.error e) o :=
  Oracle.openNode_eq_error hn fun _ hm => h.exists_indexOf? hm

end Opening

/-! ## Where an attempt may start -/

/-- All that is attempted is below the nodes in `above`, which are being attempted and have no
    entries yet, and the depth suffices for as long a path as there can be below them. -/
structure Attemptable (reps above ns : List NodeId) (depth : Nat) (o : Oracle ε σ τ) : Prop where
  vetted   : Vetted reps o
  held     : ∀ n ∈ ns, contains o.library n = true
  path     : ∀ a ∈ above, contains o.library a = true
  distinct : (reps ++ above).Nodup
  below    : ∀ n ∈ ns, ∀ a ∈ above, HeldBelow o.library a n
  deep     : bound o.library ≤ depth + above.length

/-- The nodes `new` got entries, all of them from the cones of `ns`. -/
structure Advanced (reps ns : List NodeId) (o : Oracle ε σ τ) (new : List NodeId)
    (o' : Oracle ε σ τ) : Prop where
  library : o'.library = o.library
  vetted  : Vetted (reps ++ new) o'
  kept    : ∀ (i : Nat) (e : Entry τ), o.entries[i]? = some e → o'.entries[i]? = some e
  misses  : o'.stats.misses = o.stats.misses + new.length
  cone    : ∀ k ∈ new, ∃ n ∈ ns, HeldCone o.library n k

section Attemptable

omit [Decider σ τ]

/-- Any node may be attempted with none above it. -/
theorem Vetted.attemptable (h : Vetted reps o) (hn : contains o.library n = true) :
    Attemptable reps [] [n] (bound o.library) o where
  vetted := h
  held := by
    intro m hm
    rw [List.mem_singleton.1 hm]
    exact hn
  path := nofun
  distinct := by
    rw [List.append_nil]
    exact h.distinct
  below := nofun
  deep := Nat.le_refl _

theorem Attemptable.head (h : Attemptable reps above (n :: ms) depth o) :
    Attemptable reps above [n] depth o where
  vetted := h.vetted
  held := fun m hm => h.held m (List.mem_singleton.1 hm ▸ List.mem_cons_self ..)
  path := h.path
  distinct := h.distinct
  below := fun m hm => h.below m (List.mem_singleton.1 hm ▸ List.mem_cons_self ..)
  deep := h.deep

/-- No node above gets an entry meanwhile. -/
theorem Attemptable.distinct_later {new : List NodeId} (h : Attemptable reps above ms depth o)
    (ha : Advanced reps ms o new o') : (reps ++ new ++ above).Nodup := by
  obtain ⟨_, hnodup, hreps⟩ := List.nodup_append.1 h.distinct
  refine List.nodup_append.2 ⟨ha.vetted.distinct, hnodup, ?_⟩
  intro k hk a hmem heq
  obtain hk | hk := List.mem_append.1 hk
  · exact hreps k hk a hmem heq
  · obtain ⟨m, hm, hcone⟩ := ha.cone k hk
    have hbelow : HeldBelow o.library a k := (h.below m hm a hmem).trans_left hcone
    exact h.vetted.discrete.acyclic (h.path a hmem) (heq ▸ hbelow)

/-- The other nodes may be attempted after the first. -/
theorem Attemptable.tail {new : List NodeId} (h : Attemptable reps above (n :: ms) depth o)
    (ha : Advanced reps [n] o new o') : Attemptable (reps ++ new) above ms depth o' where
  vetted := ha.vetted
  held := fun m hm => ha.library ▸ h.held m (List.mem_cons_of_mem _ hm)
  path := fun a hmem => ha.library ▸ h.path a hmem
  distinct := h.head.distinct_later ha
  below := fun m hm => ha.library ▸ h.below m (List.mem_cons_of_mem _ hm)
  deep := ha.library ▸ h.deep

/-- A node without an entry is none of those above it. -/
theorem Attemptable.distinct_cons (h : Attemptable reps above [n] depth o) (hnew : n ∉ reps) :
    (reps ++ n :: above).Nodup := by
  have habove : n ∉ above := by
    intro hmem
    have hbelow := h.below n (List.mem_singleton.2 rfl) n hmem
    exact h.vetted.discrete.acyclic (h.path n hmem) hbelow
  rw [List.nodup_middle]
  refine List.nodup_cons.2 ⟨?_, h.distinct⟩
  rw [List.mem_append]
  exact not_or.2 ⟨hnew, habove⟩

/-- With the nodes above it and those with entries, it is one of those that the library can
    hold. -/
theorem Attemptable.length_lt (h : Attemptable reps above [n] depth o) (hnew : n ∉ reps) :
    reps.length + above.length < bound o.library := by
  have hheld : ∀ m ∈ reps ++ n :: above, contains o.library m = true := by
    intro m hm
    obtain hm | hm := List.mem_append.1 hm
    · exact h.vetted.held hm
    · obtain rfl | hm := List.mem_cons.1 hm
      · exact h.held m (List.mem_singleton.2 rfl)
      · exact h.path m hm
  have hlength := h.vetted.discrete.length_le_bound (h.distinct_cons hnew) hheld
  rw [List.length_append, List.length_cons] at hlength
  omega

/-- The operands of a node without an entry may be attempted below it. -/
theorem Attemptable.operands (h : Attemptable reps above [n] (depth + 1) o) (hnew : n ∉ reps)
    (hn : Openable o.library n ms) : Attemptable reps (n :: above) ms depth o where
  vetted := h.vetted
  held := hn.held
  path := by
    intro a ha
    obtain rfl | ha := List.mem_cons.1 ha
    · exact h.held a (List.mem_singleton.2 rfl)
    · exact h.path a ha
  distinct := h.distinct_cons hnew
  below := by
    intro m hm a ha
    have hop : HeldBelow o.library n m := .single ⟨⟨ms, hn.children, hm⟩, hn.held m hm⟩
    obtain rfl | ha := List.mem_cons.1 ha
    · exact hop
    · exact (h.below n (List.mem_singleton.2 rfl) a ha).trans hop
  deep := by
    have := h.deep
    rw [List.length_cons]
    omega

/-- After its operands were attempted, the node still has no entry. -/
theorem Attemptable.not_mem_later {new : List NodeId}
    (h : Attemptable reps above [n] (depth + 1) o) (hnew : n ∉ reps)
    (hn : Openable o.library n ms) (ha : Advanced reps ms o new o') : n ∉ reps ++ new := by
  have hdistinct := (h.operands hnew hn).distinct_later ha
  intro hmem
  exact (List.nodup_append.1 hdistinct).2.2 n hmem n (List.mem_cons_self ..) rfl

/-- The node has an entry, or it has none and the depth is not used up. -/
theorem Attemptable.cases (h : Attemptable reps above [n] depth o) :
    (∃ i, indexOf? n o = .ok (some i) o ∧ n ∈ reps) ∨
      (indexOf? n o = .ok none o ∧ n ∉ reps ∧ 0 < depth) := by
  have hn := h.held n (List.mem_singleton.2 rfl)
  by_cases hmem : n ∈ reps
  · obtain ⟨i, _, hi, _⟩ := h.vetted.found hmem
    exact .inl ⟨i, hi, hmem⟩
  · have hlength := h.length_lt hmem
    have hdeep := h.deep
    exact .inr ⟨h.vetted.indexOf?_eq_none hn hmem, hmem, by omega⟩

end Attemptable

/-! ## How an attempt ends -/

section Advanced

omit [Decider σ τ]

theorem Advanced.nil (h : Vetted reps o) (ns : List NodeId) : Advanced reps ns o [] o where
  library := rfl
  vetted := by rwa [List.append_nil]
  kept := fun _ _ he => he
  misses := rfl
  cone := nofun

/-- One attempt after another. -/
theorem Advanced.cons {o₁ : Oracle ε σ τ} {new new' : List NodeId}
    (h : Advanced reps [n] o new o₁) (h' : Advanced (reps ++ new) ms o₁ new' o') :
    Advanced reps (n :: ms) o (new ++ new') o' where
  library := h'.library.trans h.library
  vetted := by
    rw [← List.append_assoc]
    exact h'.vetted
  kept := fun i e he => h'.kept i e (h.kept i e he)
  misses := by
    rw [h'.misses, h.misses, List.length_append]
    omega
  cone := by
    intro k hk
    obtain hk | hk := List.mem_append.1 hk
    · obtain ⟨m, hm, hcone⟩ := h.cone k hk
      rw [List.mem_singleton.1 hm] at hcone
      exact ⟨n, List.mem_cons_self .., hcone⟩
    · obtain ⟨m, hm, hcone⟩ := h'.cone k hk
      exact ⟨m, List.mem_cons_of_mem _ hm, h.library ▸ hcone⟩

/-- What was done for some nodes was done for others that have them in their cones. -/
theorem Advanced.of_cones {ms' new : List NodeId} (h : Advanced reps ms o new o')
    (hms : ∀ m ∈ ms, ∃ n ∈ ms', HeldCone o.library n m) : Advanced reps ms' o new o' where
  library := h.library
  vetted := h.vetted
  kept := h.kept
  misses := h.misses
  cone := by
    intro k hk
    obtain ⟨m, hm, hcone⟩ := h.cone k hk
    obtain ⟨n, hn, hcone'⟩ := hms m hm
    exact ⟨n, hn, hcone'.trans hcone⟩

theorem Advanced.of_operands {new : List NodeId} (h : Advanced reps ms o new o')
    (hn : Openable o.library n ms) : Advanced reps [n] o new o' :=
  h.of_cones fun m hm =>
    ⟨n, List.mem_singleton.2 rfl, .single ⟨⟨ms, hn.children, hm⟩, hn.held m hm⟩⟩

/-- The node itself after its operands. -/
theorem Advanced.lowered {o₁ : Oracle ε σ τ} {new : List NodeId}
    (h : Advanced reps [n] o new o₁) (hv : Vetted (reps ++ new ++ [n]) o')
    (ha : Appended n o₁ o') : Advanced reps [n] o (new ++ [n]) o' where
  library := ha.library.trans h.library
  vetted := by
    rw [← List.append_assoc]
    exact hv
  kept := fun i e he => ha.getElem?_of_getElem? (h.kept i e he)
  misses := by
    rw [ha.misses, h.misses, List.length_append]
    rfl
  cone := by
    intro k hk
    obtain hk | hk := List.mem_append.1 hk
    · exact h.cone k hk
    · exact ⟨n, List.mem_singleton.2 rfl, List.mem_singleton.1 hk ▸ .refl⟩

end Advanced

/-- Wherever the library is `lib` and the nodes `reps` have entries, `p` stops with `e` and
    changes nothing. -/
def Refuses {α : Type} (p : OracleM ε σ τ α) (lib : ε) (reps : List NodeId) (e : Error) : Prop :=
  ∀ ⦃reps' : List NodeId⦄ ⦃o : Oracle ε σ τ⦄, Vetted reps' o → o.library = lib → reps ⊆ reps' →
    p o = .error (.error e) o

/-- What an attempt `p` for the nodes `ns` comes to. -/
def Outcome {α : Type} (reps ns : List NodeId) (p : OracleM ε σ τ α) (o : Oracle ε σ τ) :
    Except Stop α → Oracle ε σ τ → Prop
  | .ok _, o' => ∃ new, Advanced reps ns o new o' ∧ ns ⊆ reps ++ new
  | .error (.error e), o' => ∃ new, Advanced reps ns o new o' ∧
      (∃ n ∈ ns, ∃ m, Cone o.library n m ∧ Flaw o.library m e) ∧
      Refuses p o.library (reps ++ new) e
  | .error (.fault fault), _ => Decider.Raises σ fault

theorem attempt_ends_of_entered {i : Nat} (h : Vetted reps o) (hi : indexOf? n o = .ok (some i) o)
    (hn : n ∈ reps) : Ends (attempt depth n) o (Outcome reps [n] (attempt depth n) o) := by
  unfold Ends
  rw [attempt_of_entered hi]
  refine ⟨[], .nil h _, ?_⟩
  rw [List.append_nil]
  exact List.cons_subset.2 ⟨hn, List.nil_subset _⟩

/-- The nodes are attempted from left to right. -/
theorem attemptAll_ends (h : Attemptable reps above ms depth o)
    (hattempt : ∀ {reps : List NodeId} {o : Oracle ε σ τ} {n : NodeId},
      Attemptable reps above [n] depth o →
        Ends (attempt depth n) o (Outcome reps [n] (attempt depth n) o)) :
    Ends (ms.forM (attempt depth)) o (Outcome reps ms (ms.forM (attempt depth)) o) := by
  induction ms generalizing reps o with
  | nil => exact ⟨[], .nil h.vetted [], List.nil_subset _⟩
  | cons m ms ih =>
    apply (hattempt h.head).bind
    · intro _ o₁ ⟨new, ha, hsub⟩
      apply (ih (h.tail ha)).mono
      intro r o₂ hr
      have hlib := ha.library
      match r, hr with
      | .ok _, ⟨new', ha', hsub'⟩ =>
        refine ⟨new ++ new', ha.cons ha', List.cons_subset.2 ⟨?_, ?_⟩⟩
        · rw [← List.append_assoc]
          exact List.mem_append_left _ (hsub (List.mem_singleton.2 rfl))
        · rw [← List.append_assoc]
          exact hsub'
      | .error (.error e), ⟨new', ha', ⟨k, hk, j, hcone, hflaw⟩, hagain⟩ =>
        refine ⟨new ++ new', ha.cons ha',
          ⟨k, List.mem_cons_of_mem _ hk, j, hlib ▸ hcone, hlib ▸ hflaw⟩, ?_⟩
        intro reps' o₃ hv hlib₃ hsub₃
        rw [← List.append_assoc] at hsub₃
        -- The first node has an entry now, and is passed over.
        obtain ⟨i, _, hi, _⟩ :=
          hv.found (hsub₃ (List.mem_append_left new' (hsub (List.mem_singleton.2 rfl))))
        exact (bind_ok (attempt_of_entered hi)).trans (hagain hv (hlib₃.trans hlib.symm) hsub₃)
      | .error (.fault _), hraises => exact hraises
    · intro stop o₁ hr
      match stop, hr with
      | .error e, ⟨new, ha, ⟨k, hk, j, hcone, hflaw⟩, hagain⟩ =>
        have hfirst {k : NodeId} (hk : k ∈ [m]) : k ∈ m :: ms :=
          List.mem_singleton.1 hk ▸ List.mem_cons_self ..
        exact ⟨new, ha.of_cones fun k hk => ⟨k, hfirst hk, .refl⟩,
          ⟨k, hfirst hk, j, hcone, hflaw⟩, fun _ _ hv hlib hsub => bind_error (hagain hv hlib hsub)⟩
      | .fault _, hraises => exact hraises

/-- A node that can be opened is lowered after its operands. -/
theorem attempt_succ_ends (h : Attemptable reps above [n] (depth + 1) o) (hnew : n ∉ reps)
    (hn : Openable o.library n ms)
    (hall : Ends (ms.forM (attempt depth)) o (Outcome reps ms (ms.forM (attempt depth)) o)) :
    Ends (attempt (depth + 1) n) o (Outcome reps [n] (attempt (depth + 1) n) o) := by
  have hindex := h.vetted.indexOf?_eq_none hn.sane.1 hnew
  have hopen := h.vetted.openNode_eq hn
  refine Ends.congr ?_ (attempt_succ_of_opened hindex hopen hn.children)
  apply hall.bind
  · intro _ o₁ ⟨new, ha, hsub⟩
    have hnew₁ := h.not_mem_later hnew hn ha
    have hn₁ : Openable o₁.library n ms := ha.library ▸ hn
    refine Ends.mono (ha.vetted.yields_lower hn₁ hsub) ?_
    intro r o₂ hr
    match r, hr with
    | .ok _, happ =>
      have hv := ha.vetted.appended hn₁ hsub hnew₁ happ
      exact ⟨new ++ [n], (ha.of_operands hn).lowered hv happ, by simp⟩
    | .error _, ⟨fault, rfl, hraises⟩ => exact hraises
  · intro stop o₁ hr
    match stop, hr with
    | .error e, ⟨new, ha, ⟨k, hk, j, hcone, hflaw⟩, hagain⟩ =>
      have hcone' : Cone o.library n j := hcone.head ⟨ms, hn.children, hk⟩
      refine ⟨new, ha.of_operands hn, ⟨n, List.mem_singleton.2 rfl, j, hcone', hflaw⟩, ?_⟩
      intro reps' o₂ hv hlib hsub
      -- No entry hides the flaw, so that the node is opened again.
      have hn₂ : Openable o₂.library n ms := hlib ▸ hn
      have hnew₂ := hv.not_mem_of_flaw (hlib ▸ hcone') (hlib ▸ hflaw)
      have hindex₂ := hv.indexOf?_eq_none hn₂.sane.1 hnew₂
      refine (attempt_succ_of_opened hindex₂ (hv.openNode_eq hn₂) hn₂.children).trans ?_
      exact bind_error (hagain hv hlib hsub)
    | .fault _, hraises => exact hraises

/-- A node that cannot be opened is refused at once. -/
theorem attempt_succ_ends_of_blocked (h : Vetted reps o) (hn : contains o.library n = true)
    (hblocked : Blocked o.library n e) :
    Ends (attempt (depth + 1) n) o (Outcome reps [n] (attempt (depth + 1) n) o) := by
  obtain ⟨m, hcone, hflaw⟩ := hblocked.exists_flaw hn
  have hrefuses : Refuses (attempt (depth + 1) n : OracleM ε σ τ Unit) o.library reps e := by
    intro reps' o' hv hlib _
    have hnew' := hv.not_mem_of_flaw (hlib ▸ hcone) (hlib ▸ hflaw)
    have hindex' := hv.indexOf?_eq_none (hlib ▸ hn) hnew'
    exact attempt_succ_of_error hindex' (hv.openNode_eq_error (hlib ▸ hblocked))
  unfold Ends
  rw [hrefuses h rfl (List.Subset.refl _)]
  refine ⟨[], .nil h _, ⟨n, List.mem_singleton.2 rfl, m, hcone, hflaw⟩, ?_⟩
  rwa [List.append_nil]

theorem attempt_ends (h : Attemptable reps above [n] depth o) :
    Ends (attempt depth n) o (Outcome reps [n] (attempt depth n) o) := by
  -- By induction on the depth, which an attempt of the operands has one less of.
  induction depth generalizing reps above n o with
  | zero =>
    obtain ⟨i, hindex, hmem⟩ | ⟨_, _, hpos⟩ := h.cases
    · exact attempt_ends_of_entered h.vetted hindex hmem
    · exact absurd hpos (Nat.lt_irrefl 0)
  | succ depth ih =>
    obtain ⟨i, hindex, hmem⟩ | ⟨hindex, hnew, _⟩ := h.cases
    · exact attempt_ends_of_entered h.vetted hindex hmem
    · have hn := h.held n (List.mem_singleton.2 rfl)
      obtain ⟨ms, hn⟩ | ⟨e, hblocked⟩ := h.vetted.discrete.openable_or_blocked hn
      · exact attempt_succ_ends h hnew hn (attemptAll_ends (h.operands hnew hn) ih)
      · exact attempt_succ_ends_of_blocked h.vetted hn hblocked

/-! ## Working off is attempting -/

/-- The operands of a node, of which those that had entries when it was opened were left
    out. -/
theorem replays_attemptAll {reps₀ : List NodeId} (h : Attemptable reps above ms depth o)
    (hsub : reps₀ ⊆ reps) (hb : bound o.library ≤ b + reps.length + above.length)
    (hattempt : ∀ {b : Nat} {reps : List NodeId} {o : Oracle ε σ τ} {n : NodeId},
      Attemptable reps above [n] depth o → bound o.library ≤ b + reps.length + above.length →
        Replays b [⟨n, false⟩] (attempt depth n) o) :
    Replays b (unopened (· ∈ reps₀) ms) (ms.forM (attempt depth)) o := by
  let I (b : Nat) (ms : List NodeId) (o : Oracle ε σ τ) : Prop :=
    ∃ reps, Attemptable reps above ms depth o ∧ reps₀ ⊆ reps ∧
      bound o.library ≤ b + reps.length + above.length
  have hI : I b ms o := ⟨reps, h, hsub, hb⟩
  refine replays_forM (I := I) ?_ ?_ ?_ hI
  · intro b m ms o ⟨reps, h, hsub, _⟩ hmem
    obtain ⟨i, _, hi, _⟩ := h.vetted.found (hsub hmem)
    exact attempt_of_entered hi
  · intro b m ms o ⟨reps, h, _, hb⟩
    exact hattempt h.head hb
  · intro b b' m ms o o' ⟨reps, h, hsub, hb⟩ hrun hsize
    obtain ⟨new, ha, _⟩ := (attempt_ends h.head).of_ok hrun
    refine ⟨reps ++ new, h.tail ha, List.subset_append_of_subset_left _ hsub, ?_⟩
    rw [h.vetted.size, ha.vetted.size] at hsize
    rw [ha.library]
    omega

/-- The budget suffices because every node above has taken one of it, and every entry. -/
theorem replays_attempt (h : Attemptable reps above [n] depth o)
    (hb : bound o.library ≤ b + reps.length + above.length) :
    Replays b [⟨n, false⟩] (attempt depth n) o := by
  induction depth generalizing b reps above n o with
  | zero =>
    obtain ⟨i, hindex, _⟩ | ⟨_, _, hpos⟩ := h.cases
    · exact replays_of_entered hindex (attempt_of_entered hindex)
    · exact absurd hpos (Nat.lt_irrefl 0)
  | succ depth ih =>
    obtain ⟨i, hindex, _⟩ | ⟨hindex, hnew, _⟩ := h.cases
    · exact replays_of_entered hindex (attempt_of_entered hindex)
    · have hn := h.held n (List.mem_singleton.2 rfl)
      have hlength := h.length_lt hnew
      obtain ⟨b, rfl⟩ : ∃ b', b = b' + 1 := ⟨b - 1, by omega⟩
      obtain ⟨ms, hn⟩ | ⟨e, hblocked⟩ := h.vetted.discrete.openable_or_blocked hn
      · have hops := h.operands hnew hn
        have hb' : bound o.library ≤ b + reps.length + (n :: above).length := by
          rw [List.length_cons]
          omega
        have hopen := h.vetted.openNode_eq hn
        refine (replays_open hindex hopen (countP_unopened ms n) ?_).congr
          (attempt_succ_of_opened hindex hopen hn.children)
        apply (replays_attemptAll hops (List.Subset.refl _) hb' ih).bind
        intro b₁ o₁ hrun _
        obtain ⟨new, ha, hsub⟩ := (attemptAll_ends hops attempt_ends).of_ok hrun
        have hn₁ : Openable o₁.library n ms := ha.library ▸ hn
        apply replays_lower (ha.vetted.indexOf?_eq_none hn₁.sane.1 (h.not_mem_later hnew hn ha))
        intro o₂ hlower
        exact ((ha.vetted.yields_lower hn₁ hsub).of_ok hlower).size
      · have hopen := h.vetted.openNode_eq_error hblocked
        exact replays_open_error hindex hopen (attempt_succ_of_error hindex hopen)

/-- Working off a node, within the bound of the library, is attempting it. -/
theorem Vetted.workOff_eq_attempt (h : Vetted reps o) (hn : contains o.library n = true) :
    workOff (bound o.library) [⟨n, false⟩] o = attempt (bound o.library) n o :=
  (replays_attempt (h.attemptable hn) (Nat.le_add_right _ _)).workOff_eq

end Oracle

end SatMemo
