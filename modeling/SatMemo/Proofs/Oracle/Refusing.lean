import SatMemo.Cnf.Decider
import SatMemo.Library.Tree
import SatMemo.Proofs.Oracle.Attempting

/-! # Building fails cleanly

    Over a discrete library a formula is built if and only if it is well-formed,
    whatever the decider does short of a fault.  A build that is refused tells of a
    flaw in the cone of the formula, and what it did before it met the flaw is
    sound: entries of formulas that are well-formed, besides all those there were.

    The oracle may have any run behind it (`Trail`), with refused builds among its
    calls.  The library may make nodes meanwhile, also such as were missing. -/

namespace SatMemo

namespace Oracle

open Library (contains Cone HeldOperand Discrete Steady WellFormed Flaw)

variable {ε σ τ : Type} [Library ε] [Decider σ τ] {o o' o₁ : Oracle ε σ τ} {lib : ε}
  {reps : List NodeId} {m n : NodeId} {e : Error} {i : Nat}

/-! ## Building -/

theorem build_ends_of_entered (h : Vetted reps o) (hn : n ∈ reps) :
    Ends (build n) o (Outcome reps [n] (build n) o) := by
  obtain ⟨i, _, hi, _⟩ := h.found hn
  unfold Ends
  rw [build_of_entered (h.held hn) hi]
  refine ⟨[], ?_, ?_⟩
  · exact {
      library := rfl
      vetted  := by
        rw [List.append_nil]
        exact h.of_library_eq ⟨rfl, rfl⟩ rfl
      kept    := fun _ _ he => he
      misses  := rfl
      cone    := nofun }
  · rw [List.append_nil]
    exact List.cons_subset.2 ⟨hn, List.nil_subset _⟩

theorem build_ends_of_new (h : Vetted reps o) (hn : contains o.library n = true)
    (hnew : n ∉ reps) : Ends (build n) o (Outcome reps [n] (build n) o) := by
  refine Ends.congr ?_ (build_of_new hn (h.indexOf?_eq_none hn hnew))
  apply ((attempt_ends (h.attemptable hn)).congr (h.workOff_eq_attempt hn)).bind
  · intro _ o₁ ⟨new, ha, hsub⟩
    obtain ⟨i, _, hi, _⟩ := ha.vetted.found (hsub (List.mem_singleton.2 rfl))
    refine Ends.congr ?_ (bind_ok hi)
    exact ⟨new, ha, hsub⟩
  · intro stop o₁ hr
    match stop, hr with
    | .error e, ⟨new, ha, hflaw, hagain⟩ =>
      refine ⟨new, ha, hflaw, ?_⟩
      intro reps' o₂ hv hlib hsub
      obtain ⟨k, hk, j, hcone, hflaw⟩ := hflaw
      obtain rfl := List.mem_singleton.1 hk
      have hk₂ : contains o₂.library k = true := hlib ▸ hn
      have hnew₂ := hv.not_mem_of_flaw (hlib ▸ hcone) (hlib ▸ hflaw)
      rw [build_of_new hk₂ (hv.indexOf?_eq_none hk₂ hnew₂)]
      apply bind_error
      rw [hv.workOff_eq_attempt hk₂, hlib]
      exact hagain hv hlib hsub
    | .fault _, hraises => exact hraises

theorem build_ends (h : Vetted reps o) (n : NodeId) :
    Ends (build n) o (Outcome reps [n] (build n) o) := by
  cases hn : contains o.library n with
  | false =>
    unfold Ends
    rw [build_of_not_contains hn]
    refine ⟨[], .nil h _, ⟨n, List.mem_singleton.2 rfl, n, .refl, .unknown hn⟩, ?_⟩
    intro reps' o' _ hlib _
    exact build_of_not_contains (hlib ▸ hn)
  | true =>
    by_cases hmem : n ∈ reps
    · exact build_ends_of_entered h hmem
    · exact build_ends_of_new h hn hmem

/-! ## Runs -/

/-- Calls that end no run, over a library that keeps its contract. -/
inductive Trail (o : Oracle ε σ τ) : Oracle ε σ τ → Prop where
  | nil : Trail o o
  | call {o' : Oracle ε σ τ} (c : Call NodeId) :
      Trail o o' → ¬ Faults c o' → Discrete (after (perform c) o').library →
        Steady o'.library (after (perform c) o').library → Trail o (after (perform c) o')

/-- Whatever a call comes to, short of a fault, it leaves a vetted oracle. -/
theorem Vetted.perform (h : Vetted reps o) {c : Call NodeId} (hc : ¬ Faults c o)
    (hd : Discrete (after (perform c) o).library)
    (hlib : Steady o.library (after (perform c) o).library) :
    ∃ new, Vetted (reps ++ new) (after (perform c) o) := by
  cases hsubject : subject c with
  | none =>
    refine ⟨[], ?_⟩
    rw [List.append_nil]
    exact h.shelved (shelved_of_no_subject hsubject o) hd hlib
  | some n =>
    have hs := shelved_of_subject hsubject o
    have hends := build_ends h n
    match hbuild : build n o with
    | .ok i o₁ =>
      obtain ⟨new, ha, _⟩ := hends.of_ok hbuild
      rw [after_ok hbuild] at hs
      exact ⟨new, ha.vetted.shelved hs hd (ha.library ▸ hlib)⟩
    | .error (.error e) o₁ =>
      obtain ⟨new, ha, _⟩ := hends.of_error hbuild
      rw [after_error hbuild] at hs
      exact ⟨new, ha.vetted.shelved hs hd (ha.library ▸ hlib)⟩
    | .error (.fault fault) o₁ => exact absurd (faults_of_build hsubject hbuild) hc

theorem Trail.vetted (ht : Trail o o') (h : Vetted reps o) : ∃ new, Vetted (reps ++ new) o' := by
  induction ht with
  | nil =>
    refine ⟨[], ?_⟩
    rwa [List.append_nil]
  | call c _ hc hd hlib ih =>
    obtain ⟨new, hv⟩ := ih
    obtain ⟨new', hv'⟩ := hv.perform hc hd hlib
    rw [List.append_assoc] at hv'
    exact ⟨new ++ new', hv'⟩

theorem Trail.exists_vetted {s : σ} {settings : Settings} {watched : Bool} {setup : List Event}
    (hd : Discrete lib) (ht : Trail (start lib s settings watched setup) o) :
    ∃ reps, Vetted reps o := by
  obtain ⟨new, hv⟩ := ht.vetted (vetted_start hd settings watched setup)
  exact ⟨_, hv⟩

/-- Building changes no library, so that it goes on with any trail. -/
theorem Trail.build {s : σ} {settings : Settings} {watched : Bool} {setup : List Event}
    (hd : Discrete lib) (ht : Trail (start lib s settings watched setup) o)
    (hbuild : Oracle.build n o = .ok i o₁) : Trail (start lib s settings watched setup) o₁ := by
  obtain ⟨reps, h⟩ := ht.exists_vetted hd
  obtain ⟨new, ha, _⟩ := (build_ends h n).of_ok hbuild
  have hafter : after (Oracle.perform (.build n)) o = o₁ := after_ok (bind_ok hbuild)
  rw [← hafter]
  apply ht.call _ (not_faults_build hbuild)
  · rw [hafter]
    exact ha.vetted.discrete
  · rw [hafter, ha.library]
    exact .refl _

/-! ## Refusals -/

/-- What building `n` leaves behind when it is refused with `e`. -/
structure Refused (n : NodeId) (e : Error) (o o' : Oracle ε σ τ) : Prop where
  /-- The error names a node of the cone, and what is wrong with it. -/
  flaw    : ∃ m, Cone o.library n m ∧ Flaw o.library m e
  library : o'.library = o.library
  /-- Every entry keeps its object and its status. -/
  kept    : ∀ (i : Nat) (e : Entry τ), o.entries[i]? = some e → o'.entries[i]? = some e
  /-- Every entry keeps its index. -/
  named   : ∀ m i, contains o.library m = true → indexOf? m o = .ok (some i) o →
    indexOf? m o' = .ok (some i) o'
  /-- Every new entry is that of one node of the cone, which is well-formed. -/
  fresh   : ∀ i, o.entries.size ≤ i → i < o'.entries.size →
    ∃ m, Cone o.library n m ∧ WellFormed o.library m ∧
      ∀ k, contains o.library k = true → (indexOf? k o' = .ok (some i) o' ↔ k = m)
  /-- The formula itself has no entry. -/
  unfound : contains o.library n = true → indexOf? n o' = .ok none o'
  /-- Nor has it one if the library does not hold it and should not be asked about it. -/
  unfiled : ∀ i, ¬ o'.index.Stores n i
  misses  : o'.stats.misses = o.stats.misses + (o'.entries.size - o.entries.size)
  /-- While the library is the same, it is refused for the same reason, and nothing changes. -/
  again   : ∀ o₁, Trail o' o₁ → o₁.library = o.library → build n o₁ = .error (.error e) o₁

theorem Vetted.refused (h : Vetted reps o) (hbuild : build n o = .error (.error e) o') :
    Refused n e o o' := by
  obtain ⟨new, ha, ⟨n', hn', m, hcone, hflaw⟩, hagain⟩ := (build_ends h n).of_error hbuild
  obtain rfl := List.mem_singleton.1 hn'
  have hlib := ha.library
  have hnew := ha.vetted.not_mem_of_flaw (hlib ▸ hcone) (hlib ▸ hflaw)
  have hsize : o'.entries.size = o.entries.size + new.length := by
    rw [ha.vetted.size, List.length_append, h.size]
  exact {
    flaw    := ⟨m, hcone, hflaw⟩
    library := hlib
    kept    := ha.kept
    named   := by
      intro k i hk hi
      have hi := (h.indexOf?_eq_some_iff hk).1 hi
      have hlt := (List.getElem?_eq_some_iff.1 hi).1
      exact ha.vetted.indexOf?_eq ((List.getElem?_append_left hlt).trans hi)
    fresh   := by
      intro i hle hlt
      rw [h.size] at hle
      rw [ha.vetted.size] at hlt
      have hi : (reps ++ new)[i]? = some (reps ++ new)[i] := List.getElem?_eq_getElem hlt
      have hmem : (reps ++ new)[i] ∈ new := by
        rw [List.getElem_append_right hle]
        exact List.getElem_mem _
      obtain ⟨k, hk, hheld⟩ := ha.cone _ hmem
      obtain rfl := List.mem_singleton.1 hk
      refine ⟨(reps ++ new)[i], hheld.cone,
        hlib ▸ ha.vetted.wellFormed (List.mem_append_right _ hmem), ?_⟩
      intro j hj
      rw [ha.vetted.indexOf?_eq_some_iff (hlib ▸ hj), hi, Option.some.injEq]
      exact eq_comm
    unfound := fun hc => ha.vetted.indexOf?_eq_none (hlib ▸ hc) hnew
    unfiled := by
      intro i hi
      have hmem := ha.vetted.index.stores_iff.1 hi
      exact hnew (List.mem_of_getElem? (List.mk_mem_zipIdx_iff_getElem?.1 hmem))
    misses  := by
      rw [ha.misses, hsize]
      omega
    again   := by
      intro o₁ ht hlib₁
      obtain ⟨new₁, hv⟩ := ht.vetted ha.vetted
      exact hagain hv hlib₁ (List.subset_append_left _ _) }

/-- **Exactly the well-formed formulas are built**, at any point of a run over a library that
    keeps its contract and with any decider, unless that has a fault; and a build that is
    refused is refused cleanly. -/
theorem exactly_wellFormed_built {s : σ} {settings : Settings} {watched : Bool}
    {setup : List Event} (hd : Discrete lib) (ht : Trail (start lib s settings watched setup) o)
    (n : NodeId) :
    (¬ Faults (.build n) o → ((∃ i o', build n o = .ok i o') ↔ WellFormed o.library n)) ∧
    (∀ e o', build n o = .error (.error e) o' → Refused n e o o') ∧
    ∀ fault o', build n o = .error (.fault fault) o' → Decider.Raises σ fault := by
  obtain ⟨reps, h⟩ := ht.exists_vetted hd
  have hends := build_ends h n
  refine ⟨?_, fun e o' hbuild => h.refused hbuild, fun fault o' hbuild => hends.of_error hbuild⟩
  intro hfaults
  constructor
  · intro ⟨i, o', hbuild⟩
    obtain ⟨new, ha, hsub⟩ := hends.of_ok hbuild
    exact ha.library ▸ ha.vetted.wellFormed (hsub (List.mem_singleton.2 rfl))
  · intro hn
    match hbuild : build n o with
    | .ok i o' => exact ⟨i, o', rfl⟩
    | .error (.error e) o' =>
      obtain ⟨m, hcone, hflaw⟩ := (h.refused hbuild).flaw
      exact absurd hn (hflaw.not_wellFormed hcone)
    | .error (.fault fault) o' => exact absurd ⟨fault, o', bind_error hbuild⟩ hfaults

/-! ## A crooked library -/

/-- Two variables, their conjunction, a negation of both at once, and the disjunction of the
    last two. -/
def crooked : Tree where
  nodes := #[⟨.var, "x", [], some 7, .unknown⟩, ⟨.var, "y", [], some 7, .unknown⟩,
    ⟨.and, "and", [⟨0⟩, ⟨1⟩], some 7, .unknown⟩, ⟨.not, "not", [⟨0⟩, ⟨1⟩], some 7, .unknown⟩,
    ⟨.or, "or", [⟨2⟩, ⟨3⟩], some 7, .unknown⟩]

section Crooked

variable {m n : NodeId}

theorem exists_fin_of_crooked (hn : contains crooked n = true) : ∃ i : Fin 5, n = ⟨i⟩ :=
  ⟨⟨n.raw, of_decide_eq_true hn⟩, rfl⟩

/-- The operands of each node. -/
def crookedOperands (i : Fin 5) : List NodeId :=
  [[], [], [⟨0⟩, ⟨1⟩], [⟨0⟩, ⟨1⟩], [⟨2⟩, ⟨3⟩]][i]

theorem node_crooked (i : Fin 5) :
    Library.kind crooked ⟨i⟩ = .ok ([.var, .var, .and, .not, .or][i]) ∧
      Library.children crooked ⟨i⟩ = .ok (crookedOperands i) := by
  revert i
  decide

theorem lt_of_mem_crookedOperands : ∀ i, ∀ m ∈ crookedOperands i, m.raw < i := by
  decide

theorem discrete_crooked : Discrete crooked where
  lt_bound := fun hn => of_decide_eq_true hn
  node := by
    intro n hn
    obtain ⟨i, rfl⟩ := exists_fin_of_crooked hn
    exact ⟨_, _, node_crooked i⟩
  named := by
    intro n hn _
    obtain ⟨i, rfl⟩ := exists_fin_of_crooked hn
    have hlabel : Library.label crooked ⟨i⟩ = .ok (["x", "y", "and", "not", "or"][i]) := by
      revert i
      decide
    exact ⟨_, hlabel⟩
  key := by
    intro n hn
    obtain ⟨i, rfl⟩ := exists_fin_of_crooked hn
    have hkey : Library.structKey crooked ⟨i⟩ = .ok 7 := by
      revert i
      decide
    exact ⟨7, hkey⟩
  identity := by
    intro m n hm hn
    obtain ⟨i, rfl⟩ := exists_fin_of_crooked hm
    obtain ⟨j, rfl⟩ := exists_fin_of_crooked hn
    revert i j
    decide +kernel
  acyclic := by
    intro n hn
    refine Library.not_heldBelow_self ?_ hn
    intro n m hn ⟨⟨ms, hms, hm⟩, _⟩
    obtain ⟨i, rfl⟩ := exists_fin_of_crooked hn
    rw [(node_crooked i).2] at hms
    cases hms
    exact lt_of_mem_crookedOperands i m hm

end Crooked

/-- A variable is built; then the disjunction is refused for the sake of the negation, after
    the other variable and the conjunction, which is well-formed, have got entries. -/
theorem exactly_wellFormed_built_crooked :
    ∃ o o' : Oracle Tree Encoder Literal,
      Trail (start crooked Encoder.start {} false []) o ∧ o.entries.size = 1 ∧
        build ⟨4⟩ o = .error (.error (.malformedNode ⟨3⟩ .not 2)) o' ∧ o'.entries.size = 3 ∧
        Refused ⟨4⟩ (.malformedNode ⟨3⟩ .not 2) o o' ∧ WellFormed o.library ⟨2⟩ := by
  let o₀ : Oracle Tree Encoder Literal := start crooked Encoder.start {} false []
  let o₁ := after (build ⟨1⟩) o₀
  let o₂ := after (build ⟨4⟩) o₁
  have hbuild₁ : build ⟨1⟩ o₀ = .ok 0 o₁ := ok_of_run' (by decide +kernel)
  have hbuild₂ : build ⟨4⟩ o₁ = .error (.error (.malformedNode ⟨3⟩ .not 2)) o₂ :=
    error_of_stopOf? (by decide +kernel)
  have hbuild₃ : build ⟨2⟩ o₁ = .ok 2 (after (build ⟨2⟩) o₁) := ok_of_run' (by decide +kernel)
  have ht : Trail o₀ o₁ := Trail.build discrete_crooked .nil hbuild₁
  obtain ⟨_, hrefused, _⟩ := exactly_wellFormed_built discrete_crooked ht ⟨4⟩
  obtain ⟨hiff, _, _⟩ := exactly_wellFormed_built discrete_crooked ht ⟨2⟩
  have hwell : WellFormed o₁.library ⟨2⟩ := (hiff (not_faults_build hbuild₃)).1 ⟨2, _, hbuild₃⟩
  exact ⟨o₁, o₂, ht, by decide +kernel, hbuild₂, by decide +kernel, hrefused _ _ hbuild₂, hwell⟩

end Oracle

end SatMemo
