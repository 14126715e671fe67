import SatMemo.Proofs.Bdd.Exact

/-! # Histories of a diagram

    A history is a diagram and the edges it has returned since it was new, each
    with the Boolean function that it was asked for.  A request may name any
    edges returned before, in any order and as often as it likes; all it has to
    observe is the order of variables where it makes a branch itself.

    `Sound` is the invariant: the diagram is ordered and every edge denotes its
    function.  It holds at the start, every request preserves it, and canonicity
    does the rest. -/

namespace SatMemo

namespace Bdd

/-! ## Requests -/

/-- What a diagram may be asked for, about operands of type `ρ`. -/
inductive Request (ρ : Type) where
  /-- What every decider can be asked for. -/
  | make (q : Maker ρ)
  | projection (v : Nat)
  | branch (v : Nat) (low high : ρ)
  | ite (f g h : ρ)
  | and (a b : ρ)
  | or (a b : ρ)

namespace Request

variable {ρ ρ' : Type}

def map (f : ρ → ρ') : Request ρ → Request ρ'
  | make q            => make (q.map f)
  | projection v      => projection v
  | branch v low high => branch v (f low) (f high)
  | ite a b c         => ite (f a) (f b) (f c)
  | and a b           => and (f a) (f b)
  | or a b            => or (f a) (f b)

def operands : Request ρ → List ρ
  | make q            => q.operands
  | projection _      => []
  | branch _ low high => [low, high]
  | ite a b c         => [a, b, c]
  | and a b           => [a, b]
  | or a b            => [a, b]

/-- The function a request stands for, in a diagram with `count` variables. -/
def meaning (count : Nat) : Request BoolFn → BoolFn
  | make q            => q.meaning (count + 1)
  | projection v      => .var v
  | branch v low high => .ite (.var v) high low
  | ite F G H         => .ite F G H
  | and F G           => .all [F, G]
  | or F G            => .any [F, G]

/-- Variables are numbered from 1, and a branch stands above both of its halves. -/
def Allowed (m : Bdd) : Request Edge → Prop
  | projection v      => 1 ≤ v
  | branch v low high =>
      (∀ u, m.variableOf low = .ok u → u < v) ∧ ∀ u, m.variableOf high = .ok u → u < v
  | _                 => True

end Request

/-- Do what is asked for. -/
def perform (m : Bdd) : Request Edge → Reply Bdd Edge
  | .make q            => q.run m
  | .projection v      => m.projection v
  | .branch v low high => m.branch v low high
  | .ite f g h         => m.ite f g h
  | .and a b           => m.and a b
  | .or a b            => m.or a b

/-! ## Histories -/

structure History where
  diagram : Bdd
  given   : List (Edge × BoolFn)

namespace History

/-- A diagram that has returned nothing but its constants. -/
def start (m : Bdd) : History where
  diagram := m
  given   := [(.one, .const true), (.zero, .const false)]

/-- What becomes of a history when `q` is asked and answered with an edge. -/
structure Step (h : History) (q : Request (Edge × BoolFn)) (h' : History) : Prop where
  operands : ∀ x ∈ q.operands, x ∈ h.given
  allowed  : (q.map Prod.fst).Allowed h.diagram
  answer   : ∃ r events, h.diagram.perform (q.map Prod.fst) = ⟨.ok r, h'.diagram, events⟩ ∧
    h'.given = (r, (q.map Prod.snd).meaning h.diagram.varCount) :: h.given

/-- The histories that `h` can go on to. -/
inductive Later (h : History) : History → Prop where
  | refl : Later h h
  | step {h₁ h₂ : History} {q : Request (Edge × BoolFn)} :
      Later h h₁ → h₁.Step q h₂ → Later h h₂

/-- The histories of diagrams over stores of the given sizes. -/
def Reached (storageBits memoBits : Nat) (h : History) : Prop :=
  ∃ m, ofBits storageBits memoBits = .ok m ∧ Later (start m) h

/-! ## The invariant -/

/-- Every edge returned denotes its function. -/
structure Sound (h : History) : Prop where
  ordered : h.diagram.Ordered
  known   : ∀ x ∈ h.given, h.diagram.Known x.1
  eval    : ∀ x ∈ h.given, ∀ α, h.diagram.eval α x.1 = x.2 α

theorem sound_start {storageBits memoBits : Nat} {m : Bdd}
    (hm : ofBits storageBits memoBits = .ok m) : (start m).Sound := by
  have ho := (fresh_of_ofBits hm).ordered
  refine ⟨ho, ?_, ?_⟩
  · intro x hx
    simp only [start, List.mem_cons, List.not_mem_nil, or_false] at hx
    rcases hx with rfl | rfl
    · exact ho.known_one
    · exact ho.known_zero
  · intro x hx α
    simp only [start, List.mem_cons, List.not_mem_nil, or_false] at hx
    rcases hx with rfl | rfl
    · exact ho.eval_one α
    · exact ho.eval_zero α

/-- Every allowed request about edges returned before is answered with an edge for the
    function it stands for. -/
theorem Sound.perform {h : History} (hs : h.Sound) {q : Request (Edge × BoolFn)}
    (hq : ∀ x ∈ q.operands, x ∈ h.given) (ha : (q.map Prod.fst).Allowed h.diagram) :
    ∃ n, h.diagram.Answers n ((q.map Prod.snd).meaning h.diagram.varCount)
      (h.diagram.perform (q.map Prod.fst)) := by
  have ho := hs.ordered
  have hk : ∀ x ∈ q.operands, h.diagram.Known x.1 := fun x hx => hs.known x (hq x hx)
  have he : ∀ x ∈ q.operands, ∀ α, h.diagram.eval α x.1 = x.2 α :=
    fun x hx => hs.eval x (hq x hx)
  cases q with
  | make q =>
    exact ⟨_, ho.answers_maker hk he⟩
  | projection v =>
    have hv : v ≠ 0 := Nat.one_le_iff_ne_zero.1 ha
    exact ⟨0, (ho.toFormed.produces_projection hv).answers ho⟩
  | branch v low high =>
    have hl : low ∈ [low, high] := List.mem_cons_self ..
    have hh : high ∈ [low, high] := List.mem_cons_of_mem _ (List.mem_cons_self ..)
    have hlow := ha.1 _ (hk low hl).variableOf_eq
    have hhigh := ha.2 _ (hk high hh).variableOf_eq
    refine ⟨0, ((ho.produces_branch (hk low hl) (hk high hh) hlow hhigh).congr ?_).answers ho⟩
    intro α
    rw [he low hl, he high hh]
    rfl
  | ite a b c =>
    have hma : a ∈ [a, b, c] := List.mem_cons_self ..
    have hmb : b ∈ [a, b, c] := List.mem_cons_of_mem _ (List.mem_cons_self ..)
    have hmc : c ∈ [a, b, c] := by simp
    refine ⟨0, ((ho.toFormed.produces_ite (hk a hma) (hk b hmb) (hk c hmc)).congr ?_).answers ho⟩
    intro α
    rw [BoolFn.ite_apply, he a hma, he b hmb, he c hmc]
    rfl
  | and a b =>
    have hma : a ∈ [a, b] := List.mem_cons_self ..
    have hmb : b ∈ [a, b] := List.mem_cons_of_mem _ (List.mem_cons_self ..)
    refine ⟨0, ((ho.toFormed.produces_and (hk a hma) (hk b hmb)).congr ?_).answers ho⟩
    intro α
    rw [he a hma, he b hmb]
    simp [Request.map, Request.meaning, BoolFn.all_apply]
  | or a b =>
    have hma : a ∈ [a, b] := List.mem_cons_self ..
    have hmb : b ∈ [a, b] := List.mem_cons_of_mem _ (List.mem_cons_self ..)
    refine ⟨0, ((ho.toFormed.produces_or (hk a hma) (hk b hmb)).congr ?_).answers ho⟩
    intro α
    rw [he a hma, he b hmb]
    simp [Request.map, Request.meaning, BoolFn.any_apply]

theorem Sound.exists_step {h : History} (hs : h.Sound) {q : Request (Edge × BoolFn)}
    (hq : ∀ x ∈ q.operands, x ∈ h.given) (ha : (q.map Prod.fst).Allowed h.diagram) :
    ∃ h', h.Step q h' := by
  obtain ⟨_, r, m', events, hrun, _⟩ := hs.perform hq ha
  exact ⟨⟨m', _⟩, hq, ha, r, events, hrun, rfl⟩

theorem Sound.step {h h' : History} (hs : h.Sound) {q : Request (Edge × BoolFn)}
    (hq : h.Step q h') : h'.Sound := by
  obtain ⟨_, r, m', events, hrun, ho, hx, hr, _, heval⟩ := hs.perform hq.operands hq.allowed
  obtain ⟨r', events', hrun', hgiven⟩ := hq.answer
  rw [hrun] at hrun'
  injection hrun' with hr' hm' _
  cases hr'
  rw [hm'] at ho hx hr heval
  refine ⟨ho, ?_, ?_⟩
  · intro x hmem
    rw [hgiven] at hmem
    rcases List.mem_cons.1 hmem with rfl | hmem
    · exact hr
    · exact (hs.known x hmem).mono hx
  · intro x hmem α
    rw [hgiven] at hmem
    rcases List.mem_cons.1 hmem with rfl | hmem
    · exact heval α
    · rw [hs.ordered.eval_eq ho.toFormed hx (hs.known x hmem)]
      exact hs.eval x hmem α

theorem Sound.later {h h' : History} (hs : h.Sound) (hl : h.Later h') : h'.Sound := by
  induction hl with
  | refl => exact hs
  | step _ hq ih => exact ih.step hq

theorem Reached.sound {storageBits memoBits : Nat} {h : History}
    (hr : Reached storageBits memoBits h) : h.Sound := by
  obtain ⟨m, hm, hl⟩ := hr
  exact (sound_start hm).later hl

theorem Step.given_subset {h h' : History} {q : Request (Edge × BoolFn)} (hq : h.Step q h') :
    h.given ⊆ h'.given := by
  obtain ⟨r, events, _, hgiven⟩ := hq.answer
  rw [hgiven]
  exact List.subset_cons_self ..

theorem Later.given_subset {h h' : History} (hl : h.Later h') : h.given ⊆ h'.given := by
  induction hl with
  | refl => exact List.Subset.refl _
  | step _ hq ih => exact List.Subset.trans ih hq.given_subset

/-! ## Canonicity of what was returned -/

/-- Edges returned are equal exactly if their functions are. -/
theorem Sound.eq_iff {h : History} (hs : h.Sound) {x y : Edge × BoolFn} (hx : x ∈ h.given)
    (hy : y ∈ h.given) : x.1 = y.1 ↔ x.2 = y.2 := by
  constructor
  · intro heq
    funext α
    rw [← hs.eval x hx, ← hs.eval y hy, heq]
  · intro heq
    apply hs.ordered.eq_of_eval_eq (hs.known x hx) (hs.known y hy)
    intro α
    rw [hs.eval x hx, hs.eval y hy, heq]

/-- Two requests for the same function get the same edge, whatever happens in between. -/
theorem Sound.result_eq {h h₁ h₂ : History} (hs : h.Sound) (q q' : Request (Edge × BoolFn))
    (hq : h.Step q h₁) (hl : h₁.Later h₂) (hq' : ∀ x ∈ q'.operands, x ∈ h₂.given)
    (ha' : (q'.map Prod.fst).Allowed h₂.diagram)
    (heq : (q'.map Prod.snd).meaning h₂.diagram.varCount
      = (q.map Prod.snd).meaning h.diagram.varCount) :
    (h₂.diagram.perform (q'.map Prod.fst)).result
      = (h.diagram.perform (q.map Prod.fst)).result := by
  obtain ⟨r, events, hrun, hgiven⟩ := hq.answer
  have hs₂ := (hs.step hq).later hl
  obtain ⟨h₃, hstep⟩ := hs₂.exists_step hq' ha'
  obtain ⟨r', events', hrun', hgiven'⟩ := hstep.answer
  -- Both answers are among what was returned in the end.
  have hmem : (r, (q.map Prod.snd).meaning h.diagram.varCount) ∈ h₃.given := by
    apply hstep.given_subset
    apply hl.given_subset
    rw [hgiven]
    exact List.mem_cons_self ..
  have hmem' : (r', (q'.map Prod.snd).meaning h₂.diagram.varCount) ∈ h₃.given := by
    rw [hgiven']
    exact List.mem_cons_self ..
  rw [hrun, hrun']
  exact congrArg Except.ok (((hs₂.step hstep).eq_iff hmem' hmem).2 heq)

/-- The functions of two lists with the same elements. -/
theorem all_eq_of_subset {xs ys : List (Edge × BoolFn)} (hxy : xs ⊆ ys) (hyx : ys ⊆ xs) :
    BoolFn.all (ys.map Prod.snd) = BoolFn.all (xs.map Prod.snd) := by
  funext α
  rw [BoolFn.all_apply, BoolFn.all_apply, Bool.eq_iff_iff, List.all_eq_true, List.all_eq_true]
  exact ⟨fun h F hF => h F (List.map_subset _ hxy hF), fun h F hF => h F (List.map_subset _ hyx hF)⟩

theorem any_eq_of_subset {xs ys : List (Edge × BoolFn)} (hxy : xs ⊆ ys) (hyx : ys ⊆ xs) :
    BoolFn.any (ys.map Prod.snd) = BoolFn.any (xs.map Prod.snd) := by
  funext α
  rw [BoolFn.any_apply, BoolFn.any_apply, Bool.eq_iff_iff, List.any_eq_true, List.any_eq_true]
  exact ⟨fun ⟨F, hF, hα⟩ => ⟨F, List.map_subset _ hyx hF, hα⟩,
    fun ⟨F, hF, hα⟩ => ⟨F, List.map_subset _ hxy hF, hα⟩⟩

/-- Whatever was asked of a diagram before, over stores of any sizes:

    - every allowed request about edges returned before is answered;
    - two edges returned are equal exactly if they stand for the same function, which is
      the function they denote;
    - a query tells exactly whether the function is satisfiable;
    - a conjunction or disjunction that is asked for again, at any later time and with the
      list reordered or elements of it repeated, comes to the same edge. -/
theorem reached_canonical {storageBits memoBits : Nat} {h : History}
    (hr : Reached storageBits memoBits h) :
    (∀ q : Request (Edge × BoolFn), (∀ x ∈ q.operands, x ∈ h.given) →
      (q.map Prod.fst).Allowed h.diagram → ∃ h', h.Step q h') ∧
    (∀ x ∈ h.given, ∀ y ∈ h.given, x.1 = y.1 ↔ x.2 = y.2) ∧
    (∀ x ∈ h.given, (fun α => h.diagram.eval α x.1) = x.2) ∧
    (∀ x ∈ h.given, ∃ b, Decider.query h.diagram x.1 = .ok (.ok b) h.diagram ∧
      (b = true ↔ x.2.Satisfiable)) ∧
    (∀ xs ys h₁ h₂, xs ⊆ ys → ys ⊆ xs → h.Step (.make (.conjunction xs)) h₁ → h₁.Later h₂ →
      (Decider.makeAnd h₂.diagram (ys.map Prod.fst)).result
        = (Decider.makeAnd h.diagram (xs.map Prod.fst)).result) ∧
    (∀ xs ys h₁ h₂, xs ⊆ ys → ys ⊆ xs → h.Step (.make (.disjunction xs)) h₁ → h₁.Later h₂ →
      (Decider.makeOr h₂.diagram (ys.map Prod.fst)).result
        = (Decider.makeOr h.diagram (xs.map Prod.fst)).result) := by
  have hs := hr.sound
  have hgiven : ∀ {xs ys : List (Edge × BoolFn)} {h₁ h₂ : History}, ys ⊆ xs →
      (∀ x ∈ xs, x ∈ h.given) → h.given ⊆ h₁.given → h₁.Later h₂ → ∀ y ∈ ys, y ∈ h₂.given :=
    fun hyx hxs h₁ hl y hy => hl.given_subset (h₁ (hxs y (hyx hy)))
  refine ⟨fun q => hs.exists_step, fun x hx y hy => hs.eq_iff hx hy,
    fun x hx => funext (hs.eval x hx), ?_, ?_, ?_⟩
  · intro x hx
    refine ⟨isSatisfiable x.1, rfl, (hs.ordered.isSatisfiable_iff (hs.known x hx)).trans ?_⟩
    exact exists_congr fun α => by rw [hs.eval x hx]
  · intro xs ys h₁ h₂ hxy hyx hstep hl
    exact hs.result_eq (.make (.conjunction xs)) (.make (.conjunction ys)) hstep hl
      (hgiven hyx hstep.operands hstep.given_subset hl) trivial (all_eq_of_subset hxy hyx)
  · intro xs ys h₁ h₂ hxy hyx hstep hl
    exact hs.result_eq (.make (.disjunction xs)) (.make (.disjunction ys)) hstep hl
      (hgiven hyx hstep.operands hstep.given_subset hl) trivial (any_eq_of_subset hxy hyx)

/-- After a variable was made, its edge is not the constant true one. -/
theorem reached_canonical_newVariable :
    ∃ h, Reached 4 4 h ∧ (∃ x ∈ h.given, x.2 = .var 1) ∧
      ∀ x ∈ h.given, x.2 = .var 1 → x.1 ≠ .one := by
  have hbits : 4 ≤ 31 := by decide
  obtain ⟨m, hm⟩ := exists_ofBits_eq_ok hbits hbits
  have hstart : Reached 4 4 (start m) := ⟨m, hm, .refl⟩
  obtain ⟨h, hstep⟩ := (reached_canonical hstart).1 (.make (.newVariable "x"))
    (fun _ hx => nomatch hx) trivial
  have hr : Reached 4 4 h := ⟨m, hm, .step .refl hstep⟩
  refine ⟨h, hr, ?_, ?_⟩
  · obtain ⟨r, events, _, hgiven⟩ := hstep.answer
    refine ⟨_, by rw [hgiven]; exact List.mem_cons_self .., ?_⟩
    show BoolFn.var (m.varCount + 1) = _
    rw [(fresh_of_ofBits hm).varCount]
  · intro x hx hvar heq
    have hone : (Edge.one, BoolFn.const true) ∈ h.given :=
      hstep.given_subset (List.mem_cons_self ..)
    -- The two functions differ where everything is false.
    have := ((reached_canonical hr).2.1 x hx _ hone).1 heq
    rw [hvar] at this
    exact Bool.false_ne_true (congrFun this fun _ => false)

end History

end Bdd

end SatMemo
