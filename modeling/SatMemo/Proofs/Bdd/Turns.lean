import SatMemo.Proofs.Bdd.Loop

/-! # The loop behind if-then-else ends

    What every turn of the loop keeps is `Loop.Sound`: the calls, the joins and
    the answers are about nodes of the diagram, no join is on variable 0, and the
    chores will use up all answers but one.  What every turn lessens is the weight
    of the chores.  A call weighs as much as a tree with three branches at each
    node has leaves, as many levels deep as the three indices of its operands add
    up to; the diagram may grow meanwhile, but no operand of a half gets heavier
    by it.  Neither speaks of the order of variables.

    The outcome is `ite_loop_safe`: whatever nodes were made before, the loop ends,
    with one answer, and no turn comes to a fault. -/

namespace SatMemo

namespace Bdd

/-! ## Normalisation -/

/-- What one round of normalisation does with a triple. -/
inductive Round where
  /-- The answer is read off. -/
  | answer (r : Edge)
  /-- The constants put in settle the triple, which is looked at once more. -/
  | again (t : Triple)
  /-- There is nothing more to put in. -/
  | normal (t : Triple)

/-- One round of normalisation. -/
def round (t : Triple) : Round :=
  match immediate? t with
  | some r => .answer r
  | none   =>
      let t := substitute t
      if t.g = t.h ∨ t.g.isTerminal ∧ t.h.isTerminal then .again t else .normal t

/-- Normalisation of `t` ends in its `n`-th round, with an answer or a triple to look up. -/
inductive Rounds : (n : Nat) → Triple → Edge ⊕ Triple → Prop where
  | answer {t : Triple} {r : Edge} : round t = .answer r → Rounds 1 t (.inl r)
  | normal {t t' : Triple} : round t = .normal t' → Rounds 1 t (.inr t')
  | again {n : Nat} {t t' : Triple} {o : Edge ⊕ Triple} :
      round t = .again t' → Rounds n t' o → Rounds (n + 1) t o

/-- Go on from a normalised triple. -/
def proceed (m : Bdd) : Edge ⊕ Triple → Except Fault Step × Bdd
  | .inl r => (.ok (.done r), m)
  | .inr t => m.lookup (plainBranch (plainCondition t)).1 (plainBranch (plainCondition t)).2

/-- A triple is settled once its branches are equal or both constant. -/
theorem exists_immediate? {t : Triple} (h : t.g = t.h ∨ t.g.isTerminal ∧ t.h.isTerminal) :
    ∃ r, immediate? t = some r := by
  refine Option.ne_none_iff_exists'.1 ?_
  rcases h with h | ⟨hg, hh⟩
  · simp [immediate?, h]
  · have hg := Edge.eq_one_or_eq_zero (by simpa [Edge.isTerminal] using hg)
    have hh := Edge.eq_one_or_eq_zero (by simpa [Edge.isTerminal] using hh)
    unfold immediate?
    -- Two constants are equal, or they are true and false in one of two orders.
    rcases hg with hg | hg <;> rcases hh with hh | hh <;> grind

/-- Nothing can be read off a triple with neither constants nor equal branches. -/
theorem immediate?_substitute_eq_none {t : Triple} (ht : immediate? t = none)
    (h : ¬ ((substitute t).g = (substitute t).h ∨
      (substitute t).g.isTerminal ∧ (substitute t).h.isTerminal)) :
    immediate? (substitute t) = none := by
  have hf : (substitute t).f = t.f := rfl
  have hone : Edge.one.isTerminal = true := rfl
  have hzero : Edge.zero.isTerminal = true := rfl
  unfold immediate? at ht ⊢
  rw [hf]
  grind

/-- **Normalisation ends.** Whatever the operands, it takes two rounds at most, and a step of
    if-then-else goes on from where it ends. -/
theorem rounds_end (t : Triple) :
    ∃ n o, n ≤ 2 ∧ Rounds n t o ∧ ∀ m : Bdd, m.step t = m.proceed o := by
  cases h₁ : immediate? t with
  | some r =>
    have hround : round t = .answer r := by simp only [round, h₁]
    exact ⟨1, .inl r, by omega, .answer hround, fun m => by simp only [Bdd.step, h₁, proceed]⟩
  | none =>
    by_cases h : (substitute t).g = (substitute t).h ∨
        (substitute t).g.isTerminal ∧ (substitute t).h.isTerminal
    · obtain ⟨r, h₂⟩ := exists_immediate? h
      have hround : round t = .again (substitute t) := by simp only [round, h₁, if_pos h]
      have hnext : round (substitute t) = .answer r := by simp only [round, h₂]
      exact ⟨2, .inl r, by omega, .again hround (.answer hnext),
        fun m => by simp only [Bdd.step, h₁, h₂, proceed]⟩
    · have h₂ := immediate?_substitute_eq_none h₁ h
      have hround : round t = .normal (substitute t) := by simp only [round, h₁, if_neg h]
      exact ⟨1, .inr (substitute t), by omega, .normal hround,
        fun m => by simp only [Bdd.step, h₁, h₂, proceed]⟩

/-! ## What every turn keeps -/

/-- The edges of a chore lead to nodes of the diagram, and a join is on a variable. -/
def Chore.Sound (m : Bdd) : Chore → Prop
  | .call t       => Triple.Known m t
  | .join v key _ => v ≠ 0 ∧ Triple.Known m key

theorem Chore.Sound.mono {m m' : Bdd} (hx : m.Extends m') {c : Chore} (h : c.Sound m) :
    c.Sound m' := by
  cases c with
  | call t => exact Triple.Known.mono hx h
  | join v key flip => exact ⟨h.1, h.2.mono hx⟩

/-- Working off the chores turns `count` answers into one: a call adds an answer, and a join
    puts one in the place of two. -/
def Balanced : List Chore → (count : Nat) → Prop
  | [], count               => count = 1
  | .call _ :: rest, count  => Balanced rest (count + 1)
  | .join .. :: rest, count => ∃ k, count = k + 2 ∧ Balanced rest (k + 1)

/-- How much a chore may still give rise to. -/
def Chore.weight : Chore → Nat
  | .call t  => leafCount 3 (Triple.weight t + 1)
  | .join .. => 1

theorem Chore.weight_pos (c : Chore) : 0 < c.weight := by
  cases c with
  | call t => exact leafCount_pos (by decide) _
  | join v key flip => exact Nat.one_pos

/-- Two lighter triples and a join are less than the triple they come from. -/
theorem Chore.weight_split {t high low : Triple} (hh : Triple.weight high < Triple.weight t)
    (hl : Triple.weight low < Triple.weight t) :
    (Chore.call high).weight + (Chore.call low).weight + 1 < (Chore.call t).weight := by
  have hthree : 0 < 3 := by decide
  have h₁ := leafCount_mono hthree hh
  have h₀ := leafCount_mono hthree hl
  have hleaf := leafCount_mono hthree (show 1 ≤ Triple.weight t by omega)
  have hone : leafCount 3 1 = 3 := rfl
  simp only [Chore.weight, leafCount_succ] at h₁ h₀ ⊢
  omega

namespace Loop

/-- What holds between any two turns. -/
structure Sound (w : Loop) : Prop where
  formed   : w.diagram.Formed
  chores   : ∀ c ∈ w.chores, c.Sound w.diagram
  results  : ∀ r ∈ w.results, w.diagram.Known r
  balanced : Balanced w.chores w.results.length

def weight (w : Loop) : Nat :=
  totalWeight Chore.weight w.chores

theorem sound_start {m : Bdd} (hf : m.Formed) {t : Triple} (ht : Triple.Known m t) :
    (start m t).Sound where
  formed := hf
  chores := by
    intro c hc
    obtain rfl := List.mem_singleton.1 hc
    exact ht
  results := fun r hr => absurd hr List.not_mem_nil
  balanced := rfl

/-- A turn from `w` to a sound state with less to do. -/
structure Kept (w w' : Loop) : Prop where
  goes    : w.Goes w'
  sound   : w'.Sound
  lighter : w'.weight < w.weight

/-- A call is answered, or put off until its halves are answered. -/
theorem Sound.turn_call {m : Bdd} {t : Triple} {rest : List Chore} {results : List Edge}
    {events : List Event} (h : Sound ⟨m, .call t :: rest, results, events⟩) :
    ∃ w', Kept ⟨m, .call t :: rest, results, events⟩ w' := by
  have ht : Triple.Known m t := h.chores _ List.mem_cons_self
  have hrest : ∀ c ∈ rest, c.Sound m := fun c hc => h.chores c (List.mem_cons_of_mem _ hc)
  obtain ⟨s, m₁, hstep, halike, _, hsound⟩ := h.formed.step ht
  have hf₁ := halike.formed h.formed
  have hx₁ := halike.extends
  have hresults : ∀ r ∈ results, m₁.Known r := fun r hr => (h.results r hr).mono hx₁
  cases s with
  | done r =>
    refine ⟨⟨m₁, rest, r :: results, events⟩, by simp only [Goes, turn, hstep], ?_, ?_⟩
    · exact {
        formed   := hf₁
        chores   := fun c hc => (hrest c hc).mono hx₁
        results  := List.forall_mem_cons.2 ⟨hsound.1.mono hx₁, hresults⟩
        balanced := h.balanced }
    · have hpos := (Chore.call t).weight_pos
      simp only [weight, totalWeight_cons]
      omega
  | split v key flip high low =>
    obtain ⟨hkey, hh⟩ := hsound
    refine ⟨⟨m₁, .call high :: .call low :: .join v key flip :: rest, results, events⟩,
      by simp only [Goes, turn, hstep], ?_, ?_⟩
    · refine ⟨hf₁, ?_, hresults, _, rfl, h.balanced⟩
      simp only [List.forall_mem_cons]
      exact ⟨hh.half_high.known.mono hx₁, hh.half_low.known.mono hx₁,
        ⟨hh.var_ne, hkey.known.mono hx₁⟩, fun c hc => (hrest c hc).mono hx₁⟩
    · -- Both halves are lighter than the key, which is no heavier than the triple.
      have hlt := Chore.weight_split (Nat.lt_of_lt_of_le hh.half_high.weight_lt hkey.weight)
        (Nat.lt_of_lt_of_le hh.half_low.weight_lt hkey.weight)
      have hone : (Chore.join v key flip).weight = 1 := rfl
      simp only [weight, totalWeight_cons]
      omega

/-- A join finds the two answers that it combines. -/
theorem Sound.turn_join {m : Bdd} {v : Nat} {key : Triple} {flip : Bool} {rest : List Chore}
    {results : List Edge} {events : List Event}
    (h : Sound ⟨m, .join v key flip :: rest, results, events⟩) :
    ∃ low high more, results = low :: high :: more ∧
      ∃ w', Kept ⟨m, .join v key flip :: rest, results, events⟩ w' := by
  obtain ⟨hv, hk⟩ : v ≠ 0 ∧ Triple.Known m key := h.chores _ List.mem_cons_self
  have hrest : ∀ c ∈ rest, c.Sound m := fun c hc => h.chores c (List.mem_cons_of_mem _ hc)
  obtain ⟨k, hcount, hbalanced⟩ := h.balanced
  match results, hcount with
  | low :: high :: more, hcount =>
    have hknown := h.results
    simp only [List.forall_mem_cons] at hknown
    obtain ⟨hlow, hhigh, hmore⟩ := hknown
    obtain ⟨r, m', joined, hj, hf', hx, hr, -, -⟩ := h.formed.join hk hv hlow hhigh
    refine ⟨low, high, more, rfl, ⟨m', rest, r.negateIf flip :: more, joined ++ events⟩,
      by simp only [Goes, turn, hj], ?_, ?_⟩
    · obtain rfl : more.length = k := by simpa using hcount
      exact {
        formed   := hf'
        chores   := fun c hc => (hrest c hc).mono hx
        results  := List.forall_mem_cons.2 ⟨hr.negateIf flip, fun r hr => (hmore r hr).mono hx⟩
        balanced := hbalanced }
    · have hone : (Chore.join v key flip).weight = 1 := rfl
      simp only [weight, totalWeight_cons]
      omega

/-- Without chores there is one answer, and with chores there is a next turn. -/
theorem Sound.cases {w : Loop} (h : w.Sound) :
    (∃ r, w.turn = .ok (.ended r)) ∨ ∃ w', w.Kept w' := by
  match w, h with
  | ⟨m, [], results, events⟩, h =>
    obtain ⟨r, rfl⟩ := List.length_eq_one_iff.1 h.balanced
    exact .inl ⟨r, rfl⟩
  | ⟨m, .call t :: rest, results, events⟩, h => exact .inr h.turn_call
  | ⟨m, .join v key flip :: rest, results, events⟩, h =>
    obtain ⟨_, _, _, _, hkept⟩ := h.turn_join
    exact .inr hkept

theorem Sound.kept {w w' : Loop} (h : w.Sound) (hgo : w.Goes w') : w.Kept w' := by
  rcases h.cases with ⟨r, hend⟩ | ⟨w₁, hkept⟩
  · have heq := hgo.symm.trans hend
    injection heq with heq
    cases heq
  · exact hgo.unique hkept.goes ▸ hkept

theorem Sound.later {w w' : Loop} (h : w.Sound) (hl : w.Later w') : w'.Sound := by
  induction hl with
  | refl => exact h
  | tail _ hgo ih => exact (ih.kept hgo).sound

/-! ## Whole runs -/

/-- Nothing goes wrong in the next turn. -/
structure Safe (w : Loop) : Prop where
  /-- The turn can be taken. -/
  turns   : ∃ x, w.turn = .ok x
  /-- It leaves less to do. -/
  lighter : ∀ w', w.Goes w' → w'.weight < w.weight
  /-- A call is normalised in two rounds at most.  What is found next is an answer or a split
      on a variable. -/
  call    : ∀ t rest, w.chores = .call t :: rest →
    ∃ n o s m, n ≤ 2 ∧ Rounds n t o ∧ w.diagram.step t = w.diagram.proceed o ∧
      w.diagram.proceed o = (.ok s, m) ∧
      ∀ v key flip high low, s = .split v key flip high low → v ≠ 0
  /-- A join is on a variable and finds two answers. -/
  join    : ∀ v key flip rest, w.chores = .join v key flip :: rest →
    v ≠ 0 ∧ ∃ low high more, w.results = low :: high :: more
  /-- At the end there is one answer. -/
  ended   : w.chores = [] → ∃ r, w.results = [r]
  /-- The walk along a chain of nodes comes to its end, and to no index that is not there. -/
  put     : ∀ d, w.diagram.nodes.put d = .ok (w.diagram.nodes.insert d)
  buckets : ∀ d, w.diagram.nodes.bucket d < w.diagram.nodes.bucketCount
  slots   : ∀ t, w.diagram.memo.slot t < 1 <<< w.diagram.memo.slots.bits

theorem Sound.safe {w : Loop} (h : w.Sound) : w.Safe where
  turns := by
    rcases h.cases with ⟨r, hend⟩ | ⟨w', hkept⟩
    · exact ⟨_, hend⟩
    · exact ⟨_, hkept.goes⟩
  lighter := fun w' hgo => (h.kept hgo).lighter
  call := by
    intro t rest hchores
    have ht : Triple.Known w.diagram t := h.chores (.call t) (by simp [hchores])
    obtain ⟨s, m, hstep, -, -, hsound⟩ := h.formed.step ht
    obtain ⟨n, o, hn, hrounds, hproceed⟩ := rounds_end t
    refine ⟨n, o, s, m, hn, hrounds, hproceed _, (hproceed _).symm.trans hstep, ?_⟩
    rintro v key flip high low rfl
    exact hsound.2.var_ne
  join := by
    intro v key flip rest hchores
    have hj : v ≠ 0 ∧ Triple.Known w.diagram key :=
      h.chores (.join v key flip) (by simp [hchores])
    obtain ⟨m, chores, results, events⟩ := w
    obtain rfl : chores = .join v key flip :: rest := hchores
    obtain ⟨low, high, more, hresults, -⟩ := h.turn_join
    exact ⟨hj.1, low, high, more, hresults⟩
  ended := by
    intro hchores
    have hb := h.balanced
    rw [hchores] at hb
    exact List.length_eq_one_iff.1 hb
  put := h.formed.arena.put_eq
  buckets := w.diagram.nodes.bucket_lt
  slots := w.diagram.memo.slot_lt

end Loop

/-- **If-then-else ends and never faults, whatever the order of variables.** After any script,
    on any three of the edges it was answered with, the loop comes to an end from each of its
    states, and nothing goes wrong in any. -/
theorem ite_loop_safe {s c : Nat} (hs : s ≤ 31) (hc : c ≤ 31) {qs : List (Request Nat)}
    (hq : Admits 2 qs) :
    ∃ m₀ given m ev, ofBits s c = .ok m₀ ∧ m₀.play [.one, .zero] qs = ⟨.ok given, m, ev⟩ ∧
      given.length = 2 + qs.length ∧
      ∀ f ∈ given, ∀ g ∈ given, ∀ h ∈ given, ∃ r m' events,
        m.ite f g h = ⟨.ok r, m', events⟩ ∧
        ∀ w, (Loop.start m ⟨f, g, h⟩).Later w →
          w.Safe ∧ w.Later ⟨m', [], [r], events.reverse⟩ := by
  obtain ⟨m₀, given, m, ev, hm₀, hm, hlength, hf, hknown⟩ := play_formed hs hc hq
  refine ⟨m₀, given, m, ev, hm₀, hm, hlength, fun f hfg g hgg h hhg => ?_⟩
  obtain ⟨r, m', events, hite, -⟩ := hf.ite (hknown f hfg) (hknown g hgg) (hknown h hhg)
  refine ⟨r, m', events, hite, fun w hw => ⟨?_, ?_⟩⟩
  · have ht : Triple.Known m ⟨f, g, h⟩ := ⟨hknown f hfg, hknown g hgg, hknown h hhg⟩
    exact ((Loop.sound_start hf ht).later hw).safe
  · exact Loop.Later.of_ended (Loop.later_of_ite hite) rfl hw

/-- A diagram where variable 2 is below variable 1 and, by another path, above it. -/
theorem ite_loop_safe_unordered :
    ∃ m₀ given m ev, ofBits 0 0 = .ok m₀ ∧
      m₀.play [.one, .zero] [.projection 2, .branch 1 1 2, .projection 1, .branch 2 4 3]
        = ⟨.ok given, m, ev⟩ ∧ given.length = 6 ∧
      ∀ f ∈ given, ∀ g ∈ given, ∀ h ∈ given, ∃ r m' events,
        m.ite f g h = ⟨.ok r, m', events⟩ ∧
        ∀ w, (Loop.start m ⟨f, g, h⟩).Later w →
          w.Safe ∧ w.Later ⟨m', [], [r], events.reverse⟩ := by
  have hadmits : Admits 2 [.projection 2, .branch 1 1 2, .projection 1, .branch 2 4 3] := by
    simp [Admits, Request.operands, Request.Numbered]
  exact ite_loop_safe (by decide : 0 ≤ 31) (by decide : 0 ≤ 31) hadmits

end Bdd

end SatMemo
