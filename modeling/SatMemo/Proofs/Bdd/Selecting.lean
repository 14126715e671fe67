import SatMemo.Proofs.Bdd.History

/-! # If-then-else in a history

    A diagram only grows: a request stores nodes and remembers answers, and
    neither changes what can be read off an edge that is there.  So whatever was
    returned keeps its variable, its two halves and its function for the rest of
    the history (`Later.sameView`).

    If-then-else is the request that reads and writes the memo table.  In a
    history it is answered with an edge for the right function, no higher than
    its operands, and leaves a table behind in which every answer is right. -/

namespace SatMemo

namespace Bdd

/-! ## What can be read off an edge -/

/-- Both diagrams tell the same about an edge. -/
structure SameView (m m' : Bdd) (e : Edge) : Prop where
  variableOf : m'.variableOf e = m.variableOf e
  low        : m'.low e = m.low e
  high       : m'.high e = m.high e
  eval       : ∀ α, m'.eval α e = m.eval α e

theorem SameView.refl (m : Bdd) (e : Edge) : SameView m m e :=
  ⟨rfl, rfl, rfl, fun _ => rfl⟩

theorem SameView.trans {m₁ m₂ m₃ : Bdd} {e : Edge} (h : SameView m₁ m₂ e)
    (h' : SameView m₂ m₃ e) : SameView m₁ m₃ e where
  variableOf := h'.variableOf.trans h.variableOf
  low := h'.low.trans h.low
  high := h'.high.trans h.high
  eval := fun α => (h'.eval α).trans (h.eval α)

/-- A known edge leads to the same decision in every diagram that extends this one. -/
theorem Known.decision_eq {m m' : Bdd} {e : Edge} (h : m.Known e) (hx : m.Extends m') :
    m'.decision e = m.decision e := by
  obtain ⟨d, hd⟩ := h
  have hd' : m'.decision e = .ok d := hx hd
  have hd₀ : m.decision e = .ok d := hd
  rw [hd', hd₀]

/-- Growing changes nothing about a known edge. -/
theorem Known.sameView {m m' : Bdd} {e : Edge} (h : m.Known e) (hf : m.Formed)
    (hf' : m'.Formed) (hx : m.Extends m') : SameView m m' e := by
  have hd := h.decision_eq hx
  refine ⟨?_, ?_, ?_, hf.eval_eq hf' hx h⟩
  · unfold Bdd.variableOf
    rw [hd]
  · unfold Bdd.low
    rw [hd]
  · unfold Bdd.high
    rw [hd]

namespace History

/-- A request leaves alone what was returned before it. -/
theorem Step.sameView {h h' : History} (hs : h.Sound) {q : Request (Edge × BoolFn)}
    (hq : h.Step q h') {x : Edge × BoolFn} (hx : x ∈ h.given) :
    SameView h.diagram h'.diagram x.1 := by
  obtain ⟨_, r, m', events, hrun, ho, hext, _, _, _⟩ := hs.perform hq.operands hq.allowed
  obtain ⟨r', events', hrun', _⟩ := hq.answer
  -- The diagram that the request is known to leave behind is that of `h'`.
  rw [hrun] at hrun'
  injection hrun' with _ hm' _
  rw [hm'] at ho hext
  exact (hs.known x hx).sameView hs.ordered.toFormed ho.toFormed hext

/-- **What is returned stays as it is.** An edge keeps its variable, its halves and its
    function for the rest of the history. -/
theorem Later.sameView {h h' : History} (hs : h.Sound) (hl : h.Later h')
    {x : Edge × BoolFn} (hx : x ∈ h.given) : SameView h.diagram h'.diagram x.1 := by
  induction hl with
  | refl => exact .refl _ _
  | step hl hq ih => exact ih.trans (hq.sameView (hs.later hl) (hl.given_subset hx))

/-! ## If-then-else -/

/-- **If-then-else is right and disturbs nothing.** Whatever was asked of a diagram before,
    over stores of any sizes, if-then-else on edges returned before does not fault, and

    - the edge it returns has the value of `g` where `f` is true and that of `k` where it is
      false;
    - it branches on no variable above those of its operands;
    - every answer in the memo table afterwards, from whatever call, is an edge of the diagram
      with the value that if-then-else has on the edges of its key;
    - every edge returned before keeps its variable, its halves and its value. -/
theorem reached_ite {storageBits memoBits : Nat} {h : History}
    (hr : Reached storageBits memoBits h) :
    ∀ f ∈ h.given, ∀ g ∈ h.given, ∀ k ∈ h.given, ∃ r m' events,
      h.diagram.ite f.1 g.1 k.1 = ⟨.ok r, m', events⟩ ∧
      (∀ α, m'.eval α r
        = if h.diagram.eval α f.1 then h.diagram.eval α g.1 else h.diagram.eval α k.1) ∧
      (∃ v vf vg vk, m'.variableOf r = .ok v ∧ h.diagram.variableOf f.1 = .ok vf ∧
        h.diagram.variableOf g.1 = .ok vg ∧ h.diagram.variableOf k.1 = .ok vk ∧
        v ≤ max (max vf vg) vk) ∧
      (∀ F G K R, m'.memo.peek? ⟨F, G, K⟩ = some R →
        (m'.Known F ∧ m'.Known G ∧ m'.Known K ∧ m'.Known R) ∧
        ∀ α, m'.eval α R = if m'.eval α F then m'.eval α G else m'.eval α K) ∧
      ∀ x ∈ h.given, SameView h.diagram m' x.1 := by
  intro f hf g hg k hk
  have hs := hr.sound
  have hfm := hs.ordered.toFormed
  have hfk := hs.known f hf
  have hgk := hs.known g hg
  have hkk := hs.known k hk
  have ht : Triple.Known h.diagram ⟨f.1, g.1, k.1⟩ := ⟨hfk, hgk, hkk⟩
  obtain ⟨r, m', events, hrun, ha⟩ := hfm.ite hfk hgk hkk
  have ho := ha.ordered hs.ordered
  have hsol := ha.solves hs.ordered
  refine ⟨r, m', events, hrun, ?_, ?_, ?_, ?_⟩
  · intro α
    rw [hsol.eval, ht.eval_eq hfm ha.formed ha.extended]
    rfl
  · refine ⟨_, _, _, _, ha.known.variableOf_eq, hfk.variableOf_eq, hgk.variableOf_eq,
      hkk.variableOf_eq, ?_⟩
    -- The level of the triple is the greatest of those of its operands.
    have hle := hsol.level
    rwa [ht.level_eq ha.extended] at hle
  · intro F G K R hR
    have hkey := ho.keys hR
    exact ⟨⟨hkey.f, hkey.g, hkey.h, ho.answers hR⟩, (ho.memo hR).eval⟩
  · intro x hx
    exact (hs.known x hx).sameView hfm ha.formed ha.extended

/-- A variable can be asked for at any time. -/
theorem Sound.exists_projection {h : History} (hs : h.Sound) {v : Nat} (hv : 1 ≤ v) :
    ∃ h' x, h.Step (.projection v) h' ∧ x ∈ h'.given ∧ x.2 = .var v := by
  obtain ⟨h', hstep⟩ := hs.exists_step (q := .projection v) (fun _ hx => nomatch hx) hv
  obtain ⟨r, _, _, hgiven⟩ := hstep.answer
  refine ⟨h', (r, .var v), hstep, ?_, rfl⟩
  rw [hgiven]
  exact List.mem_cons_self ..

/-- After two variables were asked for, if-then-else makes their conjunction, and the first
    one stays the variable it was. -/
theorem reached_ite_conjunction :
    ∃ h, Reached 4 4 h ∧ ∃ x ∈ h.given, ∃ y ∈ h.given, ∃ r m' events,
      h.diagram.ite x.1 y.1 .zero = ⟨.ok r, m', events⟩ ∧
      (∀ α, m'.eval α r = (α 1 && α 2)) ∧ m'.variableOf x.1 = h.diagram.variableOf x.1 := by
  have hbits : 4 ≤ 31 := by decide
  obtain ⟨m, hm⟩ := exists_ofBits_eq_ok hbits hbits
  have hs := sound_start hm
  obtain ⟨h₁, x, hstep₁, hx, hx'⟩ := hs.exists_projection (v := 1) (by decide)
  obtain ⟨h₂, y, hstep₂, hy, hy'⟩ := (hs.step hstep₁).exists_projection (v := 2) (by decide)
  have hl : (start m).Later h₂ := .step (.step .refl hstep₁) hstep₂
  have hr : Reached 4 4 h₂ := ⟨m, hm, hl⟩
  have hx₂ : x ∈ h₂.given := hstep₂.given_subset hx
  have hzero : (Edge.zero, BoolFn.const false) ∈ h₂.given :=
    hl.given_subset (List.mem_cons_of_mem _ (List.mem_cons_self ..))
  obtain ⟨r, m', events, hrun, hval, _, _, hsame⟩ := reached_ite hr x hx₂ y hy _ hzero
  refine ⟨h₂, hr, x, hx₂, y, hy, r, m', events, hrun, ?_, (hsame x hx₂).variableOf⟩
  intro α
  rw [hval, hr.sound.eval x hx₂, hr.sound.eval y hy, hr.sound.eval _ hzero, hx', hy']
  show (if α 1 then α 2 else false) = (α 1 && α 2)
  cases α 1 <;> rfl

end History

end Bdd

end SatMemo
