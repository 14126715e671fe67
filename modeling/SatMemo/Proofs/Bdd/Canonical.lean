import SatMemo.Proofs.Bdd.Connectives

/-! # Canonicity

    In an ordered diagram two edges are equal if they denote the same function:
    split both at the greater of their variables; the halves denote the same
    functions, so they are equal, and then so are the nodes, since no decision is
    stored twice, and the marks, since high edges carry none.

    So the constant false is the only edge to an unsatisfiable function, and a
    glance at an edge decides it. -/

namespace SatMemo

namespace Bdd

/-! ## Equal functions, equal edges -/

/-- The cofactors of an edge have the values of the edge where the variable is fixed. -/
theorem Ordered.eval_cofactor {m : Bdd} (h : m.Ordered) {e c₀ c₁ : Edge} {v : Nat}
    (h₀ : m.Cofactor e v c₀) (h₁ : m.Cofactor e v c₁)
    (he : ∀ α, m.eval α e = if α v then m.eval α c₁ else m.eval α c₀) (α : Nat → Bool)
    (b : Bool) :
    m.eval (fun u => if u = v then b else α u) e
      = if b then m.eval α c₁ else m.eval α c₀ := by
  -- A cofactor does not reach up to the variable, and so does not see it fixed.
  have hfix : ∀ {c}, m.Cofactor e v c →
      m.eval (fun u => if u = v then b else α u) c = m.eval α c := by
    intro c hc
    apply h.eval_congr hc.known
    intro u _ hu
    have := hc.level_lt h
    exact if_neg (by omega)
  rw [he, if_pos rfl, hfix h₀, hfix h₁]

/-- If one of two edges branches on the variable, cofactors of both have smaller indices
    together. -/
theorem Cofactor.index_add_lt {m : Bdd} {e e' c c' : Edge} {v : Nat} (h : m.Cofactor e v c)
    (h' : m.Cofactor e' v c') (hsome : m.level e = v ∨ m.level e' = v) :
    c.index + c'.index < e.index + e'.index := by
  have hle := h.index_le
  have hle' := h'.index_le
  rcases hsome with hv | hv
  · have hlt := h.index_lt hv
    omega
  · have hlt := h'.index_lt hv
    omega

/-- Two edges that branch on the same variable and have the same halves are equal. -/
theorem Ordered.eq_of_halves_eq {m : Bdd} (h : m.Ordered) {r s : Edge} {dr ds : Decision}
    (hr : m.Stores r.index dr) (hs : m.Stores s.index ds) (hr₁ : r.index ≠ 1)
    (hs₁ : s.index ≠ 1) (hv : dr.var = ds.var)
    (hlow : dr.low.negateIf r.isNegated = ds.low.negateIf s.isNegated)
    (hhigh : dr.high.negateIf r.isNegated = ds.high.negateIf s.isNegated) : r = s := by
  have hpr := h.proper hr hr₁
  have hps := h.proper hs hs₁
  -- High edges carry no mark, so the marks of their complements are those of `r` and `s`.
  have hmark : r.isNegated = s.isNegated := by
    have := congrArg Edge.isNegated hhigh
    rwa [Edge.isNegated_negateIf (h.known_high hr hr₁).index_ne_zero,
      Edge.isNegated_negateIf (h.known_high hs hs₁).index_ne_zero, hpr.plain, hps.plain,
      Bool.bne_false, Bool.bne_false] at this
  rw [hmark] at hlow hhigh
  have hd : dr = ds := by
    cases dr
    cases ds
    cases hv
    cases Edge.negateIf_injective hlow
    cases Edge.negateIf_injective hhigh
    rfl
  rw [hd] at hr
  exact Edge.eq_of_index_eq (h.arena.distinct hr hs) hmark

/-- An edge that branches on a variable has two different halves. -/
theorem Formed.halves_ne {m : Bdd} (h : m.Formed) {r : Edge} {d : Decision}
    (hd : m.Stores r.index d) (hr : r.index ≠ 1) :
    d.low.negateIf r.isNegated ≠ d.high.negateIf r.isNegated :=
  fun heq => (h.proper hd hr).differ (Edge.negateIf_injective heq)

/-- Constants are told apart by any assignment. -/
theorem Formed.eq_of_constant {m : Bdd} (h : m.Formed) {r s : Edge} (hr : r.index = 1)
    (hs : s.index = 1) (α : Nat → Bool) (heq : m.eval α r = m.eval α s) : r = s := by
  have h₁ := h.eval_one α
  have h₀ := h.eval_zero α
  rcases Edge.eq_one_or_eq_zero hr with rfl | rfl <;>
    rcases Edge.eq_one_or_eq_zero hs with rfl | rfl
  · rfl
  · rw [h₁, h₀] at heq
    cases heq
  · rw [h₁, h₀] at heq
    cases heq
  · rfl

/-- Edges of an ordered diagram that denote the same function are equal. -/
theorem Ordered.eq_of_eval_eq {m : Bdd} (h : m.Ordered) {r s : Edge} (hr : m.Known r)
    (hs : m.Known s) (heq : ∀ α, m.eval α r = m.eval α s) : r = s := by
  -- Induction on the sum of the indices, which goes down with the edge that branches on `v`.
  induction hn : r.index + s.index using Nat.strongRecOn generalizing r s with
  | ind n ih =>
    obtain ⟨dr, hdr⟩ := hr
    obtain ⟨ds, hds⟩ := hs
    have lr := level_of_stores hdr
    have ls := level_of_stores hds
    by_cases hv : max dr.var ds.var = 0
    · -- Neither has a variable, so both are constants.
      have hr₁ := (h.var_eq_zero_iff hdr).1 (by omega)
      have hs₁ := (h.var_eq_zero_iff hds).1 (by omega)
      exact h.eq_of_constant hr₁ hs₁ (fun _ => false) (heq _)
    · generalize hmax : max dr.var ds.var = v at hv
      obtain ⟨r₀, r₁, hre⟩ := h.cofactors hdr hv (by omega)
      obtain ⟨s₀, s₁, hse⟩ := h.cofactors hds hv (by omega)
      have hsome : dr.var = v ∨ ds.var = v := by omega
      have hlevel : m.level r = v ∨ m.level s = v := by omega
      have hlt₀ := r₀.index_add_lt s₀ hlevel
      have hlt₁ := r₁.index_add_lt s₁ hlevel
      rw [hn] at hlt₀ hlt₁
      -- Fixing the variable gives the halves, which therefore denote the same functions.
      have hfix := fun (α : Nat → Bool) b => heq fun u => if u = v then b else α u
      simp only [h.eval_cofactor r₀ r₁ hre, h.eval_cofactor s₀ s₁ hse] at hfix
      have hlow := ih _ hlt₀ r₀.known s₀.known (fun α => hfix α false) rfl
      have hhigh := ih _ hlt₁ r₁.known s₁.known (fun α => hfix α true) rfl
      unfold Bdd.cofactors at hlow hhigh
      by_cases hvr : dr.var = v
      · have hr₁ : r.index ≠ 1 := fun hr₁ => hv (hvr ▸ (h.var_eq_zero_iff hdr).2 hr₁)
        by_cases hvs : ds.var = v
        · have hs₁ : s.index ≠ 1 := fun hs₁ => hv (hvs ▸ (h.var_eq_zero_iff hds).2 hs₁)
          rw [if_pos hvr, if_pos hvs] at hlow hhigh
          exact h.eq_of_halves_eq hdr hds hr₁ hs₁ (hvr.trans hvs.symm) hlow hhigh
        · -- Only `r` branches on `v`, and both of its halves would be `s`.
          rw [if_pos hvr, if_neg hvs] at hlow hhigh
          exact absurd (hlow.trans hhigh.symm) (h.halves_ne hdr hr₁)
      · have hvs : ds.var = v := hsome.resolve_left hvr
        have hs₁ : s.index ≠ 1 := fun hs₁ => hv (hvs ▸ (h.var_eq_zero_iff hds).2 hs₁)
        rw [if_neg hvr, if_pos hvs] at hlow hhigh
        exact absurd (hlow.symm.trans hhigh) (h.halves_ne hds hs₁)

/-- A function that is not the constant false one is true somewhere. -/
theorem Ordered.isSatisfiable_iff {m : Bdd} (h : m.Ordered) {r : Edge} (hr : m.Known r) :
    isSatisfiable r = true ↔ ∃ α, m.eval α r = true := by
  rw [isSatisfiable, decide_eq_true_iff]
  constructor
  · intro hne
    -- A function that is true nowhere is that of the constant false.
    apply Classical.byContradiction
    intro hnone
    apply hne
    apply h.eq_of_eval_eq hr h.known_zero
    intro α
    rw [h.eval_zero]
    exact Bool.eq_false_iff.2 fun hα => hnone ⟨α, hα⟩
  · rintro ⟨α, hα⟩ rfl
    rw [h.eval_zero] at hα
    cases hα

end Bdd

end SatMemo
