import SatMemo.Proofs.Bdd.Denotation
import SatMemo.Proofs.Bdd.Recursion

/-! # If-then-else is total and right

    One step either reads the answer off the operands or the memo table, or
    splits the triple into two smaller ones.  Smaller means that the sum of the
    three indices is: a split replaces some operand by a child of it and no
    operand by anything greater.  This needs no order of variables.  In an
    ordered diagram the two halves also stay below the variable of the split,
    and the values fit together.

    `Formed.ite` is the outcome for whole runs: if-then-else on edges of a
    well-formed diagram comes to an edge of a well-formed diagram that extends
    it, and in an ordered diagram to the right one. -/

namespace SatMemo

namespace Bdd

/-! ## Reading the answer off -/

/-- What the recursion counts down. -/
def Triple.weight (t : Triple) : Nat :=
  t.f.index + t.g.index + t.h.index

theorem Triple.level_f_le (m : Bdd) (t : Triple) : m.level t.f ≤ Triple.level m t := by
  unfold Triple.level
  omega

theorem Triple.level_g_le (m : Bdd) (t : Triple) : m.level t.g ≤ Triple.level m t := by
  unfold Triple.level
  omega

theorem Triple.level_h_le (m : Bdd) (t : Triple) : m.level t.h ≤ Triple.level m t := by
  unfold Triple.level
  omega

/-- An answer that can be read off is one of the operands or a complement of one. -/
theorem immediate?_known {m : Bdd} {t : Triple} (ht : Triple.Known m t) {r : Edge}
    (hr : immediate? t = some r) : m.Known r := by
  unfold immediate? at hr
  split at hr
  · exact Option.some.inj hr ▸ ht.g
  · split at hr
    · exact Option.some.inj hr ▸ ht.h
    · split at hr
      · exact Option.some.inj hr ▸ ht.f
      · split at hr
        · exact Option.some.inj hr ▸ ht.f.neg
        · cases hr

theorem Formed.immediate?_solves {m : Bdd} (hf : m.Formed) {t : Triple} (ht : Triple.Known m t)
    {r : Edge} (hr : immediate? t = some r) : m.Solves t r := by
  have lf := Triple.level_f_le m t
  have lg := Triple.level_g_le m t
  have lh := Triple.level_h_le m t
  unfold immediate? at hr
  split at hr
  · cases hr
    refine ⟨lg, fun α => ?_⟩
    unfold Triple.eval
    -- The condition is true, or both branches are the same edge.
    rcases ‹t.f = .one ∨ t.g = t.h› with h | h
    · rw [h, hf.eval_one, if_pos rfl]
    · rw [h, ite_self]
  · split at hr
    · cases hr
      refine ⟨lh, fun α => ?_⟩
      unfold Triple.eval
      -- The condition is false.
      rw [‹t.f = .zero›, hf.eval_zero]
      rfl
    · split at hr
      · cases hr
        refine ⟨lf, fun α => ?_⟩
        unfold Triple.eval
        -- The branches are true and false, so the answer is the condition.
        rw [‹t.g = .one ∧ _›.1, ‹_ ∧ t.h = .zero›.2, hf.eval_one, hf.eval_zero]
        cases m.eval α t.f <;> rfl
      · split at hr
        · cases hr
          refine ⟨by rw [level_neg]; exact lf, fun α => ?_⟩
          unfold Triple.eval
          -- The branches are false and true, so it is the complement of the condition.
          rw [‹t.g = .zero ∧ _›.1, ‹_ ∧ t.h = .one›.2, hf.eval_one, hf.eval_zero, ht.f.eval_neg]
          cases m.eval α t.f <;> rfl
        · cases hr

/-- Where the answer cannot be read off, the condition is no constant. -/
theorem index_f_ne_one {t : Triple} (h : immediate? t = none) : t.f.index ≠ 1 := by
  intro hi
  unfold immediate? at h
  -- Both edges to the terminal are read off, as a true and as a false condition.
  rcases Edge.eq_one_or_eq_zero hi with h₁ | h₀
  · simp [h₁] at h
  · rw [h₀] at h
    split at h
    · cases h
    · simp at h

/-! ## Normal triples -/

/-- A triple that may be looked up in place of `t`, its answer complemented if `flip`
    holds. -/
structure Reduces (m : Bdd) (t : Triple) (key : Triple) (flip : Bool) : Prop where
  known  : Triple.Known m key
  weight : Triple.weight key ≤ Triple.weight t
  level  : Triple.level m key ≤ Triple.level m t
  eval   : ∀ α, Triple.eval m α t = (flip != Triple.eval m α key)

theorem Reduces.trans {m : Bdd} {t t' t'' : Triple} {flip : Bool} (h : m.Reduces t t' false)
    (h' : m.Reduces t' t'' flip) : m.Reduces t t'' flip where
  known := h'.known
  weight := Nat.le_trans h'.weight h.weight
  level := Nat.le_trans h'.level h.level
  eval := by
    intro α
    rw [h.eval, Bool.false_bne, h'.eval]

/-- The edge `y` may replace the edge `x` wherever `P` holds of the assignment. -/
structure Replaces (m : Bdd) (P : (Nat → Bool) → Prop) (x y : Edge) : Prop where
  known : m.Known y
  index : y.index ≤ x.index
  level : m.level y ≤ m.level x
  eval  : ∀ α, P α → m.eval α y = m.eval α x

/-- Where the condition has the value of a constant, the constant may replace it, and the
    other constant its complement. -/
theorem Formed.replaces {m : Bdd} (hf : m.Formed) {f x c : Edge} (hfk : m.Known f)
    (hx : m.Known x) (hc : c = .one ∨ c = .zero) :
    m.Replaces (fun α => m.eval α f = m.eval α c) x
      (if x = f then c else if x = -f then -c else x) := by
  -- A constant has the least index and the least level that there are.
  have hpos := (known_iff.1 hx).1
  have hck : m.Known c := by
    rcases hc with rfl | rfl
    · exact hf.known_one
    · exact hf.known_zero
  have hci : c.index = 1 := by
    rcases hc with rfl | rfl <;> rfl
  have hcl : m.level c = 0 := (hf.level_eq_zero_iff hck).2 hci
  split
  · refine ⟨hck, by omega, by omega, fun α hα => ?_⟩
    rw [‹x = f›, hα]
  · split
    · refine ⟨hck.neg, by rw [Edge.index_neg]; omega, by rw [level_neg]; omega, fun α hα => ?_⟩
      rw [‹x = -f›, hck.eval_neg, hfk.eval_neg, hα]
    · exact ⟨hx, Nat.le_refl _, Nat.le_refl _, fun α _ => rfl⟩

/-- Replacing operands by constants where the condition decides them. -/
theorem Formed.reduces_substitute {m : Bdd} (hf : m.Formed) {t : Triple}
    (ht : Triple.Known m t) : m.Reduces t (substitute t) false := by
  have hg : m.Replaces _ t.g (substitute t).g := hf.replaces (c := .one) ht.f ht.g (.inl rfl)
  have hh : m.Replaces _ t.h (substitute t).h := hf.replaces (c := .zero) ht.f ht.h (.inr rfl)
  have hi := hg.index
  have hj := hh.index
  have hl := hg.level
  have hk := hh.level
  have hsame : (substitute t).f = t.f := rfl
  refine ⟨⟨ht.f, hg.known, hh.known⟩, ?_, ?_, fun α => ?_⟩
  · unfold Triple.weight
    rw [hsame]
    omega
  · unfold Triple.level
    rw [hsame]
    omega
  · unfold Triple.eval
    rw [hsame, Bool.false_bne]
    cases hα : m.eval α t.f with
    | true  => exact (hg.eval α (by rw [hα, hf.eval_one])).symm
    | false => exact (hh.eval α (by rw [hα, hf.eval_zero])).symm

theorem reduces_plainCondition {m : Bdd} {t : Triple} (ht : Triple.Known m t) :
    m.Reduces t (plainCondition t) false := by
  unfold plainCondition
  split
  · -- A complemented condition exchanges the branches.
    refine ⟨⟨ht.f.neg, ht.h, ht.g⟩, ?_, ?_, fun α => ?_⟩
    · simp only [Triple.weight, Edge.index_neg]
      omega
    · simp only [Triple.level, level_neg]
      omega
    · simp only [Triple.eval, ht.f.eval_neg]
      cases m.eval α t.f <;> simp
  · exact ⟨ht, Nat.le_refl _, Nat.le_refl _, fun α => (Bool.false_bne _).symm⟩

theorem reduces_plainBranch {m : Bdd} {t : Triple} (ht : Triple.Known m t) :
    m.Reduces t (plainBranch t).1 (plainBranch t).2 := by
  unfold plainBranch
  split
  · -- Complementing both branches complements the answer.
    refine ⟨⟨ht.f, ht.g.neg, ht.h.neg⟩, ?_, ?_, fun α => ?_⟩
    · simp only [Triple.weight, Edge.index_neg]
      omega
    · simp only [Triple.level, level_neg]
      omega
    · simp only [Triple.eval, ht.g.eval_neg, ht.h.eval_neg]
      cases m.eval α t.f <;> simp
  · exact ⟨ht, Nat.le_refl _, Nat.le_refl _, fun α => (Bool.false_bne _).symm⟩

theorem index_f_plain (t : Triple) :
    (plainBranch (plainCondition t)).1.f.index = t.f.index := by
  unfold plainBranch plainCondition
  split <;> split <;> simp

/-! ## Splitting -/

/-- What either cofactor `c` of an edge at `v` has to do with the edge. -/
structure Cofactor (m : Bdd) (e : Edge) (v : Nat) (c : Edge) : Prop where
  known    : m.Known c
  index_le : c.index ≤ e.index
  /-- At its own variable an edge is left behind. -/
  index_lt : m.level e = v → c.index < e.index
  level_lt : m.Ordered → m.level c < v

theorem Formed.cofactors {m : Bdd} (hf : m.Formed) {e : Edge} {d : Decision}
    (hd : m.Stores e.index d) {v : Nat} (hv : v ≠ 0) (hle : d.var ≤ v) :
    m.Cofactor e v (cofactors e d v).1 ∧ m.Cofactor e v (cofactors e d v).2 ∧
      ∀ α, m.eval α e
        = if α v then m.eval α (cofactors e d v).2 else m.eval α (cofactors e d v).1 := by
  have hlevel := level_of_stores hd
  unfold Bdd.cofactors
  split
  · rename_i heq
    -- The edge branches on `v`: its cofactors are its children, complemented like it.
    have he : e.index ≠ 1 := fun he => hv (heq ▸ (hf.var_eq_zero_iff hd).2 he)
    have hp := hf.proper hd he
    refine ⟨⟨(hf.known_low hd he).negateIf _, ?_, ?_, ?_⟩,
      ⟨(hf.known_high hd he).negateIf _, ?_, ?_, ?_⟩, ?_⟩
    · rw [Edge.index_negateIf]
      exact Nat.le_of_lt hp.low_lt
    · rw [Edge.index_negateIf]
      exact fun _ => hp.low_lt
    · rw [level_negateIf, ← heq]
      exact fun ho => ho.low_lt hd he
    · rw [Edge.index_negateIf]
      exact Nat.le_of_lt hp.high_lt
    · rw [Edge.index_negateIf]
      exact fun _ => hp.high_lt
    · rw [level_negateIf, ← heq]
      exact fun ho => ho.high_lt hd he
    · intro α
      rw [hf.eval_of_stores hd he, heq]
  · rename_i hne
    -- It branches on a smaller variable, and both cofactors are the edge itself.
    have hc : m.Cofactor e v e :=
      ⟨⟨d, hd⟩, Nat.le_refl _, fun h => absurd (hlevel.symm.trans h) hne, fun _ => by omega⟩
    exact ⟨hc, hc, fun α => (ite_self _).symm⟩

/-- What either half of a split of `key` at `v` has to do with the key. -/
structure Half (m : Bdd) (key : Triple) (v : Nat) (half : Triple) : Prop where
  known     : Triple.Known m half
  weight_lt : Triple.weight half < Triple.weight key
  level_lt  : m.Ordered → Triple.level m half < v

/-- Cofactors of all operands at the greatest variable make a half: the operand that
    branches on it is replaced by a child. -/
theorem Cofactor.half {m : Bdd} {t : Triple} {v : Nat} (hv : Triple.level m t = v)
    {f g h : Edge} (hf : m.Cofactor t.f v f) (hg : m.Cofactor t.g v g)
    (hh : m.Cofactor t.h v h) : m.Half t v ⟨f, g, h⟩ where
  known := ⟨hf.known, hg.known, hh.known⟩
  weight_lt := by
    have hle : f.index ≤ t.f.index ∧ g.index ≤ t.g.index ∧ h.index ≤ t.h.index :=
      ⟨hf.index_le, hg.index_le, hh.index_le⟩
    have hlt : f.index < t.f.index ∨ g.index < t.g.index ∨ h.index < t.h.index := by
      unfold Triple.level at hv
      -- The greatest level is that of one operand at least.
      have hsome : m.level t.f = v ∨ m.level t.g = v ∨ m.level t.h = v := by omega
      rcases hsome with h | h | h
      · exact .inl (hf.index_lt h)
      · exact .inr (.inl (hg.index_lt h))
      · exact .inr (.inr (hh.index_lt h))
    show f.index + g.index + h.index < t.f.index + t.g.index + t.h.index
    omega
  level_lt := by
    intro ho
    have := hf.level_lt ho
    have := hg.level_lt ho
    have := hh.level_lt ho
    show max (max (m.level f) (m.level g)) (m.level h) < v
    omega

/-- What a split of `key` at `v` into `high` and `low` has to do with it. -/
structure Halved (m : Bdd) (key : Triple) (v : Nat) (high low : Triple) : Prop where
  var_ne    : v ≠ 0
  level     : Triple.level m key = v
  half_high : m.Half key v high
  half_low  : m.Half key v low
  eval      : ∀ α, Triple.eval m α key
    = if α v then Triple.eval m α high else Triple.eval m α low

/-- A triple whose condition is no constant can be split at its greatest variable. -/
theorem Formed.splitAt {m : Bdd} (hf : m.Formed) {t : Triple} (ht : Triple.Known m t)
    (hc : t.f.index ≠ 1) (flip : Bool) :
    ∃ v high low, m.splitAt t flip = .ok (.split v t flip high low) ∧ m.Halved t v high low := by
  obtain ⟨df, hdf⟩ := ht.f
  obtain ⟨dg, hdg⟩ := ht.g
  obtain ⟨dh, hdh⟩ := ht.h
  have hvar : df.var ≠ 0 := fun h => hc ((hf.var_eq_zero_iff hdf).1 h)
  -- The condition is no constant, so its variable is not that of the terminal.
  generalize hv : max (max df.var dg.var) dh.var = v
  have hv₀ : v ≠ 0 := by omega
  have hlevel : Triple.level m t = v := by
    rw [← hv, ← level_of_stores hdf, ← level_of_stores hdg, ← level_of_stores hdh]
    rfl
  obtain ⟨f₀, f₁, hfe⟩ := hf.cofactors hdf hv₀ (by omega)
  obtain ⟨g₀, g₁, hge⟩ := hf.cofactors hdg hv₀ (by omega)
  obtain ⟨h₀, h₁, hhe⟩ := hf.cofactors hdh hv₀ (by omega)
  refine ⟨v, _, _, ?_, hv₀, hlevel, f₁.half hlevel g₁ h₁, f₀.half hlevel g₀ h₀, fun α => ?_⟩
  · unfold Stores at hdf hdg hdh
    simp only [Bdd.splitAt, decision, hdf, hdg, hdh, bind, Except.bind, pure, Except.pure, hv]
  · unfold Triple.eval
    rw [hfe α, hge α, hhe α]
    cases α v <;> rfl

/-! ## One step -/

/-- What a step of a diagram finds about a triple. -/
def Step.Sound (m : Bdd) (t : Triple) : Step → Prop
  | .done r => m.Known r ∧ (m.Ordered → m.Solves t r)
  | .split v key flip high low => m.Reduces t key flip ∧ m.Halved key v high low

/-- A remembered answer, complemented where the key stands for the complement. -/
theorem Reduces.solves {m : Bdd} {t key : Triple} {flip : Bool} (h : m.Reduces t key flip)
    {r : Edge} (hr : m.Known r) (hs : m.Solves key r) : m.Solves t (r.negateIf flip) where
  level := by
    rw [level_negateIf]
    exact Nat.le_trans hs.level h.level
  eval := by
    intro α
    rw [hr.eval_negateIf, hs.eval, h.eval]

/-- Looking a normal triple up, and splitting it otherwise. -/
theorem Formed.lookup {m : Bdd} (hf : m.Formed) {t key : Triple} {flip : Bool}
    (hk : m.Reduces t key flip) (hc : key.f.index ≠ 1) :
    ∃ s m', m.lookup key flip = (.ok s, m') ∧ m.Alike m' ∧ SameElsewhere m m' ∧
      Step.Sound m t s := by
  cases m with
  | mk nodes memo varCount names =>
    have hfst := memo.fst_get key
    have hsnd := memo.peek?_snd_get key
    rcases hget : memo.get key with ⟨_ | r, memo'⟩
    · rw [hget] at hsnd
      have hl : Alike ⟨nodes, memo, varCount, names⟩ ⟨nodes, memo', varCount, names⟩ :=
        ⟨rfl, hsnd⟩
      obtain ⟨v, high, low, hs, hh⟩ := hf.splitAt hk.known hc flip
      -- Nothing is remembered of the key.
      refine ⟨.split v key flip high low, ⟨nodes, memo', varCount, names⟩, ?_, hl, ⟨rfl, rfl⟩, hk,
        hh⟩
      simp only [Bdd.lookup, hget]
      rw [← hs]
      rfl
    · rw [hget] at hfst hsnd
      have hl : Alike ⟨nodes, memo, varCount, names⟩ ⟨nodes, memo', varCount, names⟩ :=
        ⟨rfl, hsnd⟩
      -- An answer is remembered, and it was right when it was stored.
      have hr : memo.peek? key = some r := hfst.symm
      refine ⟨.done (r.negateIf flip), _, by simp only [Bdd.lookup, hget], hl,
        ⟨rfl, rfl⟩, (hf.answers hr).negateIf flip, fun ho => ?_⟩
      exact hk.solves (hf.answers hr) (ho.memo hr)

/-- One step of if-then-else. -/
theorem Formed.step {m : Bdd} (hf : m.Formed) {t : Triple} (ht : Triple.Known m t) :
    ∃ s m', m.step t = (.ok s, m') ∧ m.Alike m' ∧ SameElsewhere m m' ∧
      Step.Sound m t s := by
  unfold Bdd.step
  cases h₁ : immediate? t with
  | some r =>
    exact ⟨.done r, m, rfl, Alike.refl m, SameElsewhere.refl m, immediate?_known ht h₁,
      fun _ => hf.immediate?_solves ht h₁⟩
  | none =>
    have hsub := hf.reduces_substitute ht
    cases h₂ : immediate? (substitute t) with
    | some r =>
      have hr := immediate?_known hsub.known h₂
      have hs := hsub.solves hr (hf.immediate?_solves hsub.known h₂)
      exact ⟨.done r, m, by simp only [h₂], Alike.refl m, SameElsewhere.refl m, hr,
        fun _ => hs⟩
    | none =>
      -- The key is the triple after three replacements, none of which adds weight.
      have hcond := hsub.trans (reduces_plainCondition hsub.known)
      have hkey := hcond.trans (reduces_plainBranch hcond.known)
      have hc := index_f_ne_one h₂
      rw [← index_f_plain] at hc
      simpa only [h₂] using hf.lookup hkey hc

/-! ## Joining two halves -/

theorem extends_remember (m : Bdd) (key : Triple) (r : Edge) :
    m.Extends (m.remember key r) := by
  cases m
  exact Extends.of_nodes_eq rfl

theorem sameElsewhere_remember (m : Bdd) (key : Triple) (r : Edge) :
    SameElsewhere m (m.remember key r) := by
  cases m
  exact ⟨rfl, rfl⟩

/-- What is remembered after a new answer was. -/
theorem peek?_of_remember {m : Bdd} {key t : Triple} {r r' : Edge}
    (h : (m.remember key r).memo.peek? t = some r') :
    key = t ∧ r = r' ∨ m.memo.peek? t = some r' := by
  cases m
  exact Memo.peek?_of_peek?_insert h

theorem Formed.remember {m : Bdd} (hf : m.Formed) {key : Triple} {r : Edge}
    (hk : Triple.Known m key) (hr : m.Known r) : (m.remember key r).Formed := by
  have hx := extends_remember m key r
  refine ⟨?_, hx hf.terminal, ?_, ?_, ?_⟩
  · cases m
    exact hf.arena
  · intro i d hd
    cases m
    exact hf.proper hd
  · intro t r' h
    rcases peek?_of_remember h with ⟨rfl, _⟩ | h
    · exact hk.mono hx
    · exact (hf.keys h).mono hx
  · intro t r' h
    rcases peek?_of_remember h with ⟨_, rfl⟩ | h
    · exact hr.mono hx
    · exact (hf.answers h).mono hx

theorem Ordered.remember {m : Bdd} (ho : m.Ordered) {key : Triple} {r : Edge}
    (hk : Triple.Known m key) (hr : m.Known r) (hs : m.Solves key r) :
    (m.remember key r).Ordered := by
  have hx := extends_remember m key r
  have hf := ho.toFormed.remember hk hr
  refine ⟨hf, ?_, ?_, ?_⟩
  · intro i d hd hi
    cases m
    exact ho.low_lt hd hi
  · intro i d hd hi
    cases m
    exact ho.high_lt hd hi
  · intro t r' h
    rcases peek?_of_remember h with ⟨rfl, rfl⟩ | h
    · exact hs.mono ho.toFormed hf hx hk hr
    · exact (ho.memo h).mono ho.toFormed hf hx (ho.keys h) (ho.answers h)

/-- What it means that a diagram came to an answer for a triple. -/
structure Answered (m : Bdd) (t : Triple) (r : Edge) (m' : Bdd) : Prop where
  formed   : m'.Formed
  extended : m.Extends m'
  known    : m'.Known r
  same     : SameElsewhere m m'
  ordered  : m.Ordered → m'.Ordered
  solves   : m.Ordered → m'.Solves t r

/-- The answers `low` and `high` for two halves fit together to one for `key`. -/
structure Fits (m : Bdd) (key : Triple) (v : Nat) (low high : Edge) : Prop where
  level   : Triple.level m key = v
  low_lt  : m.level low < v
  high_lt : m.level high < v
  eval    : ∀ α, Triple.eval m α key = if α v then m.eval α high else m.eval α low

/-- Joining the answers for the two halves of a split. -/
theorem Formed.join {m : Bdd} (hf : m.Formed) {key : Triple} (hk : Triple.Known m key) {v : Nat}
    (hv : v ≠ 0) {low high : Edge} (hl : m.Known low) (hh : m.Known high) :
    ∃ r m' events, m.join v key low high = ⟨.ok r, m', events⟩ ∧ m'.Formed ∧ m.Extends m' ∧
      m'.Known r ∧ SameElsewhere m m' ∧
      (m.Ordered → m.Fits key v low high → m'.Ordered ∧ m'.Solves key r) := by
  obtain ⟨r, m₁, hbranch, hb⟩ := hf.branch hv hl hh
  have hk₁ := hk.mono hb.extended
  have hx := extends_remember m₁ key r
  have hf₁ := hb.formed.remember hk₁ hb.known
  refine ⟨r, m₁.remember key r, [.joined key.f key.g key.h r],
    by simp only [Bdd.join, hbranch, Reply.ok], hf₁, hb.extended.trans hx, hb.known.mono hx,
    hb.same.trans (sameElsewhere_remember m₁ key r), fun ho hfit => ?_⟩
  have hs : m₁.Solves key r := by
    refine ⟨?_, fun α => ?_⟩
    · rw [hk.level_eq hb.extended, hfit.level]
      exact hb.level_le hl (Nat.le_of_lt hfit.low_lt)
    · rw [hb.eval hf hl hh, hk.eval_eq hf hb.formed hb.extended, hfit.eval]
  exact ⟨(hb.ordered ho hl hh hfit.low_lt hfit.high_lt).remember hk₁ hb.known hs,
    hs.mono hb.formed hf₁ hx hk₁ hb.known⟩

/-! ## Whole runs -/

/-- The recursion answers every triple of known edges, if it may go as deep as the triple is
    heavy. -/
theorem Formed.solve {m : Bdd} (hf : m.Formed) {t : Triple} (ht : Triple.Known m t)
    {depth : Nat} (hdepth : Triple.weight t ≤ depth) :
    ∃ r m' events, solve depth m t = ⟨.ok r, m', events⟩ ∧ m.Answered t r m' := by
  induction depth generalizing m t with
  | zero =>
    -- A known edge has an index above zero, so no triple weighs nothing.
    have hpos := (known_iff.1 ht.f).1
    unfold Triple.weight at hdepth
    omega
  | succ depth ih =>
    obtain ⟨s, m₁, hstep, halike, hsame₁, hsound⟩ := hf.step ht
    have hf₁ := halike.formed hf
    have hx₁ := halike.extends
    cases s with
    | done r =>
      obtain ⟨hr, hs⟩ := hsound
      refine ⟨r, m₁, [], by simp only [Bdd.solve, hstep, Reply.ok], ?_⟩
      exact {
        formed   := hf₁
        extended := hx₁
        known    := hr.mono hx₁
        same     := hsame₁
        ordered  := halike.ordered
        solves   := fun ho => (hs ho).mono hf hf₁ hx₁ ht hr }
    | split v key flip high low =>
      obtain ⟨hkey, hh⟩ := hsound
      have hhigh := hh.half_high
      have hlow := hh.half_low
      -- Both halves are lighter than the key, which is no heavier than the triple.
      have hwh := Nat.lt_of_lt_of_le hhigh.weight_lt hkey.weight
      have hwl := Nat.lt_of_lt_of_le hlow.weight_lt hkey.weight
      obtain ⟨e₁, m₂, ev₁, hsolve₁, a₁⟩ := ih hf₁ (hhigh.known.mono hx₁) (by omega)
      have hx₂ := hx₁.trans a₁.extended
      obtain ⟨e₀, m₃, ev₀, hsolve₀, a₀⟩ := ih a₁.formed (hlow.known.mono hx₂) (by omega)
      have hx₃ := hx₂.trans a₀.extended
      have hk₃ := hkey.known.mono hx₃
      obtain ⟨r, m₄, ev, hjoin, hf₄, hx₄, hr, hsame, hright⟩ :=
        a₀.formed.join hk₃ hh.var_ne a₀.known (a₁.known.mono a₀.extended)
      -- In an ordered diagram the two answers fit, since neither reaches up to `v`.
      have hfits : m.Ordered → m₃.Fits key v e₀ e₁ := by
        intro ho
        have s₁ := a₁.solves (halike.ordered ho)
        have s₀ := a₀.solves (a₁.ordered (halike.ordered ho))
        refine ⟨?_, ?_, ?_, fun α => ?_⟩
        · rw [hkey.known.level_eq hx₃, hh.level]
        · refine Nat.lt_of_le_of_lt s₀.level ?_
          rw [hlow.known.level_eq hx₃]
          exact hlow.level_lt ho
        · rw [a₁.known.level_eq a₀.extended]
          refine Nat.lt_of_le_of_lt s₁.level ?_
          rw [hhigh.known.level_eq hx₂]
          exact hhigh.level_lt ho
        · rw [hkey.known.eval_eq hf a₀.formed hx₃, hh.eval, s₀.eval,
            a₁.formed.eval_eq a₀.formed a₀.extended a₁.known, s₁.eval,
            hlow.known.eval_eq hf a₀.formed hx₃, hhigh.known.eval_eq hf a₁.formed hx₂]
      have hordered : m.Ordered → m₃.Ordered := fun ho =>
        a₀.ordered (a₁.ordered (halike.ordered ho))
      have hx := hx₃.trans hx₄
      refine ⟨r.negateIf flip, m₄, ev₁ ++ (ev₀ ++ (ev ++ [])), ?_, ?_⟩
      · simp only [Bdd.solve, hstep, hsolve₁, hsolve₀, hjoin, Reply.andThen, Reply.ok]
      · exact {
          formed   := hf₄
          extended := hx
          known    := hr.negateIf flip
          same     := ((hsame₁.trans a₁.same).trans a₀.same).trans hsame
          ordered  := fun ho => (hright (hordered ho) (hfits ho)).1
          solves   := by
            intro ho
            have hs := (hright (hordered ho) (hfits ho)).2
            refine ⟨?_, fun α => ?_⟩
            · rw [level_negateIf, ht.level_eq hx]
              refine Nat.le_trans hs.level ?_
              rw [hkey.known.level_eq hx]
              exact hkey.level
            · rw [hr.eval_negateIf, hs.eval, ht.eval_eq hf hf₄ hx,
                hkey.known.eval_eq hf hf₄ hx, hkey.eval] }

/-- No index is above the number of nodes, which is what the depth allows for. -/
theorem weight_le_splitDepth {m : Bdd} {t : Triple} (ht : Triple.Known m t) :
    Triple.weight t ≤ m.splitDepth := by
  have := (known_iff.1 ht.f).2
  have := (known_iff.1 ht.g).2
  have := (known_iff.1 ht.h).2
  unfold Triple.weight splitDepth
  omega

/-- If-then-else on known edges never faults, and comes to the right edge if the diagram is
    ordered. -/
theorem Formed.ite {m : Bdd} (hf : m.Formed) {f g h : Edge} (hfk : m.Known f) (hgk : m.Known g)
    (hhk : m.Known h) :
    ∃ r m' events, m.ite f g h = ⟨.ok r, m', events⟩ ∧ m.Answered ⟨f, g, h⟩ r m' := by
  have ht : Triple.Known m ⟨f, g, h⟩ := ⟨hfk, hgk, hhk⟩
  rw [ite_eq_solve]
  exact hf.solve ht (weight_le_splitDepth ht)

end Bdd

end SatMemo
