import SatMemo.Proofs.Bdd.Ite

/-! # If-then-else without its memo table

    `recompute` is the recursion of if-then-else that neither looks anything up
    nor remembers anything.  `Derives` says of one diagram what this recursion
    comes to if every node it needs is there: the answer is determined, stays the
    same when the diagram grows, and `recompute` finds it without making a node.

    A diagram is honest if each remembered answer is derivable in it.  Honesty
    is what keeps the memo table out of the results: on a hit the recursion
    would have come to the same edge over the nodes that are there, on a miss it
    is the recursion.  `Honest.retraces` puts the two side by side, for diagrams
    with the same nodes whatever their stores look like, and shows that honesty
    is kept.  The order of variables plays no part in any of it. -/

namespace SatMemo

namespace Bdd

/-! ## Normal triples -/

/-- The answer read off a triple, or else the triple that is looked up for it and whether
    what is found there has to be complemented. -/
def normal (t : Triple) : Edge ⊕ (Triple × Bool) :=
  match immediate? t with
  | some r => .inl r
  | none   =>
      match immediate? (substitute t) with
      | some r => .inl r
      | none   => .inr (plainBranch (plainCondition (substitute t)))

/-- A step reads the answer off or looks the normal triple up. -/
theorem step_eq (m : Bdd) (t : Triple) :
    m.step t = match normal t with
      | .inl r           => (.ok (.done r), m)
      | .inr (key, flip) => m.lookup key flip := by
  unfold Bdd.step normal
  cases immediate? t with
  | some r => rfl
  | none =>
    cases h : immediate? (substitute t) with
    | some r => simp [h]
    | none => simp [h]

theorem known_of_normal {m : Bdd} (hf : m.Formed) {t : Triple} (ht : Triple.Known m t) {r : Edge}
    (h : normal t = .inl r) : m.Known r := by
  unfold normal at h
  cases h₁ : immediate? t with
  | some r₁ =>
    simp only [h₁, Sum.inl.injEq] at h
    exact h ▸ immediate?_known ht h₁
  | none =>
    cases h₂ : immediate? (substitute t) with
    | some r₂ =>
      simp only [h₁, h₂, Sum.inl.injEq] at h
      exact h ▸ immediate?_known (hf.reduces_substitute ht).known h₂
    | none => simp [h₁, h₂] at h

theorem Formed.reduces_normal {m : Bdd} (hf : m.Formed) {t : Triple} (ht : Triple.Known m t)
    {key : Triple} {flip : Bool} (h : normal t = .inr (key, flip)) :
    m.Reduces t key flip ∧ key.f.index ≠ 1 := by
  unfold normal at h
  cases h₁ : immediate? t with
  | some r => simp [h₁] at h
  | none =>
    cases h₂ : immediate? (substitute t) with
    | some r => simp [h₁, h₂] at h
    | none =>
      simp only [h₁, h₂, Sum.inr.injEq] at h
      have hsub := hf.reduces_substitute ht
      have hcond := hsub.trans (reduces_plainCondition hsub.known)
      have hkey := hcond.trans (reduces_plainBranch hcond.known)
      have hc := index_f_ne_one h₂
      rw [← index_f_plain] at hc
      rw [h] at hkey hc
      exact ⟨hkey, hc⟩

/-! ## Splits and branches that are there -/

/-- The normal triple `key` is split at `v` into these two halves. -/
def Splits (m : Bdd) (key : Triple) (v : Nat) (high low : Triple) : Prop :=
  ∀ flip, m.splitAt key flip = .ok (.split v key flip high low)

/-- A split reads the decisions of the three operands. -/
theorem splitAt_of_stores {m : Bdd} {t : Triple} {df dg dh : Decision}
    (hf : m.Stores t.f.index df) (hg : m.Stores t.g.index dg) (hh : m.Stores t.h.index dh)
    (flip : Bool) :
    m.splitAt t flip = .ok (.split (max (max df.var dg.var) dh.var) t flip
      ⟨(cofactors t.f df (max (max df.var dg.var) dh.var)).2,
        (cofactors t.g dg (max (max df.var dg.var) dh.var)).2,
        (cofactors t.h dh (max (max df.var dg.var) dh.var)).2⟩
      ⟨(cofactors t.f df (max (max df.var dg.var) dh.var)).1,
        (cofactors t.g dg (max (max df.var dg.var) dh.var)).1,
        (cofactors t.h dh (max (max df.var dg.var) dh.var)).1⟩) := by
  unfold Stores at hf hg hh
  simp only [Bdd.splitAt, decision, hf, hg, hh, bind, Except.bind, pure, Except.pure]

/-- A known triple is split, whatever becomes of its answer. -/
theorem Formed.splits {m : Bdd} (hf : m.Formed) {t : Triple} (ht : Triple.Known m t)
    (hc : t.f.index ≠ 1) : ∃ v high low, m.Splits t v high low ∧ m.Halved t v high low := by
  obtain ⟨v, high, low, hs, hh⟩ := hf.splitAt ht hc false
  obtain ⟨df, hdf⟩ := ht.f
  obtain ⟨dg, hdg⟩ := ht.g
  obtain ⟨dh, hdh⟩ := ht.h
  rw [splitAt_of_stores hdf hdg hdh] at hs
  injection hs with hs
  injection hs with hv _ _ hhigh hlow
  refine ⟨v, high, low, fun flip => ?_, hh⟩
  rw [splitAt_of_stores hdf hdg hdh, ← hhigh, ← hlow, hv]

theorem Splits.unique {m : Bdd} {t : Triple} {v v' : Nat} {high low high' low' : Triple}
    (h : m.Splits t v high low) (h' : m.Splits t v' high' low') :
    v = v' ∧ high = high' ∧ low = low' := by
  have heq := (h false).symm.trans (h' false)
  injection heq with heq
  injection heq with hv _ _ hhigh hlow
  exact ⟨hv, hhigh, hlow⟩

/-- A split stays what it is when the diagram grows. -/
theorem Splits.mono {m n : Bdd} (hx : m.Extends n) {t : Triple} (ht : Triple.Known m t) {v : Nat}
    {high low : Triple} (h : m.Splits t v high low) : n.Splits t v high low := by
  intro flip
  obtain ⟨df, hdf⟩ := ht.f
  obtain ⟨dg, hdg⟩ := ht.g
  obtain ⟨dh, hdh⟩ := ht.h
  rw [← h flip, splitAt_of_stores hdf hdg hdh, splitAt_of_stores (hx hdf) (hx hdg) (hx hdh)]

/-- The branch on `v` over `low` and `high` is there already, as `e`. -/
def Holds (m : Bdd) (v : Nat) (low high e : Edge) : Prop :=
  v ≠ 0 ∧ (low = high ∧ e = low ∨
    ∃ d, m.Stores e.index d ∧ e.index ≠ 1 ∧ d.var = v ∧
      d.low.negateIf e.isNegated = low ∧ d.high.negateIf e.isNegated = high)

theorem Branched.holds {m m' : Bdd} {v : Nat} {low high e : Edge}
    (h : m.Branched v low high e m') (hv : v ≠ 0) : m'.Holds v low high e :=
  ⟨hv, h.shape⟩

theorem Holds.mono {m n : Bdd} (hx : m.Extends n) {v : Nat} {low high e : Edge}
    (h : m.Holds v low high e) : n.Holds v low high e := by
  obtain ⟨hv, h | ⟨d, hd, hrest⟩⟩ := h
  · exact ⟨hv, .inl h⟩
  · exact ⟨hv, .inr ⟨d, hx hd, hrest⟩⟩

theorem Formed.store_of_stores {m : Bdd} (hf : m.Formed) {i : Nat} {d : Decision}
    (hd : m.Stores i d) : m.store d = (Edge.ofIndex i, m) := by
  cases m with
  | mk nodes memo varCount names =>
    have hi : nodes.insert d = ⟨i, false, nodes⟩ := hf.arena.insert_of_value hd
    simp only [Bdd.store, hi]

/-- A branch that is there is found, and the diagram stays as it is. -/
theorem Holds.branch_eq {m : Bdd} (hf : m.Formed) {v : Nat} {low high e : Edge}
    (h : m.Holds v low high e) : m.branch v low high = .ok e m := by
  obtain ⟨hv, ⟨rfl, rfl⟩ | ⟨d, hd, he, rfl, hlow, hhigh⟩⟩ := h
  · simp [Bdd.branch, hv]
  · have hp := hf.proper hd he
    have hne : low ≠ high := by
      intro heq
      rw [← hlow, ← hhigh] at heq
      exact hp.differ (Edge.negateIf_injective heq)
    -- The mark of the edge is the one that its high edge was found with.
    have hmark : high.isNegated = e.isNegated := by
      have hpos := hp.high_pos
      rw [← hhigh, Edge.isNegated_negateIf (by omega), hp.plain, Bool.bne_false]
    have hindex : e.index ≠ 0 := Known.index_ne_zero ⟨d, hd⟩
    cases hneg : e.isNegated with
    | false =>
      rw [hneg] at hmark
      have hd' : (⟨d.var, low, high⟩ : Decision) = d := by
        simp [← hlow, ← hhigh, hneg]
      have he' : Edge.ofIndex e.index = e :=
        Edge.eq_of_index_eq (Edge.index_ofIndex _) (by rw [Edge.isNegated_ofIndex, hneg])
      simp [Bdd.branch, hv, hne, hmark, hd', hf.store_of_stores hd, he']
    | true =>
      rw [hneg] at hmark
      have hd' : (⟨d.var, -low, -high⟩ : Decision) = d := by
        simp [← hlow, ← hhigh, hneg]
      have he' : -Edge.ofIndex e.index = e := by
        apply Edge.eq_of_index_eq
        · rw [Edge.index_neg, Edge.index_ofIndex]
        · rw [Edge.isNegated_neg (by rwa [Edge.index_ofIndex]), Edge.isNegated_ofIndex, hneg]
          rfl
      simp [Bdd.branch, hv, hne, hmark, hd', hf.store_of_stores hd, he']

/-- What a branch came to, read off the reply. -/
theorem Formed.branched_of_eq {m : Bdd} (hf : m.Formed) {v : Nat} (hv : v ≠ 0) {low high e : Edge}
    (hl : m.Known low) (hh : m.Known high) {m' : Bdd} (h : m.branch v low high = .ok e m') :
    m.Branched v low high e m' := by
  obtain ⟨e', m'', h', hb⟩ := hf.branch hv hl hh
  rw [h] at h'
  injection h' with he hm _
  cases he
  exact hm ▸ hb

/-! ## Derivations -/

/-- If-then-else comes to `r` for `t` over the nodes of `m` alone. -/
inductive Derives (m : Bdd) : Triple → Edge → Prop where
  /-- The answer is read off. -/
  | read {t : Triple} {r : Edge} : normal t = .inl r → Derives m t r
  /-- The branch over the answers for the two halves is there. -/
  | join {t key high low : Triple} {flip : Bool} {v : Nat} {e₁ e₀ r : Edge} :
      normal t = .inr (key, flip) → Triple.Known m key → m.Splits key v high low →
      Derives m high e₁ → Derives m low e₀ → m.Holds v e₀ e₁ r →
      Derives m t (r.negateIf flip)

/-- A normal triple comes to `r` over the nodes of `m` alone. -/
def Settles (m : Bdd) (key : Triple) (r : Edge) : Prop :=
  Triple.Known m key ∧ ∃ v high low e₁ e₀, m.Splits key v high low ∧ m.Derives high e₁ ∧
    m.Derives low e₀ ∧ m.Holds v e₀ e₁ r

theorem Settles.derives {m : Bdd} {t key : Triple} {flip : Bool} {r : Edge}
    (h : m.Settles key r) (ht : normal t = .inr (key, flip)) :
    m.Derives t (r.negateIf flip) := by
  obtain ⟨hk, v, high, low, e₁, e₀, hs, h₁, h₀, hr⟩ := h
  exact .join ht hk hs h₁ h₀ hr

/-- What is derived stays derived when the diagram grows. -/
theorem Derives.mono {m n : Bdd} (hx : m.Extends n) {t : Triple} {r : Edge}
    (h : m.Derives t r) : n.Derives t r := by
  induction h with
  | read ht => exact .read ht
  | join ht hk hs _ _ hr ih₁ ih₀ => exact .join ht (hk.mono hx) (hs.mono hx hk) ih₁ ih₀ (hr.mono hx)

theorem Settles.mono {m n : Bdd} (hx : m.Extends n) {key : Triple} {r : Edge}
    (h : m.Settles key r) : n.Settles key r := by
  obtain ⟨hk, v, high, low, e₁, e₀, hs, h₁, h₀, hr⟩ := h
  exact ⟨hk.mono hx, v, high, low, e₁, e₀, hs.mono hx hk, h₁.mono hx, h₀.mono hx, hr.mono hx⟩

/-! ## The recursion -/

/-- Answer a triple from the nodes alone, splitting it at most `depth` levels deep. -/
def recompute : (depth : Nat) → Bdd → Triple → Reply Bdd Edge
  | 0, m, _         => .fail .endlessDescent m
  | depth + 1, m, t =>
      match normal t with
      | .inl r           => .ok r m
      | .inr (key, flip) =>
          match m.splitAt key flip with
          | .error fault                => .fail fault m
          | .ok (.done r)               => .ok r m
          | .ok (.split v _ _ high low) =>
              (recompute depth m high).andThen fun e₁ m =>
                (recompute depth m low).andThen fun e₀ m =>
                  (m.branch v e₀ e₁).andThen fun r m => .ok (r.negateIf flip) m

/-- What can be derived is found again, and no node is made for it. -/
theorem Derives.recompute_eq {m : Bdd} (hf : m.Formed) {t : Triple} {r : Edge}
    (h : m.Derives t r) (ht : Triple.Known m t) {depth : Nat} (hdepth : Triple.weight t ≤ depth) :
    recompute depth m t = .ok r m := by
  -- No known triple weighs nothing.
  have hpos : ∀ {t : Triple}, Triple.Known m t → 0 < Triple.weight t := by
    intro t ht
    have := (known_iff.1 ht.f).1
    unfold Triple.weight
    omega
  induction h generalizing depth with
  | read hn =>
    obtain ⟨k, rfl⟩ : ∃ k, depth = k + 1 := ⟨depth - 1, by have := hpos ht; omega⟩
    simp only [recompute, hn]
  | @join t key high low flip v e₁ e₀ r hn hk hs _ _ hr ih₁ ih₀ =>
    obtain ⟨k, rfl⟩ : ∃ k, depth = k + 1 := ⟨depth - 1, by have := hpos ht; omega⟩
    obtain ⟨hkey, hc⟩ := hf.reduces_normal ht hn
    obtain ⟨v', high', low', hs', hh⟩ := hf.splits hk hc
    obtain ⟨rfl, rfl, rfl⟩ := hs.unique hs'
    have hweight := hkey.weight
    have hhigh := hh.half_high.weight_lt
    have hlow := hh.half_low.weight_lt
    have h₁ : recompute k m high = .ok e₁ m := ih₁ hh.half_high.known (by omega)
    have h₀ : recompute k m low = .ok e₀ m := ih₀ hh.half_low.known (by omega)
    simp only [recompute, hn, hs flip, h₁, h₀, hr.branch_eq hf, Reply.andThen_ok]

/-! ## Diagrams with the same nodes -/

/-- The same nodes under the same numbers, and the same variables.  Buckets, chains and the
    memo table may differ. -/
structure Twins (m n : Bdd) : Prop extends SameElsewhere m n where
  nodes : n.nodes.toList = m.nodes.toList

theorem Twins.refl (m : Bdd) : m.Twins m :=
  ⟨.refl m, rfl⟩

theorem Twins.symm {m n : Bdd} (h : m.Twins n) : n.Twins m :=
  ⟨⟨h.varCount.symm, h.names.symm⟩, h.nodes.symm⟩

theorem Twins.trans {m n p : Bdd} (h : m.Twins n) (h' : n.Twins p) : m.Twins p :=
  ⟨h.toSameElsewhere.trans h'.toSameElsewhere, h'.nodes.trans h.nodes⟩

theorem Twins.nodeCount_eq {m n : Bdd} (h : m.Twins n) : n.nodeCount = m.nodeCount := by
  unfold nodeCount
  rw [← Arena.length_toList, h.nodes, Arena.length_toList]

theorem Twins.stores_iff {m n : Bdd} (h : m.Twins n) {i : Nat} {d : Decision} :
    n.Stores i d ↔ m.Stores i d := by
  unfold Stores
  rw [Arena.value_eq_ok_iff, Arena.value_eq_ok_iff, h.nodes]

theorem Twins.extends {m n : Bdd} (h : m.Twins n) : m.Extends n :=
  fun _ _ hs => h.stores_iff.2 hs

theorem Alike.twins {m n : Bdd} (h : m.Alike n) (hs : SameElsewhere m n) : m.Twins n :=
  ⟨hs, by rw [h.nodes]⟩

/-- A decision that is not stored gets the next number. -/
theorem Formed.store_of_forall_ne {m : Bdd} (hf : m.Formed) {d : Decision}
    (hd : ∀ i, ¬ m.Stores i d) :
    ∃ m', m.store d = (Edge.ofIndex (m.nodeCount + 1), m') ∧ SameElsewhere m m' ∧
      m'.nodes.toList = m.nodes.toList ++ [d] := by
  cases m with
  | mk nodes memo varCount names =>
    obtain ⟨b, hb, hlist, _⟩ := hf.arena.insert_of_forall_ne hd
    refine ⟨⟨b, memo, varCount, names⟩, ?_, ⟨rfl, rfl⟩, hlist⟩
    simp only [Bdd.store, hb]
    rfl

/-- Twins give a decision the same number and stay twins. -/
theorem Twins.store {m n : Bdd} (h : m.Twins n) (hm : m.Formed) (hn : n.Formed) (d : Decision) :
    ∃ e m' n', m.store d = (e, m') ∧ n.store d = (e, n') ∧ m'.Twins n' := by
  by_cases hd : ∃ i, m.Stores i d
  · obtain ⟨i, hi⟩ := hd
    exact ⟨_, m, n, hm.store_of_stores hi, hn.store_of_stores (h.extends hi), h⟩
  · have hd : ∀ i, ¬ m.Stores i d := fun i hi => hd ⟨i, hi⟩
    obtain ⟨m', hm', hsame, hlist⟩ := hm.store_of_forall_ne hd
    obtain ⟨n', hn', hsame', hlist'⟩ :=
      hn.store_of_forall_ne fun i hi => hd i (h.stores_iff.1 hi)
    rw [h.nodeCount_eq] at hn'
    refine ⟨_, m', n', hm', hn', ⟨?_, ?_⟩, ?_⟩
    · rw [hsame.varCount, hsame'.varCount, h.varCount]
    · rw [hsame.names, hsame'.names, h.names]
    · rw [hlist, hlist', h.nodes]

theorem Twins.branch {m n : Bdd} (h : m.Twins n) (hm : m.Formed) (hn : n.Formed) {v : Nat}
    (hv : v ≠ 0) (low high : Edge) :
    ∃ e m' n', m.branch v low high = .ok e m' ∧ n.branch v low high = .ok e n' ∧
      m'.Twins n' := by
  by_cases heq : low = high
  · exact ⟨low, m, n, by simp [Bdd.branch, hv, heq], by simp [Bdd.branch, hv, heq], h⟩
  · cases hneg : high.isNegated with
    | false =>
      obtain ⟨e, m', n', hm', hn', h'⟩ := h.store hm hn ⟨v, low, high⟩
      exact ⟨e, m', n', by simp [Bdd.branch, hv, heq, hneg, hm'],
        by simp [Bdd.branch, hv, heq, hneg, hn'], h'⟩
    | true =>
      obtain ⟨e, m', n', hm', hn', h'⟩ := h.store hm hn ⟨v, -low, -high⟩
      exact ⟨-e, m', n', by simp [Bdd.branch, hv, heq, hneg, hm'],
        by simp [Bdd.branch, hv, heq, hneg, hn'], h'⟩

theorem twins_remember (m : Bdd) (key : Triple) (r : Edge) : m.Twins (m.remember key r) := by
  cases m
  exact ⟨⟨rfl, rfl⟩, rfl⟩

/-! ## Honest memo tables -/

/-- A well-formed diagram that remembers nothing but what it would come to again. -/
structure Honest (m : Bdd) : Prop extends m.Formed where
  settled : ∀ {key r}, m.memo.peek? key = some r → m.Settles key r

theorem Fresh.honest {m : Bdd} {memoBits : Nat} (h : m.Fresh memoBits) : m.Honest where
  toFormed := h.formed
  settled := by
    intro key r hr
    simp [h.memo] at hr

/-- Forgetting answers leaves a diagram honest. -/
theorem Honest.of_forgotten {m n : Bdd} (h : m.Honest) (hnodes : n.nodes = m.nodes)
    (hpeek : ∀ {key r}, n.memo.peek? key = some r → m.memo.peek? key = some r) : n.Honest where
  arena := hnodes ▸ h.arena
  terminal := Extends.of_nodes_eq hnodes h.terminal
  proper := fun hd => h.proper (Extends.of_nodes_eq hnodes.symm hd)
  keys := fun hr => (h.keys (hpeek hr)).mono (Extends.of_nodes_eq hnodes)
  answers := fun hr => (h.answers (hpeek hr)).mono (Extends.of_nodes_eq hnodes)
  settled := fun hr => (h.settled (hpeek hr)).mono (Extends.of_nodes_eq hnodes)

theorem Alike.honest {m n : Bdd} (h : m.Alike n) (hm : m.Honest) : n.Honest :=
  hm.of_forgotten h.nodes fun {_ _} hr => by rwa [h.peek] at hr

/-- A new node makes no remembered answer wrong. -/
theorem Branched.honest {m m' : Bdd} {v : Nat} {low high e : Edge}
    (h : m.Branched v low high e m') (hm : m.Honest) : m'.Honest where
  toFormed := h.formed
  settled := by
    intro key r hr
    rw [h.memo] at hr
    exact (hm.settled hr).mono h.extended

theorem Honest.remember {m : Bdd} (h : m.Honest) {key : Triple} {r : Edge}
    (hr : m.Known r) (hs : m.Settles key r) : (m.remember key r).Honest where
  toFormed := h.toFormed.remember hs.1 hr
  settled := by
    intro key' r' hpeek
    have hx := extends_remember m key r
    obtain ⟨rfl, rfl⟩ | hpeek := peek?_of_remember hpeek
    · exact hs.mono hx
    · exact (h.settled hpeek).mono hx

/-- What looking a normal triple up comes to: an answer that was remembered, or a split. -/
theorem lookup_cases (m : Bdd) (key : Triple) (flip : Bool) :
    ∃ m', m.Alike m' ∧ SameElsewhere m m' ∧
      ((∃ r, m.memo.peek? key = some r ∧
          m.lookup key flip = (.ok (.done (r.negateIf flip)), m')) ∨
        m.lookup key flip = (m.splitAt key flip, m')) := by
  cases m with
  | mk nodes memo varCount names =>
    have hfst := memo.fst_get key
    have hsnd := memo.peek?_snd_get key
    cases hget : memo.get key with
    | mk found memo' =>
      rw [hget] at hfst hsnd
      refine ⟨⟨nodes, memo', varCount, names⟩, ⟨rfl, hsnd⟩, ⟨rfl, rfl⟩, ?_⟩
      cases found with
      | some r => exact .inl ⟨r, hfst.symm, by simp only [Bdd.lookup, hget]⟩
      | none =>
        refine .inr ?_
        simp only [Bdd.lookup, hget]
        rfl

/-! ## The memo table is invisible -/

/-- Joining two derived answers settles the triple, over the same node as without memo table. -/
theorem Honest.joins {m n : Bdd} (hm : m.Honest) (hn : n.Formed) (h : m.Twins n)
    {key high low : Triple} {v : Nat} {e₁ e₀ : Edge} (hs : m.Splits key v high low)
    (hk : Triple.Known m key) (hv : v ≠ 0) (h₁ : m.Derives high e₁) (h₀ : m.Derives low e₀)
    (hk₁ : m.Known e₁) (hk₀ : m.Known e₀) :
    ∃ r m' n', m.join v key e₀ e₁ = ⟨.ok r, m', [.joined key.f key.g key.h r]⟩ ∧
      n.branch v e₀ e₁ = .ok r n' ∧ m'.Honest ∧ m.Extends m' ∧ m'.Known r ∧
      m'.Settles key r ∧ n'.Formed ∧ m'.Twins n' := by
  obtain ⟨r, m₁, n₁, hbr, hbr', h'⟩ := h.branch hm.toFormed hn hv e₀ e₁
  have hb := hm.branched_of_eq hv hk₀ hk₁ hbr
  have hb' := hn.branched_of_eq hv (hk₀.mono h.extends) (hk₁.mono h.extends) hbr'
  have hx := hb.extended
  have hx' := extends_remember m₁ key r
  have hsettled : m₁.Settles key r :=
    ⟨hk.mono hx, v, high, low, e₁, e₀, hs.mono hx hk, h₁.mono hx, h₀.mono hx, hb.holds hv⟩
  exact ⟨r, m₁.remember key r, n₁, by simp only [Bdd.join, hbr, Reply.ok], hbr',
    (hb.honest hm).remember hb.known hsettled, hx.trans hx', hb.known.mono hx',
    hsettled.mono hx', hb'.formed, (twins_remember m₁ key r).symm.trans h'⟩

/-- If-then-else in `m` came to `r` for `t` and left `m'`, the recursion without memo table
    left `n'`. -/
structure Retraced (m : Bdd) (t : Triple) (r : Edge) (m' n' : Bdd) : Prop where
  honest   : m'.Honest
  extended : m.Extends m'
  known    : m'.Known r
  derives  : m'.Derives t r
  formed   : n'.Formed
  twins    : m'.Twins n'

/-- In an honest diagram if-then-else comes to the same edge as the recursion without memo
    table does in any twin of it, and leaves the same nodes. -/
theorem Honest.retraces {m n : Bdd} (hm : m.Honest) (hn : n.Formed) (h : m.Twins n) {t : Triple}
    (ht : Triple.Known m t) {depth : Nat} (hdepth : Triple.weight t ≤ depth) :
    ∃ r m' n' ev ev', solve depth m t = ⟨.ok r, m', ev⟩ ∧
      recompute depth n t = ⟨.ok r, n', ev'⟩ ∧ m.Retraced t r m' n' := by
  induction depth generalizing m n t with
  | zero =>
    have hpos := (known_iff.1 ht.f).1
    unfold Triple.weight at hdepth
    omega
  | succ depth ih =>
    have hstep := step_eq m t
    cases hnorm : normal t with
    | inl r =>
      rw [hnorm] at hstep
      refine ⟨r, m, n, [], [], by simp only [Bdd.solve, hstep, Reply.ok],
        by simp only [recompute, hnorm, Reply.ok], ?_⟩
      exact {
        honest   := hm
        extended := Extends.refl m
        known    := known_of_normal hm.toFormed ht hnorm
        derives  := .read hnorm
        formed   := hn
        twins    := h }
    | inr keyed =>
      obtain ⟨key, flip⟩ := keyed
      rw [hnorm] at hstep
      obtain ⟨hkey, hc⟩ := hm.reduces_normal ht hnorm
      obtain ⟨m₁, halike, hsame, ⟨r, hpeek, hlook⟩ | hlook⟩ := lookup_cases m key flip
      · -- A hit: the recursion finds the same edge over the nodes that are there.
        have hd := (hm.settled hpeek).derives hnorm
        have hredo := (hd.mono h.extends).recompute_eq hn (ht.mono h.extends) hdepth
        refine ⟨r.negateIf flip, m₁, n, [], [], by simp only [Bdd.solve, hstep, hlook, Reply.ok],
          hredo, ?_⟩
        exact {
          honest   := halike.honest hm
          extended := halike.extends
          known    := ((hm.answers hpeek).negateIf flip).mono halike.extends
          derives  := hd.mono halike.extends
          formed   := hn
          twins    := (halike.twins hsame).symm.trans h }
      · -- A miss: the two recursions go on alike.
        obtain ⟨v, high, low, hs, hh⟩ := hm.splits hkey.known hc
        have hweight := hkey.weight
        have hhigh := hh.half_high.weight_lt
        have hlow := hh.half_low.weight_lt
        have hx₁ := halike.extends
        have h₁ : m₁.Twins n := (halike.twins hsame).symm.trans h
        obtain ⟨e₁, m₂, n₂, ev₁, ev₁', hrun₁, hredo₁, a₁⟩ := ih (halike.honest hm) hn h₁
          (hh.half_high.known.mono hx₁) (by omega)
        have hx₂ := hx₁.trans a₁.extended
        obtain ⟨e₀, m₃, n₃, ev₀, ev₀', hrun₀, hredo₀, a₀⟩ := ih a₁.honest a₁.formed a₁.twins
          (hh.half_low.known.mono hx₂) (by omega)
        have hx₃ := hx₂.trans a₀.extended
        obtain ⟨r, m₄, n₄, hjoin, hbr, hm₄, hx₄, hr, hsettled, hn₄, h₄⟩ :=
          a₀.honest.joins a₀.formed a₀.twins (hs.mono hx₃ hkey.known) (hkey.known.mono hx₃)
            hh.var_ne (a₁.derives.mono a₀.extended) a₀.derives (a₁.known.mono a₀.extended) a₀.known
        refine ⟨r.negateIf flip, m₄, n₄, ev₁ ++ (ev₀ ++ ([.joined key.f key.g key.h r] ++ [])),
          ev₁' ++ (ev₀' ++ ([] ++ [])), ?_, ?_, ?_⟩
        · simp only [Bdd.solve, hstep, hlook, hs flip, hrun₁, hrun₀, hjoin, Reply.andThen, Reply.ok]
        · simp only [recompute, hnorm, (hs.mono h.extends hkey.known) flip, hredo₁, hredo₀, hbr,
            Reply.andThen, Reply.ok]
        · exact {
            honest   := hm₄
            extended := hx₃.trans hx₄
            known    := hr.negateIf flip
            derives  := hsettled.derives hnorm
            formed   := hn₄
            twins    := h₄ }

end Bdd

end SatMemo
