import SatMemo.Proofs.Bdd.Selecting
import SatMemo.Proofs.Cofactors
import SatMemo.Proofs.Search

/-! # The size of a function

    The nodes below an edge are the cofactor classes of its function.  Going down an
    edge fixes the variable of its node, so every node below stands for what is left
    of the function when the variables above it are fixed
    (`Ordered.exists_fixAbove_of_reaches`).  Conversely, to fix all variables above
    some number is to go down until no variable is above it
    (`Ordered.exists_reaches_of_fixAbove`).  By canonicity no two nodes are of one
    class, and only the terminal is constant.

    So the size does not depend on how the diagram was built, and the search that
    counts the nodes ends. -/

namespace SatMemo

namespace Bdd

/-- The function that an edge denotes. -/
def function (m : Bdd) (e : Edge) : BoolFn :=
  fun α => m.eval α e

/-- The indices that a node leads to, the high one first. -/
def children (m : Bdd) (i : Nat) : Except Fault (List Nat) :=
  (m.nodes.value i).map fun d => [d.high.index, d.low.index]

/-- The node `j` can be reached from the node `i`, going down. -/
abbrev Reaches (m : Bdd) : Nat → Nat → Prop :=
  Search.Reaches m.children 1

variable {m : Bdd} {e r s : Edge} {d : Decision} {i j k : Nat} {β : Nat → Bool}

/-! ## Functions and edges -/

theorem Known.function_neg (h : m.Known e) : m.function (-e) = (m.function e).not :=
  funext h.eval_neg

/-- Edges to one node denote functions of one class. -/
theorem Known.upToSign_eq (h : m.Known r) (hi : r.index = s.index) :
    (m.function r).upToSign = (m.function s).upToSign := by
  by_cases hmark : r.isNegated = s.isNegated
  · rw [Edge.eq_of_index_eq hi hmark]
  · have hneg : s = -r := by
      apply Edge.eq_of_index_eq
      · rw [Edge.index_neg, hi]
      · rw [Edge.isNegated_neg h.index_ne_zero]
        exact (Bool.not_eq.2 hmark).symm ▸ rfl
    rw [hneg, h.function_neg, BoolFn.upToSign_not]

/-- Edges denote functions of one class exactly if they lead to one node. -/
theorem Ordered.upToSign_eq_iff (h : m.Ordered) (hr : m.Known r) (hs : m.Known s) :
    (m.function r).upToSign = (m.function s).upToSign ↔ r.index = s.index := by
  refine ⟨fun heq => ?_, hr.upToSign_eq⟩
  rcases BoolFn.upToSign_eq_iff.1 heq with heq | heq
  · rw [h.eq_of_eval_eq hr hs (congrFun heq)]
  · rw [← hs.function_neg] at heq
    rw [h.eq_of_eval_eq hr hs.neg (congrFun heq), Edge.index_neg]

/-- Only the edges to the terminal are constant. -/
theorem Ordered.isConst_iff (h : m.Ordered) (he : m.Known e) :
    (m.function e).IsConst ↔ e.index = 1 := by
  have hone : m.function .one = .const true := funext h.eval_one
  have hconst : (m.function .one).IsConst := ⟨true, hone⟩
  constructor
  · intro ⟨b, hb⟩
    apply (h.upToSign_eq_iff he h.known_one).1
    rw [BoolFn.upToSign_eq_iff, hb, hone]
    cases b
    · exact .inr rfl
    · exact .inl rfl
  · intro hi
    exact (BoolFn.isConst_congr (he.upToSign_eq (s := .one) hi)).2 hconst

/-! ## Fixing the variables above an edge, and some of its own -/

/-- To fix variables that an edge does not reach up to changes nothing. -/
theorem Ordered.fixAbove_of_level_le (h : m.Ordered) (he : m.Known e) (hk : m.level e ≤ k) :
    (m.function e).fixAbove k β = m.function e := by
  funext α
  apply h.eval_congr he
  intro v _ hv
  exact if_pos (by omega)

/-- The half of an edge with the node `d` where its variable has the value `b`. -/
def half (e : Edge) (d : Decision) (b : Bool) : Edge :=
  (if b then d.high else d.low).negateIf e.isNegated

/-- If the variable of an edge is among the fixed ones, the half for its value is what counts. -/
theorem Formed.fixAbove_of_lt (h : m.Formed) (hd : m.Stores e.index d) (he : e.index ≠ 1)
    (hk : k < d.var) :
    (m.function e).fixAbove k β = (m.function (half e d (β d.var))).fixAbove k β := by
  funext α
  have hvar : ¬ d.var ≤ k := by omega
  show m.eval _ e = m.eval _ _
  rw [h.eval_of_stores hd he, if_neg hvar, half]
  cases β d.var <;> rfl

theorem Formed.known_half (h : m.Formed) (hd : m.Stores e.index d) (he : e.index ≠ 1) (b : Bool) :
    m.Known (half e d b) := by
  cases b
  · exact (h.known_low hd he).negateIf _
  · exact (h.known_high hd he).negateIf _

theorem Ordered.level_half_lt (h : m.Ordered) (hd : m.Stores e.index d) (he : e.index ≠ 1)
    (b : Bool) : m.level (half e d b) < d.var := by
  rw [half, level_negateIf]
  cases b
  · exact h.low_lt hd he
  · exact h.high_lt hd he

theorem Formed.index_half_lt (h : m.Formed) (hd : m.Stores e.index d) (he : e.index ≠ 1)
    (b : Bool) : (half e d b).index < e.index := by
  rw [half, Edge.index_negateIf]
  cases b
  · exact (h.proper hd he).low_lt
  · exact (h.proper hd he).high_lt

/-- To fix the variable of an edge, and all above, leaves one of its halves. -/
theorem Ordered.fixAbove_pred (h : m.Ordered) (hd : m.Stores e.index d) (he : e.index ≠ 1) :
    (m.function e).fixAbove (d.var - 1) β = m.function (half e d (β d.var)) := by
  have hlt := h.level_half_lt hd he (β d.var)
  rw [h.toFormed.fixAbove_of_lt hd he (by omega)]
  exact h.fixAbove_of_level_le (h.toFormed.known_half hd he _) (by omega)

/-! ## Nodes below an edge -/

/-- A node leads to those of its two halves. -/
theorem leads_iff (hd : m.Stores i d) :
    Search.Leads m.children 1 i j ↔
      i ≠ 1 ∧ ∃ b : Bool, j = (if b then d.high else d.low).index := by
  have hchildren : m.children i = .ok [d.high.index, d.low.index] := by
    unfold children
    rw [hd]
    rfl
  simp [Search.Leads, hchildren, or_comm]

/-- What can be reached from a node of the diagram is a node of it. -/
theorem Formed.known_of_reaches (h : m.Formed) (he : m.Known e) (hj : m.Reaches e.index j) :
    m.Known (.ofIndex j) := by
  induction hj with
  | refl => exact known_of_index_eq he (Edge.index_ofIndex _)
  | @tail j k _ hjk ih =>
    obtain ⟨d, hd⟩ := ih
    rw [Edge.index_ofIndex] at hd
    obtain ⟨hj, b, rfl⟩ := (leads_iff hd).1 hjk
    cases b
    · exact known_of_index_eq (h.known_low hd hj) (Edge.index_ofIndex _)
    · exact known_of_index_eq (h.known_high hd hj) (Edge.index_ofIndex _)

/-- Every node below an edge stands for what is left of its function when variables are fixed. -/
theorem Ordered.exists_fixAbove_of_reaches (h : m.Ordered) (he : m.Known e)
    (hj : m.Reaches e.index j) :
    ∃ k β, ((m.function e).fixAbove k β).upToSign = (m.function (.ofIndex j)).upToSign := by
  induction hj with
  | refl =>
    refine ⟨m.level e, fun _ => false, ?_⟩
    rw [h.fixAbove_of_level_le he (Nat.le_refl _)]
    exact he.upToSign_eq (Edge.index_ofIndex _).symm
  | @tail i j hi hij ih =>
    obtain ⟨k, β, hleft⟩ := ih
    have hknown := h.toFormed.known_of_reaches he hi
    obtain ⟨d, hd⟩ := hknown
    have hd' := hd
    rw [Edge.index_ofIndex] at hd'
    obtain ⟨hi₁, b, rfl⟩ := (leads_iff hd').1 hij
    -- One more variable is fixed, that of the node `i`.
    refine ⟨min k (d.var - 1), fun v => if v ≤ k then b else β v, ?_⟩
    rw [← BoolFn.fixAbove_fixAbove k (d.var - 1) β fun _ => b,
      BoolFn.upToSign_fixAbove_congr _ _ hleft,
      h.fixAbove_pred hd (by rwa [Edge.index_ofIndex])]
    apply (h.toFormed.known_half hd (by rwa [Edge.index_ofIndex]) b).upToSign_eq
    rw [half, Edge.index_negateIf, Edge.index_ofIndex]

/-- What is left of the function of an edge when variables are fixed is constant, or it is that
    of a node below. -/
theorem Ordered.exists_reaches_of_fixAbove (h : m.Ordered) (he : m.Known e) (k : Nat)
    (β : Nat → Bool) :
    ∃ j, m.Reaches e.index j ∧
      ((m.function e).fixAbove k β).upToSign = (m.function (.ofIndex j)).upToSign := by
  -- Induction on the index: fixing the variable of an edge leaves one of its halves.
  induction hn : e.index using Nat.strongRecOn generalizing e with
  | ind n ih =>
    subst hn
    obtain ⟨d, hd⟩ := he
    have hlevel := level_of_stores hd
    by_cases hk : d.var ≤ k
    · refine ⟨e.index, .refl, ?_⟩
      rw [h.fixAbove_of_level_le ⟨d, hd⟩ (by omega)]
      exact Known.upToSign_eq ⟨d, hd⟩ (Edge.index_ofIndex _).symm
    · have he : e.index ≠ 1 := by
        intro hi
        have := (h.var_eq_zero_iff hd).2 hi
        omega
      obtain ⟨j, hj, hleft⟩ := ih _ (h.toFormed.index_half_lt hd he (β d.var))
        (h.toFormed.known_half hd he _) rfl
      refine ⟨j, .head ((leads_iff hd).2 ⟨he, β d.var, ?_⟩) hj, ?_⟩
      · rw [half, Edge.index_negateIf]
      · rw [h.toFormed.fixAbove_of_lt hd he (by omega), hleft]

/-- The cofactor classes of an edge are those of the nodes below it. -/
theorem Ordered.cofactorClasses_eq (h : m.Ordered) (he : m.Known e) :
    (m.function e).cofactorClasses
      = (fun j => (m.function (.ofIndex j)).upToSign) '' {j | j ≠ 1 ∧ m.Reaches e.index j} := by
  have hconst : ∀ {j}, m.Reaches e.index j → ((m.function (.ofIndex j)).IsConst ↔ j = 1) := by
    intro j hj
    rw [h.isConst_iff (h.toFormed.known_of_reaches he hj), Edge.index_ofIndex]
  ext c
  constructor
  · intro ⟨k, β, hne, hc⟩
    obtain ⟨j, hj, hleft⟩ := h.exists_reaches_of_fixAbove he k β
    rw [BoolFn.isConst_congr hleft, hconst hj] at hne
    exact ⟨j, ⟨hne, hj⟩, hleft.symm.trans hc.symm⟩
  · intro ⟨j, ⟨hne, hj⟩, hc⟩
    obtain ⟨k, β, hleft⟩ := h.exists_fixAbove_of_reaches he hj
    refine ⟨k, β, ?_, hc.symm.trans hleft.symm⟩
    rwa [BoolFn.isConst_congr hleft, hconst hj]

/-- No two nodes are of one class, so there are as many classes as nodes. -/
theorem Ordered.encard_cofactorClasses (h : m.Ordered) (he : m.Known e) :
    (m.function e).cofactorClasses.encard = {j | j ≠ 1 ∧ m.Reaches e.index j}.encard := by
  rw [h.cofactorClasses_eq he]
  apply Set.InjOn.encard_image
  intro i hi j hj heq
  have hindex := (h.upToSign_eq_iff (h.toFormed.known_of_reaches he hi.2)
    (h.toFormed.known_of_reaches he hj.2)).1 heq
  rwa [Edge.index_ofIndex, Edge.index_ofIndex] at hindex

/-! ## Counting the nodes -/

/-- Collecting the nodes below is a search. -/
theorem collect_eq_gather (m : Bdd) (budget : Nat) (seen : Std.TreeSet Nat)
    (pending : List Nat) :
    m.collect budget seen pending = Search.gather m.children 1 budget seen pending := by
  fun_induction collect m budget seen pending with
  | case1 budget seen pending hdrop => rw [Search.gather, hdrop]
  | case2 budget seen pending i rest hdrop fault hv =>
    rw [Search.gather, hdrop]
    simp only [children, hv, Except.map]
  | case3 seen pending i rest hdrop d hv =>
    rw [Search.gather, hdrop]
    simp only [children, hv, Except.map]
  | case4 seen pending i rest hdrop d budget hv ih =>
    rw [Search.gather, hdrop]
    simp only [children, hv, Except.map]
    exact ih

/-- The search for the nodes below an edge ends, and it visits exactly these. -/
theorem Formed.exists_collect (h : m.Formed) (he : m.Known e) :
    ∃ cone, m.size e = .ok cone.size ∧
      Search.Later m.children 1 (.start e.index) ⟨cone, []⟩ ∧
      ∀ j, j ∈ cone ↔ j ≠ 1 ∧ m.Reaches e.index j := by
  have hknown : ∀ j, m.Reaches e.index j → ∃ d, m.Stores j d := by
    intro j hj
    obtain ⟨d, hd⟩ := h.known_of_reaches he hj
    rw [Edge.index_ofIndex] at hd
    exact ⟨d, hd⟩
  have hok : ∀ j, m.Reaches e.index j → j ≠ 1 → ∃ next, m.children j = .ok next := by
    intro j hj _
    obtain ⟨d, hd⟩ := hknown j hj
    exact ⟨_, congrArg (Except.map _) hd⟩
  have hbound : ∀ j, m.Reaches e.index j → j ≠ 1 → 1 ≤ j ∧ j ≤ m.nodeCount :=
    fun j hj _ => Arena.exists_value_iff.1 (hknown j hj)
  obtain ⟨cone, hcone, hlater, hmem⟩ := Search.exists_gather hok hbound
  refine ⟨cone, ?_, hlater, hmem⟩
  rw [size, collect_eq_gather, hcone]
  rfl

/-- Nothing but the terminal is below an edge exactly if the edge is a constant. -/
theorem forall_not_reaches_iff :
    (∀ j, ¬ (j ≠ 1 ∧ m.Reaches e.index j)) ↔ e = .one ∨ e = .zero := by
  constructor
  · intro hnone
    apply Edge.eq_one_or_eq_zero
    -- The node of the edge itself is below it.
    by_contra hi
    exact hnone e.index ⟨hi, .refl⟩
  · intro hconst j hj
    have hi : e.index = 1 := by
      rcases hconst with rfl | rfl <;> rfl
    -- There is no way on from the terminal.
    rcases hj.2.cases_head with heq | ⟨k, hleads, _⟩
    · exact hj.1 (heq.symm.trans hi)
    · exact hleads.1 hi

/-- A set of indices has as many elements as its size says. -/
theorem encard_setOf_mem (seen : Std.TreeSet Nat) :
    {i | i ∈ seen}.encard = (seen.size : ℕ∞) := by
  have hset : {i | i ∈ seen} = (seen.toList.toFinset : Set Nat) := by
    ext i
    simp
  rw [hset, Set.encard_coe_eq_coe_finsetCard,
    List.toFinset_card_of_nodup (Search.nodup_toList seen), Std.TreeSet.length_toList]

theorem size_eq_zero_iff {seen : Std.TreeSet Nat} : seen.size = 0 ↔ ∀ i, i ∉ seen := by
  rw [← ENat.natCast_inj, ← encard_setOf_mem, Nat.cast_zero, Set.encard_eq_zero]
  exact Set.eq_empty_iff_forall_notMem

/-- The size of an edge is the number of its cofactor classes. -/
theorem Ordered.exists_size (h : m.Ordered) (he : m.Known e) :
    ∃ cone, m.size e = .ok cone.size ∧
      Search.Later m.children 1 (.start e.index) ⟨cone, []⟩ ∧
      (m.function e).cofactorClasses.encard = cone.size ∧
      (cone.size = 0 ↔ e = .one ∨ e = .zero) := by
  obtain ⟨cone, hsize, hlater, hmem⟩ := h.toFormed.exists_collect he
  have hset : {j | j ≠ 1 ∧ m.Reaches e.index j} = {j | j ∈ cone} := by
    ext j
    exact (hmem j).symm
  refine ⟨cone, hsize, hlater, ?_, ?_⟩
  · rw [h.encard_cofactorClasses he, hset, encard_setOf_mem]
  · rw [size_eq_zero_iff, ← forall_not_reaches_iff (m := m)]
    exact forall_congr' fun j => not_congr (hmem j)

/-- The size is that of the node. -/
theorem size_neg (m : Bdd) (e : Edge) : m.size (-e) = m.size e := by
  rw [size, size, Edge.index_neg]

namespace History

/-- **The size of an edge is that of its function.** Whatever was asked of a diagram before, over
    stores of any sizes, for every edge returned

    - the search that counts the nodes below it comes to its end, from each of its states, and
      tells their number;
    - this is the number of cofactor classes of the function;
    - the complement has the same size, and only the two constants have size 0;
    - an edge for the same function has the same size in any other diagram, however that was
      built. -/
theorem reached_size {storageBits memoBits : Nat} {h : History}
    (hr : Reached storageBits memoBits h) :
    ∀ x ∈ h.given, ∃ n : Nat, h.diagram.size x.1 = .ok n ∧
      (∃ cone : Std.TreeSet Nat, cone.size = n ∧
        ∀ w, Search.Later h.diagram.children 1 (.start x.1.index) w →
          Search.Later h.diagram.children 1 w ⟨cone, []⟩) ∧
      x.2.cofactorClasses.encard = n ∧
      h.diagram.size (-x.1) = .ok n ∧
      (n = 0 ↔ x.1 = .one ∨ x.1 = .zero) ∧
      ∀ (s c : Nat) (h' : History), Reached s c h' → ∀ y ∈ h'.given, y.2 = x.2 →
        h'.diagram.size y.1 = .ok n := by
  have hcount : ∀ {s c : Nat} {h : History}, Reached s c h → ∀ x ∈ h.given, ∃ cone,
      h.diagram.size x.1 = .ok cone.size ∧
      Search.Later h.diagram.children 1 (.start x.1.index) ⟨cone, []⟩ ∧
      x.2.cofactorClasses.encard = cone.size ∧ (cone.size = 0 ↔ x.1 = .one ∨ x.1 = .zero) := by
    intro s c h hr x hx
    have hfun : h.diagram.function x.1 = x.2 := funext (hr.sound.eval x hx)
    rw [← hfun]
    exact hr.sound.ordered.exists_size (hr.sound.known x hx)
  intro x hx
  obtain ⟨cone, hsize, hlater, hcard, hzero⟩ := hcount hr x hx
  refine ⟨cone.size, hsize, ⟨cone, rfl, fun w hw => hlater.of_ended rfl hw⟩, hcard, ?_, hzero, ?_⟩
  · rw [size_neg, hsize]
  · intro s c h' hr' y hy heq
    obtain ⟨cone', hsize', _, hcard', _⟩ := hcount hr' y hy
    -- Both sizes are the number of classes of the one function.
    rw [heq, hcard, Nat.cast_inj] at hcard'
    rw [hsize', hcard']

/-- The conjunction of two variables has two nodes, and so has its complement. -/
theorem reached_size_conjunction :
    ∃ h, Reached 4 4 h ∧ ∃ x ∈ h.given, x.2 = .all [.var 1, .var 2] ∧
      h.diagram.size x.1 = .ok 2 ∧ h.diagram.size (-x.1) = .ok 2 := by
  have hbits : 4 ≤ 31 := by decide
  obtain ⟨m, hm⟩ := exists_ofBits_eq_ok hbits hbits
  have hs := sound_start hm
  obtain ⟨h₁, x, hstep₁, hx, hx'⟩ := hs.exists_projection (v := 1) (by decide)
  obtain ⟨h₂, y, hstep₂, hy, hy'⟩ := (hs.step hstep₁).exists_projection (v := 2) (by decide)
  have hoperands : ∀ z ∈ (Request.and x y).operands, z ∈ h₂.given := by
    simp [Request.operands, hstep₂.given_subset hx, hy]
  obtain ⟨h₃, hstep₃⟩ := ((hs.step hstep₁).step hstep₂).exists_step hoperands trivial
  have hr : Reached 4 4 h₃ := ⟨m, hm, .step (.step (.step .refl hstep₁) hstep₂) hstep₃⟩
  obtain ⟨r, _, _, hgiven⟩ := hstep₃.answer
  have hz : (r, BoolFn.all [.var 1, .var 2]) ∈ h₃.given := by
    rw [hgiven, Request.map, Request.meaning, hx', hy']
    exact List.mem_cons_self ..
  obtain ⟨n, hsize, _, hcard, hneg, _⟩ := reached_size hr _ hz
  -- The classes are those of the conjunction and of the lower variable.
  have hn : n = 2 := by
    rw [BoolFn.encard_cofactorClasses_conjunction (by decide) (BoolFn.below_var (by decide))
      (BoolFn.satisfiable_var 1), BoolFn.encard_cofactorClasses_var (by decide)] at hcard
    exact_mod_cast hcard.symm
  subst hn
  exact ⟨h₃, hr, _, hz, rfl, hsize, hneg⟩

end History

end Bdd

end SatMemo
