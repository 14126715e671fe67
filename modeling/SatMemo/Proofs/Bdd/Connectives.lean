import SatMemo.Bdd.Decider
import SatMemo.Proofs.BoolFn
import SatMemo.Proofs.Bdd.Ite

/-! # Every operation comes to the right edge

    The operations of a diagram, one lemma each.  None of them faults on known
    edges, each leaves a well-formed diagram that extends the one before, and in
    an ordered diagram the edge it returns denotes the function that the
    operation stands for.

    A list is combined from left to right, and the loop stops early once the
    outcome is settled.  That it does not look at the rest makes no difference
    to the function. -/

namespace SatMemo

namespace Bdd

/-- What an operation that stands for `F` came to. -/
structure Produced (m : Bdd) (F : BoolFn) (r : Edge) (m' : Bdd) : Prop where
  formed   : m'.Formed
  extended : m.Extends m'
  known    : m'.Known r
  same     : SameElsewhere m m'
  ordered  : m.Ordered → m'.Ordered
  eval     : m.Ordered → ∀ α, m'.eval α r = F α

/-- The reply `p` is an edge that stands for `F`. -/
def Produces (m : Bdd) (F : BoolFn) (p : Reply Bdd Edge) : Prop :=
  ∃ r m' events, p = ⟨.ok r, m', events⟩ ∧ m.Produced F r m'

/-! ## If-then-else and its instances -/

theorem Formed.produces_ok {m : Bdd} (hf : m.Formed) {e : Edge} (he : m.Known e) {F : BoolFn}
    (hF : ∀ α, m.eval α e = F α) : m.Produces F (.ok e m) :=
  ⟨e, m, [], rfl, hf, Extends.refl m, he, SameElsewhere.refl m, id, fun _ => hF⟩

theorem Formed.produces_ite {m : Bdd} (hf : m.Formed) {f g h : Edge} (hfk : m.Known f)
    (hgk : m.Known g) (hhk : m.Known h) :
    m.Produces (.ite (m.eval · f) (m.eval · g) (m.eval · h)) (m.ite f g h) := by
  obtain ⟨r, m', events, hrun, ha⟩ := hf.ite hfk hgk hhk
  refine ⟨r, m', events, hrun, ha.formed, ha.extended, ha.known, ha.same, ha.ordered,
    fun ho α => ?_⟩
  have ht : Triple.Known m ⟨f, g, h⟩ := ⟨hfk, hgk, hhk⟩
  rw [(ha.solves ho).eval, ht.eval_eq hf ha.formed ha.extended]
  rfl

/-- What stands for a function stands for every equal one. -/
theorem Produces.congr {m : Bdd} {F G : BoolFn} {p : Reply Bdd Edge} (h : m.Produces F p)
    (hG : ∀ α, F α = G α) : m.Produces G p := by
  rwa [show G = F from funext fun α => (hG α).symm]

theorem Formed.produces_and {m : Bdd} (hf : m.Formed) {a b : Edge} (ha : m.Known a)
    (hb : m.Known b) : m.Produces (fun α => m.eval α a && m.eval α b) (m.and a b) := by
  refine (hf.produces_ite ha hb hf.known_zero).congr fun α => ?_
  rw [BoolFn.ite_apply, hf.eval_zero]
  cases m.eval α a <;> rfl

theorem Formed.produces_or {m : Bdd} (hf : m.Formed) {a b : Edge} (ha : m.Known a)
    (hb : m.Known b) : m.Produces (fun α => m.eval α a || m.eval α b) (m.or a b) := by
  refine (hf.produces_ite ha hf.known_one hb).congr fun α => ?_
  rw [BoolFn.ite_apply, hf.eval_one]
  cases m.eval α a <;> rfl

/-! ## Lists -/

/-- Continue an operation on the diagram it left.  The continuation has to stand for the
    function only where the diagram is ordered. -/
theorem Produces.andThen {m : Bdd} {F G : BoolFn} {p : Reply Bdd Edge} (h : m.Produces F p)
    {k : Edge → Bdd → Reply Bdd Edge}
    (hk : ∀ r m', m.Produced F r m' → ∃ H, m'.Produces H (k r m') ∧
      (m.Ordered → ∀ α, H α = G α)) : m.Produces G (p.andThen k) := by
  obtain ⟨r, m₁, ev₁, rfl, h₁⟩ := h
  obtain ⟨H, ⟨r₂, m₂, ev₂, hrun, h₂⟩, hH⟩ := hk r m₁ h₁
  refine ⟨r₂, m₂, ev₁ ++ ev₂, by simp only [Reply.andThen, hrun], ?_⟩
  exact {
    formed   := h₂.formed
    extended := h₁.extended.trans h₂.extended
    known    := h₂.known
    same     := h₁.same.trans h₂.same
    ordered  := fun ho => h₂.ordered (h₁.ordered ho)
    eval     := fun ho α => (h₂.eval (h₁.ordered ho) α).trans (hH ho α) }

/-- The functions of known edges stay what they are. -/
theorem Formed.all_eval_eq {m m' : Bdd} (hf : m.Formed) (hf' : m'.Formed) (hx : m.Extends m')
    {es : List Edge} (hes : ∀ e ∈ es, m.Known e) (α : Nat → Bool) :
    es.all (m'.eval α) = es.all (m.eval α) := by
  exact BoolFn.list_all_congr fun e he => hf.eval_eq hf' hx (hes e he) α

theorem Formed.any_eval_eq {m m' : Bdd} (hf : m.Formed) (hf' : m'.Formed) (hx : m.Extends m')
    {es : List Edge} (hes : ∀ e ∈ es, m.Known e) (α : Nat → Bool) :
    es.any (m'.eval α) = es.any (m.eval α) := by
  exact BoolFn.list_any_congr fun e he => hf.eval_eq hf' hx (hes e he) α

theorem Formed.produces_conjoin {m : Bdd} (hf : m.Formed) {acc : Edge} (hacc : m.Known acc)
    {es : List Edge} (hes : ∀ e ∈ es, m.Known e) :
    m.Produces (fun α => m.eval α acc && es.all (m.eval α)) (m.conjoin acc es) := by
  induction es generalizing m acc with
  | nil =>
    exact hf.produces_ok hacc fun α => (Bool.and_true _).symm
  | cons e es ih =>
    have he := hes e (List.mem_cons_self ..)
    have hrest : ∀ e ∈ es, m.Known e := fun e he => hes e (List.mem_cons_of_mem _ he)
    refine (hf.produces_and hacc he).andThen fun r m₁ h₁ => ?_
    split
    · -- The conjunction is false already.
      refine ⟨_, h₁.formed.produces_ok h₁.known fun _ => rfl, fun ho α => ?_⟩
      have hr := h₁.eval ho α
      rw [List.all_cons, ← Bool.and_assoc, ← hr, ‹r = .zero›, h₁.formed.eval_zero]
      rfl
    · refine ⟨_, ih h₁.formed h₁.known fun e he => (hrest e he).mono h₁.extended,
        fun ho α => ?_⟩
      rw [h₁.eval ho, hf.all_eval_eq h₁.formed h₁.extended hrest, List.all_cons, Bool.and_assoc]

theorem Formed.produces_disjoin {m : Bdd} (hf : m.Formed) {acc : Edge} (hacc : m.Known acc)
    {es : List Edge} (hes : ∀ e ∈ es, m.Known e) :
    m.Produces (fun α => m.eval α acc || es.any (m.eval α)) (m.disjoin acc es) := by
  induction es generalizing m acc with
  | nil =>
    exact hf.produces_ok hacc fun α => (Bool.or_false _).symm
  | cons e es ih =>
    have he := hes e (List.mem_cons_self ..)
    have hrest : ∀ e ∈ es, m.Known e := fun e he => hes e (List.mem_cons_of_mem _ he)
    refine (hf.produces_or hacc he).andThen fun r m₁ h₁ => ?_
    split
    · -- The disjunction is true already.
      refine ⟨_, h₁.formed.produces_ok h₁.known fun _ => rfl, fun ho α => ?_⟩
      have hr := h₁.eval ho α
      rw [List.any_cons, ← Bool.or_assoc, ← hr, ‹r = .one›, h₁.formed.eval_one]
      rfl
    · refine ⟨_, ih h₁.formed h₁.known fun e he => (hrest e he).mono h₁.extended,
        fun ho α => ?_⟩
      rw [h₁.eval ho, hf.any_eval_eq h₁.formed h₁.extended hrest, List.any_cons, Bool.or_assoc]

theorem Formed.produces_conjunction {m : Bdd} (hf : m.Formed) {es : List Edge}
    (hes : ∀ e ∈ es, m.Known e) :
    m.Produces (fun α => es.all (m.eval α)) (m.conjunction es) := by
  refine (hf.produces_conjoin hf.known_one hes).congr fun α => ?_
  rw [hf.eval_one, Bool.true_and]

theorem Formed.produces_disjunction {m : Bdd} (hf : m.Formed) {es : List Edge}
    (hes : ∀ e ∈ es, m.Known e) :
    m.Produces (fun α => es.any (m.eval α)) (m.disjunction es) := by
  refine (hf.produces_disjoin hf.known_zero hes).congr fun α => ?_
  rw [hf.eval_zero, Bool.false_or]

/-! ## Branches and variables -/

/-- A branch above both of its halves. -/
theorem Ordered.produces_branch {m : Bdd} (ho : m.Ordered) {v : Nat} {low high : Edge}
    (hl : m.Known low) (hh : m.Known high) (hlow : m.level low < v) (hhigh : m.level high < v) :
    m.Produces (fun α => if α v then m.eval α high else m.eval α low) (m.branch v low high) := by
  have hv : v ≠ 0 := by omega
  obtain ⟨r, m', hrun, hb⟩ := ho.toFormed.branch hv hl hh
  refine ⟨r, m', [], hrun, hb.formed, hb.extended, hb.known, hb.same, fun _ => ?_,
    fun _ α => ?_⟩
  · exact hb.ordered ho hl hh hlow hhigh
  · exact hb.eval ho.toFormed hl hh α

theorem Formed.produces_projection {m : Bdd} (hf : m.Formed) {v : Nat} (hv : v ≠ 0) :
    m.Produces (.var v) (m.projection v) := by
  obtain ⟨r, m', hrun, hb⟩ := hf.branch hv hf.known_zero hf.known_one
  refine ⟨r, m', [], hrun, hb.formed, hb.extended, hb.known, hb.same, fun ho => ?_,
    fun _ α => ?_⟩
  · refine hb.ordered ho hf.known_zero hf.known_one ?_ ?_
    · rw [hf.level_zero]
      omega
    · rw [hf.level_one]
      omega
  · rw [hb.eval hf hf.known_zero hf.known_one, hf.eval_zero, hf.eval_one, BoolFn.var_apply]
    cases α v <;> rfl

/-- The diagram with one more name. -/
def named (m : Bdd) (name : String) : Bdd :=
  match m with
  | ⟨nodes, memo, varCount, names⟩ =>
      ⟨nodes, memo, varCount + 1, names.insert (varCount + 1) name⟩

@[simp] theorem varCount_named (m : Bdd) (name : String) :
    (m.named name).varCount = m.varCount + 1 := by
  cases m
  rfl

theorem alike_named (m : Bdd) (name : String) : m.Alike (m.named name) := by
  cases m
  exact ⟨rfl, fun _ => rfl⟩

/-- A new variable is the projection on the next number, in the diagram with its name. -/
theorem newVariable_eq (m : Bdd) (name : String) :
    m.newVariable name = (m.named name).projection (m.varCount + 1) := by
  cases m
  rfl

theorem Formed.produces_newVariable {m : Bdd} (hf : m.Formed) (name : String) :
    (m.named name).Produces (.var (m.varCount + 1)) (m.newVariable name) := by
  rw [newVariable_eq]
  exact ((alike_named m name).formed hf).produces_projection (Nat.succ_ne_zero _)

end Bdd

end SatMemo
