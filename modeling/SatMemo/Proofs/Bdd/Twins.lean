import SatMemo.Proofs.Bdd.History
import SatMemo.Proofs.Bdd.Recompute

/-! # Diagrams over stores of different sizes answer alike

    Two honest diagrams with the same nodes come to the same edge for every
    request and have the same nodes again: if-then-else because both retrace one
    recursion without memo table, the rest because nothing else is looked up.
    Everything but a new variable can moreover be asked for again at any later
    time, whatever has been forgotten since, and comes to the same edge without
    a node being made.

    `stores_invisible` is the outcome for whole scripts of requests, from new
    diagrams over any two pairs of sizes.  A script need not observe the order of
    variables. -/

namespace SatMemo

namespace Bdd

/-! ## Asking for the same again -/

/-- From `m` on, whatever is remembered or forgotten, `act` comes to `r` and makes no node. -/
def Settled (m : Bdd) (act : Bdd → Reply Bdd Edge) (r : Edge) : Prop :=
  ∀ ⦃n : Bdd⦄, n.Honest → m.Extends n →
    ∃ n' ev, act n = ⟨.ok r, n', ev⟩ ∧ n'.Honest ∧ n.Twins n'

theorem Settled.mono {m n : Bdd} (hx : m.Extends n) {act : Bdd → Reply Bdd Edge} {r : Edge}
    (h : m.Settled act r) : n.Settled act r :=
  fun _ hp hx' => h hp (hx.trans hx')

/-- An answer that can be derived is settled. -/
theorem Derives.settled_ite {m : Bdd} {f g h r : Edge} (hd : m.Derives ⟨f, g, h⟩ r)
    (ht : Triple.Known m ⟨f, g, h⟩) : m.Settled (·.ite f g h) r := by
  intro n hn hx
  have ht' := ht.mono hx
  obtain ⟨r', n', p, ev, ev', hrun, hredo, a⟩ :=
    hn.retraces hn.toFormed (Twins.refl n) ht' (weight_le_splitDepth ht')
  rw [(hd.mono hx).recompute_eq hn.toFormed ht' (weight_le_splitDepth ht')] at hredo
  -- The recursion without memo table comes to `r` and leaves `n` as it is.
  injection hredo with hr hp _
  cases hr
  cases hp
  exact ⟨n', ev, (ite_eq_solve n f g h).trans hrun, a.honest, a.twins.symm⟩

theorem Holds.settled_branch {m : Bdd} {v : Nat} {low high r : Edge}
    (h : m.Holds v low high r) : m.Settled (·.branch v low high) r := by
  intro n hn hx
  exact ⟨n, [], (h.mono hx).branch_eq hn.toFormed, hn, Twins.refl n⟩

/-! ## Two diagrams side by side -/

/-- Two honest diagrams with the same nodes. -/
structure Matched (m n : Bdd) : Prop extends m.Twins n where
  left  : m.Honest
  right : n.Honest

/-- What an operation that started from `m` and a twin of it came to in both. -/
structure Came (m : Bdd) (r : Edge) (m' n' : Bdd) : Prop extends Matched m' n' where
  extended : m.Extends m'
  known    : m'.Known r

/-- `act` comes to the same edge in `m` and `n`, and would come to it again. -/
def Agrees (m n : Bdd) (act : Bdd → Reply Bdd Edge) : Prop :=
  ∃ r m' n' ev ev', act m = ⟨.ok r, m', ev⟩ ∧ act n = ⟨.ok r, n', ev'⟩ ∧
    m.Came r m' n' ∧ m'.Settled act r

variable {m n : Bdd}

theorem Matched.ok (h : Matched m n) {e : Edge} (he : m.Known e) :
    m.Agrees n (.ok e ·) :=
  ⟨e, m, n, [], [], rfl, rfl, ⟨h, Extends.refl m, he⟩,
    fun p hp _ => ⟨p, [], rfl, hp, Twins.refl p⟩⟩

theorem Matched.ite (h : Matched m n) {a b c : Edge} (ha : m.Known a) (hb : m.Known b)
    (hc : m.Known c) : m.Agrees n (·.ite a b c) := by
  have ht : Triple.Known m ⟨a, b, c⟩ := ⟨ha, hb, hc⟩
  have ht' := ht.mono h.extends
  have hf := h.left.toFormed
  obtain ⟨r, m', p, ev, _, hrun, hredo, a₁⟩ :=
    h.left.retraces hf (Twins.refl m) ht (weight_le_splitDepth ht)
  obtain ⟨r', n', p', ev', _, hrun', hredo', a₂⟩ :=
    h.right.retraces hf h.toTwins.symm ht' (weight_le_splitDepth ht')
  have hdepth : n.splitDepth = m.splitDepth := by
    unfold splitDepth
    rw [h.nodeCount_eq]
  -- Both retrace one recursion in `m`.
  rw [hdepth, hredo] at hredo'
  injection hredo' with hr hp _
  cases hr
  cases hp
  refine ⟨r, m', n', ev, ev', (ite_eq_solve m a b c).trans hrun, (ite_eq_solve n a b c).trans hrun',
    ⟨⟨a₁.twins.trans a₂.twins.symm, a₁.honest, a₂.honest⟩, a₁.extended, a₁.known⟩, ?_⟩
  exact a₁.derives.settled_ite (ht.mono a₁.extended)

theorem Matched.branch (h : Matched m n) {v : Nat} (hv : v ≠ 0) {low high : Edge}
    (hl : m.Known low) (hh : m.Known high) : m.Agrees n (·.branch v low high) := by
  obtain ⟨r, m', n', hm', hn', htwins⟩ :=
    h.toTwins.branch h.left.toFormed h.right.toFormed hv low high
  have hb := h.left.branched_of_eq hv hl hh hm'
  have hb' := h.right.branched_of_eq hv (hl.mono h.extends) (hh.mono h.extends) hn'
  exact ⟨r, m', n', [], [], hm', hn',
    ⟨⟨htwins, hb.honest h.left, hb'.honest h.right⟩, hb.extended, hb.known⟩,
    (hb.holds hv).settled_branch⟩

theorem Matched.and (h : Matched m n) {a b : Edge} (ha : m.Known a) (hb : m.Known b) :
    m.Agrees n (·.and a b) :=
  h.ite ha hb h.left.known_zero

theorem Matched.or (h : Matched m n) {a b : Edge} (ha : m.Known a) (hb : m.Known b) :
    m.Agrees n (·.or a b) :=
  h.ite ha h.left.known_one hb

theorem Matched.projection (h : Matched m n) {v : Nat} (hv : v ≠ 0) :
    m.Agrees n (·.projection v) :=
  h.branch hv h.left.known_zero h.left.known_one

/-- Continue on what the operation left in each of the two. -/
theorem Agrees.andThen {act : Bdd → Reply Bdd Edge} (h : m.Agrees n act)
    {k : Edge → Bdd → Reply Bdd Edge}
    (hk : ∀ r m' n', m.Came r m' n' → m'.Agrees n' (k r)) :
    m.Agrees n fun p => (act p).andThen k := by
  obtain ⟨r, m₁, n₁, ev₁, ev₁', hm₁, hn₁, h₁, hs₁⟩ := h
  obtain ⟨r₂, m₂, n₂, ev₂, ev₂', hm₂, hn₂, h₂, hs₂⟩ := hk r m₁ n₁ h₁
  refine ⟨r₂, m₂, n₂, ev₁ ++ ev₂, ev₁' ++ ev₂', by simp only [Reply.andThen, hm₁, hm₂],
    by simp only [Reply.andThen, hn₁, hn₂],
    ⟨h₂.toMatched, h₁.extended.trans h₂.extended, h₂.known⟩, ?_⟩
  -- Asked again, the two halves come to their answers one after the other.
  intro p hp hx
  obtain ⟨p₁, ev, hp₁, hhonest, htwins⟩ := hs₁ hp (h₂.extended.trans hx)
  obtain ⟨p₂, ev', hp₂, hhonest', htwins'⟩ := hs₂ hhonest (hx.trans htwins.extends)
  exact ⟨p₂, ev ++ ev', by simp only [Reply.andThen, hp₁, hp₂], hhonest', htwins.trans htwins'⟩

/-- Continue unless the operation has come to `stop`. -/
theorem Agrees.until {act : Bdd → Reply Bdd Edge} (h : m.Agrees n act) {stop : Edge}
    {k : Edge → Bdd → Reply Bdd Edge}
    (hk : ∀ r m' n', m.Came r m' n' → m'.Agrees n' (k r)) :
    m.Agrees n fun p => (act p).andThen fun r p => if r = stop then .ok r p else k r p := by
  apply h.andThen
  intro r m' n' h'
  by_cases hr : r = stop
  · simpa only [hr, if_true] using h'.toMatched.ok (hr ▸ h'.known)
  · simpa only [hr, if_false] using hk r m' n' h'

theorem Matched.conjoin (h : Matched m n) {acc : Edge} (hacc : m.Known acc) {es : List Edge}
    (hes : ∀ e ∈ es, m.Known e) : m.Agrees n (·.conjoin acc es) := by
  induction es generalizing m n acc with
  | nil => exact h.ok hacc
  | cons e es ih =>
    apply (h.and hacc (hes e (List.mem_cons_self ..))).until
    intro r m' n' h'
    exact ih h'.toMatched h'.known fun e he => (hes e (List.mem_cons_of_mem _ he)).mono h'.extended

theorem Matched.disjoin (h : Matched m n) {acc : Edge} (hacc : m.Known acc) {es : List Edge}
    (hes : ∀ e ∈ es, m.Known e) : m.Agrees n (·.disjoin acc es) := by
  induction es generalizing m n acc with
  | nil => exact h.ok hacc
  | cons e es ih =>
    apply (h.or hacc (hes e (List.mem_cons_self ..))).until
    intro r m' n' h'
    exact ih h'.toMatched h'.known fun e he => (hes e (List.mem_cons_of_mem _ he)).mono h'.extended

/-! ## Requests -/

namespace Request

variable {ρ ρ' : Type}

/-- Variables are numbered from 1. -/
def Numbered : Request ρ → Prop
  | projection v | branch v _ _ => 1 ≤ v
  | _                           => True

/-- Does the request make a variable? -/
def isVariable : Request ρ → Bool
  | make q => q.isVariable
  | _      => false

theorem operands_map (f : ρ → ρ') (q : Request ρ) : (q.map f).operands = q.operands.map f := by
  cases q with
  | make q => exact Maker.operands_map f q
  | _ => rfl

theorem isVariable_map (f : ρ → ρ') (q : Request ρ) : (q.map f).isVariable = q.isVariable := by
  cases q with
  | make q => exact Maker.isVariable_map f q
  | _ => rfl

theorem numbered_map {f : ρ → ρ'} {q : Request ρ} (h : q.Numbered) : (q.map f).Numbered := by
  cases q <;> exact h

/-- Only what is done to the operands matters. -/
theorem map_congr {f g : ρ → ρ'} {q : Request ρ} (h : ∀ x ∈ q.operands, f x = g x) :
    q.map f = q.map g := by
  cases q with
  | make q =>
    cases q with
    | complement x => simp [map, Maker.map, h x (by simp [operands, Maker.operands])]
    | conjunction xs => exact congrArg (make <| .conjunction ·) (List.map_congr_left h)
    | disjunction xs => exact congrArg (make <| .disjunction ·) (List.map_congr_left h)
    | _ => rfl
  | projection v => rfl
  | branch v low high => simp [map, h low (by simp [operands]), h high (by simp [operands])]
  | ite a b c =>
    simp [map, h a (by simp [operands]), h b (by simp [operands]), h c (by simp [operands])]
  | and a b => simp [map, h a (by simp [operands]), h b (by simp [operands])]
  | or a b => simp [map, h a (by simp [operands]), h b (by simp [operands])]

end Request

/-- The names of variables are no part of the nodes. -/
theorem Matched.named (h : Matched m n) (name : String) :
    Matched (m.named name) (n.named name) where
  varCount := by
    rw [varCount_named, varCount_named, h.varCount]
  names := by
    have hnames : ∀ p : Bdd, (p.named name).names = p.names.insert (p.varCount + 1) name := by
      intro p
      cases p
      rfl
    rw [hnames, hnames, h.varCount, h.names]
  nodes := by
    rw [(alike_named m name).nodes, (alike_named n name).nodes, h.nodes]
  left := (alike_named m name).honest h.left
  right := (alike_named n name).honest h.right

/-- Everything but a new variable is answered alike, and would be answered so again. -/
theorem Matched.agrees_perform (h : Matched m n) {q : Request Edge}
    (hq : ∀ e ∈ q.operands, m.Known e) (hnum : q.Numbered) (hvar : q.isVariable = false) :
    m.Agrees n (·.perform q) := by
  cases q with
  | make q =>
    cases q with
    | constTrue => exact h.ok h.left.known_one
    | constFalse => exact h.ok h.left.known_zero
    | newVariable name => cases hvar
    | complement e => exact h.ok (hq e (List.mem_singleton.2 rfl)).neg
    | conjunction es => exact h.conjoin h.left.known_one hq
    | disjunction es => exact h.disjoin h.left.known_zero hq
  | projection v => exact h.projection (Nat.one_le_iff_ne_zero.1 hnum)
  | branch v low high =>
    exact h.branch (Nat.one_le_iff_ne_zero.1 hnum) (hq low (by simp [Request.operands]))
      (hq high (by simp [Request.operands]))
  | ite a b c =>
    exact h.ite (hq a (by simp [Request.operands])) (hq b (by simp [Request.operands]))
      (hq c (by simp [Request.operands]))
  | and a b =>
    exact h.and (hq a (by simp [Request.operands])) (hq b (by simp [Request.operands]))
  | or a b =>
    exact h.or (hq a (by simp [Request.operands])) (hq b (by simp [Request.operands]))

theorem Matched.perform (h : Matched m n) {q : Request Edge}
    (hq : ∀ e ∈ q.operands, m.Known e) (hnum : q.Numbered) :
    ∃ r m' n' ev ev', m.perform q = ⟨.ok r, m', ev⟩ ∧ n.perform q = ⟨.ok r, n', ev'⟩ ∧
      m.Came r m' n' ∧ (q.isVariable = false → m'.Settled (·.perform q) r) := by
  cases hvar : q.isVariable with
  | false =>
    obtain ⟨r, m', n', ev, ev', hm', hn', h', hs⟩ := h.agrees_perform hq hnum hvar
    exact ⟨r, m', n', ev, ev', hm', hn', h', fun _ => hs⟩
  | true =>
    -- A new variable is a projection, after its name was noted in both.
    obtain ⟨name, rfl⟩ : ∃ name, q = .make (.newVariable name) := by
      cases q with
      | make q =>
        cases q with
        | newVariable name => exact ⟨name, rfl⟩
        | _ => cases hvar
      | _ => cases hvar
    obtain ⟨r, m', n', ev, ev', hm', hn', h', _⟩ :=
      (h.named name).projection (Nat.succ_ne_zero m.varCount)
    refine ⟨r, m', n', ev, ev', ?_, ?_, ⟨h'.toMatched, ?_, h'.known⟩, nofun⟩
    · exact (newVariable_eq m name).trans hm'
    · rw [← hn', ← h.varCount]
      exact newVariable_eq n name
    · exact (alike_named m name).extends.trans h'.extended

/-! ## Scripts -/

/-- The edge at a position among those returned so far. -/
def handle (given : List Edge) (k : Nat) : Edge :=
  given.getD k .one

/-- Carry requests out one after the other.  An operand is the position of an edge among
    those that were given so far, the new ones at the end. -/
def play (m : Bdd) (given : List Edge) : List (Request Nat) → Reply Bdd (List Edge)
  | []      => .ok given m
  | q :: qs =>
      (m.perform (q.map (handle given))).andThen fun r m => play m (given ++ [r]) qs

/-- Operands are among the edges given so far, `count` of them at the start, and variables
    are numbered from 1. -/
def Admits (count : Nat) : List (Request Nat) → Prop
  | []      => True
  | q :: qs => (∀ k ∈ q.operands, k < count) ∧ q.Numbered ∧ Admits (count + 1) qs

theorem play_append (m : Bdd) (given : List Edge) (qs qs' : List (Request Nat)) :
    m.play given (qs ++ qs') = (m.play given qs).andThen fun given m => m.play given qs' := by
  induction qs generalizing m given with
  | nil => rfl
  | cons q qs ih =>
    simp only [List.cons_append, play]
    rcases m.perform (q.map (handle given)) with ⟨fault | r, m₁, ev⟩
    · rfl
    · simp only [Reply.andThen, ih]
      rcases m₁.play (given ++ [r]) qs with ⟨fault | given', m₂, ev'⟩
      · rfl
      · simp only [List.append_assoc]

theorem admits_of_append {count : Nat} {qs qs' : List (Request Nat)}
    (h : Admits count (qs ++ qs')) : Admits count qs ∧ Admits (count + qs.length) qs' := by
  induction qs generalizing count with
  | nil => exact ⟨trivial, h⟩
  | cons q qs ih =>
    obtain ⟨hops, hnum, hrest⟩ := h
    obtain ⟨hqs, hqs'⟩ := ih hrest
    refine ⟨⟨hops, hnum, hqs⟩, ?_⟩
    rwa [List.length_cons, Nat.add_comm qs.length, ← Nat.add_assoc]

theorem Admits.operands_lt {count : Nat} {qs : List (Request Nat)} (h : Admits count qs) {i : Nat}
    {q : Request Nat} (hi : qs[i]? = some q) : ∀ k ∈ q.operands, k < count + i := by
  induction qs generalizing count i with
  | nil => cases hi
  | cons q' qs ih =>
    obtain ⟨hops, _, hrest⟩ := h
    cases i with
    | zero =>
      cases hi
      exact hops
    | succ i =>
      intro k hk
      have := ih hrest hi k hk
      omega

/-- Edges keep their positions when more are given. -/
theorem handle_append (given more : List Edge) {k : Nat} (hk : k < given.length) :
    handle (given ++ more) k = handle given k := by
  simp [handle, List.getElem?_append_left hk]

theorem map_handle_append (given more : List Edge) {q : Request Nat}
    (hq : ∀ k ∈ q.operands, k < given.length) :
    q.map (handle (given ++ more)) = q.map (handle given) :=
  Request.map_congr fun k hk => handle_append given more (hq k hk)

/-- What a script came to in two diagrams that started with the same nodes.  `given` are the
    edges from before, `answers` those that the script was answered with. -/
structure Played (given answers : List Edge) (qs : List (Request Nat)) (m' n' : Bdd) : Prop
    extends Matched m' n' where
  length  : answers.length = qs.length
  known   : ∀ e ∈ given ++ answers, m'.Known e
  settled : ∀ i q, qs[i]? = some q → q.isVariable = false →
    m'.Settled (·.perform (q.map (handle (given ++ answers))))
      (handle (given ++ answers) (given.length + i))

theorem Matched.play (h : Matched m n) {given : List Edge} (hg : ∀ e ∈ given, m.Known e)
    {qs : List (Request Nat)} (hq : Admits given.length qs) :
    ∃ answers m' n' ev ev', m.play given qs = ⟨.ok (given ++ answers), m', ev⟩ ∧
      n.play given qs = ⟨.ok (given ++ answers), n', ev'⟩ ∧ m.Extends m' ∧
      Played given answers qs m' n' := by
  induction qs generalizing m n given with
  | nil =>
    refine ⟨[], m, n, [], [], by rw [List.append_nil]; rfl, by rw [List.append_nil]; rfl,
      Extends.refl m, h, rfl, by rwa [List.append_nil], ?_⟩
    intro i q hi
    cases hi
  | cons q qs ih =>
    obtain ⟨hops, hnum, hrest⟩ := hq
    have hknown : ∀ e ∈ (q.map (handle given)).operands, m.Known e := by
      intro e he
      rw [Request.operands_map] at he
      obtain ⟨k, hk, rfl⟩ := List.mem_map.1 he
      have hlt := hops k hk
      simp only [handle, List.getD_eq_getElem?_getD, List.getElem?_eq_getElem hlt, Option.getD_some]
      exact hg _ (List.getElem_mem hlt)
    obtain ⟨r, m₁, n₁, ev, ev', hm₁, hn₁, h₁, hs₁⟩ := h.perform hknown (Request.numbered_map hnum)
    have hg₁ : ∀ e ∈ given ++ [r], m₁.Known e := by
      intro e he
      by_cases her : e ∈ given
      · exact (hg e her).mono h₁.extended
      · have : e = r := by simpa [her] using he
        exact this ▸ h₁.known
    obtain ⟨answers, m', n', evs, evs', hm', hn', hx, hp⟩ :=
      ih h₁.toMatched hg₁ (by rwa [List.length_append, List.length_singleton])
    have hgiven : given ++ [r] ++ answers = given ++ r :: answers := by simp
    have hknown' := hp.known
    have hsettled' := hp.settled
    rw [hgiven] at hm' hn' hknown' hsettled'
    refine ⟨r :: answers, m', n', ev ++ evs, ev' ++ evs',
      by simp only [Bdd.play, hm₁, hm', Reply.andThen],
      by simp only [Bdd.play, hn₁, hn', Reply.andThen], h₁.extended.trans hx, hp.toMatched,
      by rw [List.length_cons, hp.length, List.length_cons], hknown', ?_⟩
    intro i q' hi hvar
    cases i with
    | zero =>
      cases hi
      -- The first request was settled before the others were made.
      have hs := (hs₁ (by rwa [Request.isVariable_map])).mono hx
      rw [map_handle_append given (r :: answers) hops]
      simpa [handle] using hs
    | succ i =>
      have hs := hsettled' i q' hi hvar
      rwa [List.length_append, List.length_singleton, Nat.add_assoc, Nat.add_comm 1] at hs

/-- The first requests of a script are a script by themselves, and the others go on from
    there. -/
theorem Matched.play_take (h : Matched m n) {given : List Edge} (hg : ∀ e ∈ given, m.Known e)
    {qs : List (Request Nat)} (hq : Admits given.length qs) {answers : List Edge} {m' : Bdd}
    {ev : List Event} (hplay : m.play given qs = ⟨.ok (given ++ answers), m', ev⟩) (k : Nat) :
    ∃ as bs m₁ n₁ ev₁ ev₁', answers = as ++ bs ∧
      m.play given (qs.take k) = ⟨.ok (given ++ as), m₁, ev₁⟩ ∧
      n.play given (qs.take k) = ⟨.ok (given ++ as), n₁, ev₁'⟩ ∧
      Played given as (qs.take k) m₁ n₁ := by
  rw [← List.take_append_drop k qs] at hq hplay
  obtain ⟨hfirst, hrest⟩ := admits_of_append hq
  obtain ⟨as, m₁, n₁, ev₁, ev₁', hm₁, hn₁, -, hp⟩ := h.play hg hfirst
  obtain ⟨bs, _, _, _, _, hmore, _⟩ :=
    hp.toMatched.play hp.known (by rwa [List.length_append, hp.length])
  have hanswers : answers = as ++ bs := by
    rw [play_append, hm₁] at hplay
    simp only [Reply.andThen, hmore] at hplay
    injection hplay with hgiven
    rw [List.append_assoc] at hgiven
    exact (List.append_cancel_left (Except.ok.inj hgiven)).symm
  exact ⟨as, bs, m₁, n₁, ev₁, ev₁', hanswers, hm₁, hn₁, hp⟩

/-- The nodes of `m`, and no answers but some of those that `m` remembers. -/
structure Forgetful (m p : Bdd) : Prop where
  nodes : p.nodes = m.nodes
  peek  : ∀ key r, p.memo.peek? key = some r → m.memo.peek? key = some r

theorem Forgetful.honest {m p : Bdd} (h : m.Forgetful p) (hm : m.Honest) : p.Honest :=
  hm.of_forgotten h.nodes fun {key r} hr => h.peek key r hr

/-- Where answers have been evicted since, a request comes to the same edge again. -/
theorem Played.again {given answers more : List Edge} {qs : List (Request Nat)} {p : Bdd}
    (h : Played given answers qs m n) (hq : Admits given.length qs) {i : Nat} {q : Request Nat}
    (hi : qs[i]? = some q) (hvar : q.isVariable = false) (hp : m.Forgetful p) :
    ∃ p' ev, p.perform (q.map (handle (given ++ answers ++ more)))
        = ⟨.ok (handle (given ++ answers ++ more) (given.length + i)), p', ev⟩ ∧ p.Twins p' := by
  obtain ⟨p', ev, hrun, _, htwins⟩ :=
    h.settled i q hi hvar (hp.honest h.left) (Extends.of_nodes_eq hp.nodes)
  have hlt : i < qs.length := (List.getElem?_eq_some_iff.1 hi).1
  have hlength := h.length
  refine ⟨p', ev, ?_, htwins⟩
  rw [map_handle_append _ more, handle_append _ more]
  · exact hrun
  · rw [List.length_append]
    omega
  · intro k hk
    have := hq.operands_lt hi k hk
    rw [List.length_append]
    omega

theorem names_of_ofBits {storageBits memoBits : Nat} {m : Bdd}
    (h : ofBits storageBits memoBits = .ok m) : m.names = ∅ := by
  cases m with
  | mk nodes memo varCount names =>
    unfold ofBits Arena.ofBits Memo.ofBits at h
    split at h
    · split at h
      · simp only [bind, Except.bind, pure, Except.pure, Except.ok.injEq, Bdd.mk.injEq] at h
        exact h.2.2.2.symm
      · cases h
    · cases h

theorem matched_of_ofBits {s c s' c' : Nat} {m n : Bdd} (hm : ofBits s c = .ok m)
    (hn : ofBits s' c' = .ok n) : Matched m n where
  varCount := by rw [(fresh_of_ofBits hm).varCount, (fresh_of_ofBits hn).varCount]
  names := by rw [names_of_ofBits hm, names_of_ofBits hn]
  nodes := by rw [(fresh_of_ofBits hm).nodes, (fresh_of_ofBits hn).nodes]
  left := (fresh_of_ofBits hm).honest
  right := (fresh_of_ofBits hn).honest

/-- Whatever the sizes of their stores, two new diagrams answer every script alike.  After
    every call `m` and `n`, what the one and the other have become, hold the same nodes
    under the same numbers, and the same variables.

    Every earlier request but those for new variables can then be made again, even where
    answers have been evicted since: it comes to the same edge, and no node is made or
    renumbered for it. -/
theorem stores_invisible {s c s' c' : Nat} (hs : s ≤ 31) (hc : c ≤ 31) (hs' : s' ≤ 31)
    (hc' : c' ≤ 31) {qs : List (Request Nat)} (hq : Admits 2 qs) :
    ∃ m₀ n₀ given, ofBits s c = .ok m₀ ∧ ofBits s' c' = .ok n₀ ∧
      given.length = 2 + qs.length ∧
      ∀ done ≤ qs.length, ∃ m n ev ev',
        m₀.play [.one, .zero] (qs.take done) = ⟨.ok (given.take (2 + done)), m, ev⟩ ∧
        n₀.play [.one, .zero] (qs.take done) = ⟨.ok (given.take (2 + done)), n, ev'⟩ ∧
        m.Twins n ∧
        ∀ i < done, ∀ q, qs[i]? = some q → q.isVariable = false →
          ∀ p, m.Forgetful p → ∃ p' ev,
            p.perform (q.map (handle given)) = ⟨.ok (handle given (2 + i)), p', ev⟩ ∧
            p.Twins p' := by
  obtain ⟨m₀, hm₀⟩ := exists_ofBits_eq_ok hs hc
  obtain ⟨n₀, hn₀⟩ := exists_ofBits_eq_ok hs' hc'
  have h₀ := matched_of_ofBits hm₀ hn₀
  have hg₀ : ∀ e ∈ [Edge.one, .zero], m₀.Known e := by
    intro e he
    simp only [List.mem_cons, List.not_mem_nil, or_false] at he
    obtain rfl | rfl := he
    · exact h₀.left.known_one
    · exact h₀.left.known_zero
  obtain ⟨answers, m', n', _, _, hm', _, _, hp⟩ := h₀.play hg₀ hq
  refine ⟨m₀, n₀, [.one, .zero] ++ answers, hm₀, hn₀,
    by rw [List.length_append, hp.length]; rfl, ?_⟩
  intro done hdone
  obtain ⟨as, bs, m, n, ev, ev', rfl, hm, hn, hp₁⟩ := h₀.play_take hg₀ hq hm' done
  have hlength : ([Edge.one, .zero] ++ as).length = 2 + done := by
    rw [List.length_append, hp₁.length, List.length_take_of_le hdone]
    rfl
  have htake : ([Edge.one, .zero] ++ (as ++ bs)).take (2 + done) = [.one, .zero] ++ as := by
    rw [← List.append_assoc, ← hlength, List.take_left]
  refine ⟨m, n, ev, ev', htake ▸ hm, htake ▸ hn, hp₁.toTwins, ?_⟩
  intro i hi q hqi hvar p hforget
  rw [← List.append_assoc]
  have hfirst : Admits 2 (qs.take done) := by
    rw [← List.take_append_drop done qs] at hq
    exact (admits_of_append hq).1
  exact hp₁.again hfirst (by rwa [List.getElem?_take_of_lt hi]) hvar hforget

/-- Exclusive or of two variables, asked for twice, of a diagram with one bucket and one slot
    and of one with many. -/
theorem stores_invisible_exclusiveOr :
    ∃ m₀ n₀ given, ofBits 0 0 = .ok m₀ ∧ ofBits 8 16 = .ok n₀ ∧ given.length = 7 ∧
      ∃ m n ev ev',
        m₀.play [.one, .zero] [.make (.newVariable "x"), .make (.newVariable "y"),
          .make (.complement 3), .ite 2 4 3, .ite 2 4 3] = ⟨.ok given, m, ev⟩ ∧
        n₀.play [.one, .zero] [.make (.newVariable "x"), .make (.newVariable "y"),
          .make (.complement 3), .ite 2 4 3, .ite 2 4 3] = ⟨.ok given, n, ev'⟩ ∧
        m.Twins n := by
  have hadmits : Admits 2 [.make (.newVariable "x"), .make (.newVariable "y"),
      .make (.complement 3), .ite 2 4 3, .ite 2 4 3] := by
    simp [Admits, Request.operands, Maker.operands, Request.Numbered]
  obtain ⟨m₀, n₀, given, hm₀, hn₀, hlength, hplay⟩ :=
    stores_invisible (by decide : 0 ≤ 31) (by decide : 0 ≤ 31) (by decide : 8 ≤ 31)
      (by decide : 16 ≤ 31) hadmits
  obtain ⟨m, n, ev, ev', hm, hn, htwins, _⟩ := hplay 5 (Nat.le_refl 5)
  have hlength : given.length = 7 := hlength
  have hall : given.take (2 + 5) = given := List.take_of_length_le (Nat.le_of_eq hlength)
  rw [hall] at hm hn
  exact ⟨m₀, n₀, given, hm₀, hn₀, hlength, m, n, ev, ev', hm, hn, htwins⟩

end Bdd

end SatMemo
