import SatMemo.Proofs.Library.Discrete
import SatMemo.Proofs.Oracle.Lowering

/-! # Working off as a recursion

    The list of nodes that building works off is the stack of a depth-first
    traversal.  To say that a recursive program does the same, `Replays` compares
    it with what is done about some nodes at the front of the list, whatever is
    behind them: both run through the same oracles, and stop together.

    Programs are compared from the bottom up: a node that has an entry, one that is
    lowered, one that is opened, and a list of operands of which some had entries
    when their node was opened and were not put into the list. -/

namespace SatMemo

namespace Oracle

open Library (contains)

variable {ε σ τ : Type} [Library ε] [Decider σ τ] {o o' : Oracle ε σ τ} {n : NodeId} {b : Nat}
  {rest front : List Pending} {p q : OracleM ε σ τ Unit}

/-- Working off the nodes `front` runs through the oracles that `p` runs through.  Of the
    budget it spends one for each entry that is made, but for those of nodes that are open. -/
def Replays (b : Nat) (front : List Pending) (p : OracleM ε σ τ Unit) (o : Oracle ε σ τ) :
    Prop :=
  ∀ rest, Ends p o fun r o' =>
    match r with
    | .ok _       => ∃ b', workOff b (front ++ rest) o = workOff b' rest o' ∧
        b' + o'.entries.size = b + o.entries.size + front.countP (·.opened)
    | .error stop => workOff b (front ++ rest) o = .error stop o'

theorem Replays.bind {front' : List Pending} (h : Replays b front p o)
    (h' : ∀ b' o', p o = .ok () o' →
      b' + o'.entries.size = b + o.entries.size + front.countP (·.opened) →
      Replays b' front' q o') :
    Replays b (front ++ front') (p >>= fun _ => q) o := by
  intro rest
  have hp := h (front' ++ rest)
  rw [List.append_assoc]
  cases hrun : p o with
  | ok u o₁ =>
    unfold Ends at hp
    rw [hrun] at hp
    obtain ⟨b₁, hwork, hsize⟩ := hp
    refine Ends.congr ?_ (bind_ok hrun)
    refine (h' b₁ o₁ hrun hsize rest).mono ?_
    intro r o₂ hr
    cases r with
    | ok _ =>
      obtain ⟨b₂, hwork₂, hsize₂⟩ := hr
      refine ⟨b₂, hwork.trans hwork₂, ?_⟩
      rw [List.countP_append]
      omega
    | error stop => exact hwork.trans hr
  | error stop o₁ =>
    unfold Ends at hp ⊢
    rw [hrun] at hp
    rw [bind_error hrun]
    exact hp

theorem replays_nil : Replays b [] (pure () : OracleM ε σ τ Unit) o :=
  fun _ => ⟨b, rfl, rfl⟩

theorem Replays.congr (h : Replays b front q o) (hpq : p o = q o) : Replays b front p o :=
  fun rest => (h rest).congr hpq

/-- A program that does what is done about one node alone. -/
theorem Replays.workOff_eq (h : Replays b [⟨n, false⟩] p o) : workOff b [⟨n, false⟩] o = p o := by
  have hp := h []
  unfold Ends at hp
  cases hrun : p o with
  | ok u o₁ =>
    rw [hrun] at hp
    obtain ⟨b', hwork, _⟩ := hp
    refine hwork.trans ?_
    cases b' <;> rfl
  | error stop o₁ =>
    rw [hrun] at hp
    exact hp

/-! ## One node -/

/-- A node that has an entry is left alone. -/
theorem workOff_of_entered {opened : Bool} {i : Nat} (h : indexOf? n o = .ok (some i) o) :
    workOff b (⟨n, opened⟩ :: rest) o = workOff b rest o := by
  have hsettle : settle (⟨n, opened⟩ :: rest) o = settle rest o := bind_ok h
  cases b <;>
  · unfold workOff
    show EStateM.bind _ _ o = EStateM.bind _ _ o
    unfold EStateM.bind
    rw [hsettle]

theorem replays_of_entered {i : Nat} (h : indexOf? n o = .ok (some i) o) (hp : p o = .ok () o) :
    Replays b [⟨n, false⟩] p o := by
  intro rest
  unfold Ends
  rw [hp]
  exact ⟨b, workOff_of_entered h, rfl⟩

/-- An open node that has no entry is lowered. -/
theorem workOff_opened (h : indexOf? n o = .ok none o) :
    workOff b (⟨n, true⟩ :: rest) o = (lower n >>= fun _ => workOff b rest) o := by
  have hsettle : settle (⟨n, true⟩ :: rest) o = (lower n >>= fun _ => settle rest) o := bind_ok h
  cases b <;>
  · unfold workOff
    rw [← bind_assoc]
    show EStateM.bind _ _ o = EStateM.bind _ _ o
    unfold EStateM.bind
    rw [hsettle]

theorem replays_lower (h : indexOf? n o = .ok none o)
    (hsize : ∀ o₁, lower n o = .ok () o₁ → o₁.entries.size = o.entries.size + 1) :
    Replays b [⟨n, true⟩] (lower n) o := by
  intro rest
  have hwork : workOff b ([⟨n, true⟩] ++ rest) o = (lower n >>= fun _ => workOff b rest) o :=
    workOff_opened h
  unfold Ends
  cases hrun : lower n o with
  | ok u o₁ =>
    refine ⟨b, hwork.trans (bind_ok hrun), ?_⟩
    show b + o₁.entries.size = b + o.entries.size + 1
    rw [hsize o₁ hrun]
    omega
  | error stop o₁ => exact hwork.trans (bind_error hrun)

/-- Another node that has no entry is opened. -/
theorem workOff_new (h : indexOf? n o = .ok none o) :
    workOff (b + 1) (⟨n, false⟩ :: rest) o
      = (openNode n >>= fun opened => workOff b (opened ++ rest)) o := by
  have hsettle : settle (⟨n, false⟩ :: rest) o = .ok (some (n, rest)) o := bind_ok h
  exact bind_ok hsettle

/-- Opening takes one of the budget, which the node gives back when it is lowered. -/
theorem replays_open {opened : List Pending} (h : indexOf? n o = .ok none o)
    (hopen : openNode n o = .ok opened o) (hcount : opened.countP (·.opened) = 1)
    (hp : Replays b opened p o) : Replays (b + 1) [⟨n, false⟩] p o := by
  intro rest
  have hwork : workOff (b + 1) ([⟨n, false⟩] ++ rest) o = workOff b (opened ++ rest) o :=
    (workOff_new h).trans (bind_ok hopen)
  apply (hp rest).mono
  intro r o₁ hr
  cases r with
  | ok u =>
    obtain ⟨b₁, hwork₁, hsize⟩ := hr
    refine ⟨b₁, hwork.trans hwork₁, ?_⟩
    rw [hsize, hcount]
    show b + _ + 1 = b + 1 + _ + 0
    omega
  | error stop => exact hwork.trans hr

/-- A node that cannot be opened stops the work. -/
theorem replays_open_error {stop : Stop} (h : indexOf? n o = .ok none o)
    (hopen : openNode n o = .error stop o) (hp : p o = .error stop o) :
    Replays (b + 1) [⟨n, false⟩] p o := by
  intro rest
  unfold Ends
  rw [hp]
  exact (workOff_new h).trans (bind_error hopen)

/-! ## Operands -/

section Operands

variable {entered : NodeId → Prop} [DecidablePred entered] {kind : Kind} {ms : List NodeId}

variable (entered) in
/-- The nodes of a list that have no entries, still to be opened. -/
def unopened (ms : List NodeId) : List Pending :=
  (ms.filter fun m => ¬ entered m).map (⟨·, false⟩)

theorem unopened_cons_of_entered {m : NodeId} (hm : entered m) :
    unopened entered (m :: ms) = unopened entered ms := by
  simp [unopened, hm]

theorem unopened_cons_of_new {m : NodeId} (hm : ¬ entered m) :
    unopened entered (m :: ms) = ⟨m, false⟩ :: unopened entered ms := by
  simp [unopened, hm]

theorem unopened_append (ms ms' : List NodeId) :
    unopened entered (ms ++ ms') = unopened entered ms ++ unopened entered ms' := by
  simp [unopened]

/-- Only the node that was opened is open. -/
theorem countP_unopened (ms : List NodeId) (n : NodeId) :
    List.countP (·.opened) (unopened entered ms ++ [⟨n, true⟩]) = 1 := by
  simp [unopened]

variable (entered) in
/-- What is known about the entries of some nodes that the library holds. -/
def Known (ms : List NodeId) (o : Oracle ε σ τ) : Prop :=
  ∀ m ∈ ms, contains o.library m = true ∧
    (entered m → ∃ i, indexOf? m o = .ok (some i) o) ∧
    (¬ entered m → indexOf? m o = .ok none o)

omit [Decider σ τ] in
/-- An operand that the library holds is put into the list if it has no entry. -/
theorem pushOperands_cons {m : NodeId} {i? : Option Nat} (hm : contains o.library m = true)
    (hi : indexOf? m o = .ok i? o) (pending : List Pending) :
    pushOperands (m :: ms) pending o
      = pushOperands ms (if i?.isSome then pending else ⟨m, false⟩ :: pending) o := by
  have hholds : holds m o = .ok true o := congrArg (EStateM.Result.ok · o) hm
  rw [pushOperands, bind_ok hholds, if_pos rfl]
  refine (bind_ok hi).trans ?_
  cases i? <;> rfl

omit [Decider σ τ] in
theorem pushOperands_eq (h : Known entered ms o) (pending : List Pending) :
    pushOperands ms pending o = .ok (unopened entered ms.reverse ++ pending) o := by
  induction ms generalizing pending with
  | nil => rfl
  | cons m ms ih =>
    have ih := ih fun k hk => h k (List.mem_cons_of_mem _ hk)
    obtain ⟨hm, hfound, hnew⟩ := h m (List.mem_cons_self ..)
    rw [List.reverse_cons, unopened_append, List.append_assoc]
    by_cases hentered : entered m
    · obtain ⟨i, hi⟩ := hfound hentered
      rw [pushOperands_cons hm hi, unopened_cons_of_entered hentered]
      exact ih pending
    · rw [pushOperands_cons hm (hnew hentered), unopened_cons_of_new hentered]
      exact ih (⟨m, false⟩ :: pending)

omit [Decider σ τ] in
/-- The first node of the list that the library does not hold stops the opening. -/
theorem pushOperands_eq_error {m : NodeId} (pending : List Pending)
    (hfound : ∀ k ∈ ms, contains o.library k = true → ∃ i?, indexOf? k o = .ok i? o)
    (hm : ms.find? (fun k => !contains o.library k) = some m) :
    pushOperands ms pending o = .error (.error (.unknownNode m)) o := by
  induction ms generalizing pending with
  | nil => cases hm
  | cons k ms ih =>
    rw [List.find?_cons] at hm
    cases hk : contains o.library k with
    | false =>
      have hholds : holds k o = .ok false o := congrArg (EStateM.Result.ok · o) hk
      rw [hk] at hm
      cases hm
      exact bind_ok hholds
    | true =>
      rw [hk] at hm
      obtain ⟨i?, hi⟩ := hfound k (List.mem_cons_self ..) hk
      rw [pushOperands_cons hk hi]
      exact ih _ (fun k hk => hfound k (List.mem_cons_of_mem _ hk)) hm

omit [Decider σ τ] in
theorem openNode_eq (hkind : Library.kind o.library n = .ok kind)
    (hms : Library.children o.library n = .ok ms) (haccepts : kind.accepts ms.length = true)
    (h : Known entered ms o) :
    openNode n o = .ok (unopened entered ms ++ [⟨n, true⟩]) o := by
  unfold openNode
  rw [bind_ok (ask_eq hkind), bind_ok (ask_eq hms), if_pos haccepts]
  have hreverse : Known entered ms.reverse o := fun m hm => h m (List.mem_reverse.1 hm)
  have hpush := pushOperands_eq hreverse [⟨n, true⟩]
  rwa [List.reverse_reverse] at hpush

omit [Decider σ τ] in
/-- No node that is to blame can be opened. -/
theorem openNode_eq_error {e : Error} (h : Library.Blocked o.library n e)
    (hfound : ∀ m, contains o.library m = true → ∃ i?, indexOf? m o = .ok i? o) :
    openNode n o = .error (.error e) o := by
  cases h with
  | malformed hkind hms hnot =>
    unfold openNode
    rw [bind_ok (ask_eq hkind), bind_ok (ask_eq hms), hnot]
    rfl
  | unknown hkind hms haccepts hfind =>
    unfold openNode
    rw [bind_ok (ask_eq hkind), bind_ok (ask_eq hms), if_pos haccepts]
    exact pushOperands_eq_error _ (fun k _ hk => hfound k hk) hfind

/-- A program that goes through a list of operands, of which those that had entries when
    their node was opened were left out.  The invariant is kept from one operand to the
    next. -/
theorem replays_forM {f : NodeId → OracleM ε σ τ Unit}
    {I : Nat → List NodeId → Oracle ε σ τ → Prop}
    (hskip : ∀ {b m ms o}, I b (m :: ms) o → entered m → f m o = .ok () o)
    (hrun : ∀ {b m ms o}, I b (m :: ms) o → Replays b [⟨m, false⟩] (f m) o)
    (hnext : ∀ {b b' m ms o o'}, I b (m :: ms) o → f m o = .ok () o' →
      b' + o'.entries.size = b + o.entries.size → I b' ms o')
    (h : I b ms o) : Replays b (unopened entered ms) (ms.forM f) o := by
  induction ms generalizing b o with
  | nil => exact replays_nil
  | cons m ms ih =>
    by_cases hm : entered m
    · rw [unopened_cons_of_entered hm]
      have hf := hskip h hm
      exact (ih (hnext h hf rfl)).congr (bind_ok hf)
    · rw [unopened_cons_of_new hm]
      apply (hrun h).bind
      intro b₁ o₁ hf hsize
      exact ih (hnext h hf hsize)

end Operands

/-! ## A whole formula -/

/-- Nothing is done about a node that the library does not have. -/
theorem build_of_not_contains (hn : contains o.library n = false) :
    build n o = .error (.error (.unknownNode n)) o := by
  have hholds : holds n o = .ok false o := congrArg (EStateM.Result.ok · o) hn
  exact bind_ok hholds

/-- A formula that has an entry is not worked off. -/
theorem build_of_entered {i : Nat} (hn : contains o.library n = true)
    (hi : indexOf? n o = .ok (some i) o) :
    build n o = .ok i { o with
      stats := { o.stats with hits := o.stats.hits + 1 }
      journal := o.journal.push (.reused n i) } := by
  have hholds : holds n o = .ok true o := congrArg (EStateM.Result.ok · o) hn
  unfold build
  rw [bind_ok hholds, if_pos rfl]
  exact bind_ok hi

/-- Another one is worked off and looked up again. -/
theorem build_of_new (hn : contains o.library n = true) (h : indexOf? n o = .ok none o) :
    build n o = (workOff (Library.bound o.library) [⟨n, false⟩] >>= fun _ => do
      match ← indexOf? n with
      | some i => return i
      | none   => throw (.error (.unknownNode n))) o := by
  have hholds : holds n o = .ok true o := congrArg (EStateM.Result.ok · o) hn
  unfold build
  rw [bind_ok hholds, if_pos rfl]
  exact bind_ok h

end Oracle

end SatMemo
