import SatMemo.Proofs.Decider.Talk
import SatMemo.Proofs.Oracle.Calls

/-! # Two oracles side by side

    `Couples R p q` says that the calls `p` and `q`, made on oracles that `R`
    relates, come to the same, stops included, and leave related oracles again.
    It goes through programs line by line.

    A relation is a `Coupling` if it gives building all that it looks at: the same
    index and entries, libraries that give the same answers and deciders that make
    the same objects.  Building then goes alike on both sides
    (`Coupling.build`). -/

namespace SatMemo

namespace ClassMap

variable {ε ε' ν : Type} [Library ε] [Library ε'] {lib : ε} {lib' : ε'}

/-- Maps are searched alike in libraries that compare nodes alike. -/
theorem search_congr (heq : (Library.structEq lib' : NodeId → _) = Library.structEq lib)
    (n : NodeId) (bucket : List (NodeId × ν)) : search lib' n bucket = search lib n bucket := by
  induction bucket with
  | nil => rfl
  | cons entry rest ih =>
    obtain ⟨m, v⟩ := entry
    unfold search
    rw [heq, ih]

theorem find?_congr (heq : (Library.structEq lib' : NodeId → _) = Library.structEq lib)
    (hkey : (Library.structKey lib' : NodeId → _) = Library.structKey lib) (c : ClassMap ν)
    (n : NodeId) : c.find? lib' n = c.find? lib n := by
  unfold find?
  rw [hkey]
  simp only [search_congr heq]

theorem insert_congr (hkey : (Library.structKey lib' : NodeId → _) = Library.structKey lib)
    (c : ClassMap ν) (n : NodeId) (v : ν) : c.insert lib' n v = c.insert lib n v := by
  unfold insert
  rw [hkey]

end ClassMap

namespace Oracle

variable {ε ε' σ σ' τ α β : Type}

/-- From related oracles the calls come to the same and leave related oracles. -/
def Couples (R : Oracle ε σ τ → Oracle ε' σ' τ → Prop) (p : OracleM ε σ τ α)
    (q : OracleM ε' σ' τ α) : Prop :=
  ∀ o o', R o o' → Ends p o fun r o₁ => Ends q o' fun r' o₁' => r' = r ∧ R o₁ o₁'

section Couples

variable {R : Oracle ε σ τ → Oracle ε' σ' τ → Prop} {p : OracleM ε σ τ α}
  {q : OracleM ε' σ' τ α} {k : α → OracleM ε σ τ β} {k' : α → OracleM ε' σ' τ β}

theorem Couples.bind (h : Couples R p q) (hk : ∀ a, Couples R (k a) (k' a)) :
    Couples R (p >>= k) (q >>= k') := by
  intro o o' hR
  apply (h o o' hR).bind
  · intro a o₁ hq
    cases hrun : q o' with
    | ok a' o₁' =>
      unfold Ends at hq
      rw [hrun] at hq
      obtain ⟨heq, hR₁⟩ := hq
      cases heq
      apply (hk a o₁ o₁' hR₁).mono
      intro r o₂ hend
      exact hend.congr (bind_ok hrun)
    | error stop o₁' =>
      unfold Ends at hq
      rw [hrun] at hq
      cases hq.1
  · intro stop o₁ hq
    cases hrun : q o' with
    | ok a' o₁' =>
      unfold Ends at hq
      rw [hrun] at hq
      cases hq.1
    | error stop' o₁' =>
      unfold Ends at hq ⊢
      rw [hrun] at hq
      rw [bind_error hrun]
      obtain ⟨heq, hR₁⟩ := hq
      cases heq
      exact ⟨rfl, hR₁⟩

/-- What coupled calls came to. -/
theorem Couples.of_ok (h : Couples R p q) {o o₁ : Oracle ε σ τ} {o' o₁' : Oracle ε' σ' τ}
    {a a' : α} (hR : R o o') (hp : p o = .ok a o₁) (hq : q o' = .ok a' o₁') :
    a' = a ∧ R o₁ o₁' := by
  have hend := h o o' hR
  unfold Ends at hend
  rw [hp] at hend
  dsimp only at hend
  rw [hq] at hend
  obtain ⟨heq, hR₁⟩ := hend
  exact ⟨Except.ok.inj heq, hR₁⟩

theorem Couples.pure (a : α) :
    Couples R (Pure.pure a : OracleM ε σ τ α) (Pure.pure a : OracleM ε' σ' τ α) :=
  fun _ _ hR => ⟨rfl, hR⟩

theorem Couples.throw (stop : Stop) :
    Couples R (MonadExcept.throw stop : OracleM ε σ τ α)
      (MonadExcept.throw stop : OracleM ε' σ' τ α) :=
  fun _ _ hR => ⟨rfl, hR⟩

/-- Programs that start from the oracles as they are. -/
theorem Couples.get {k : Oracle ε σ τ → OracleM ε σ τ β} {k' : Oracle ε' σ' τ → OracleM ε' σ' τ β}
    (h : ∀ o o', R o o' → Couples R (k o) (k' o')) :
    Couples R (MonadState.get >>= k) (MonadState.get >>= k') :=
  fun o o' hR => h o o' hR o o' hR

theorem Couples.modify {f : Oracle ε σ τ → Oracle ε σ τ} {f' : Oracle ε' σ' τ → Oracle ε' σ' τ}
    (h : ∀ o o', R o o' → R (f o) (f' o')) :
    Couples R (modify f : OracleM ε σ τ PUnit) (modify f' : OracleM ε' σ' τ PUnit) :=
  fun o o' hR => ⟨rfl, h o o' hR⟩

theorem Couples.ite {c : Prop} [Decidable c] {p' : OracleM ε σ τ α} {q' : OracleM ε' σ' τ α}
    (h : Couples R p q) (h' : Couples R p' q') :
    Couples R (if c then p else p') (if c then q else q') := by
  by_cases hc : c
  · rw [if_pos hc, if_pos hc]
    exact h
  · rw [if_neg hc, if_neg hc]
    exact h'

/-- A test in front of the programs that stops them if it fails. -/
theorem Couples.guard {c : Prop} [Decidable c] {stop : Stop} {k : Unit → OracleM ε σ τ β}
    {k' : Unit → OracleM ε' σ' τ β} (h : ∀ u, Couples R (k u) (k' u)) :
    Couples R (if c then k () else MonadExcept.throw stop >>= k)
      (if c then k' () else MonadExcept.throw stop >>= k') :=
  Couples.ite (h ()) ((Couples.throw stop).bind h)

theorem couples_orFault (r : Except Fault α) :
    Couples R (orFault r : OracleM ε σ τ α) (orFault r : OracleM ε' σ' τ α) := by
  cases r with
  | ok a => exact Couples.pure a
  | error fault => exact Couples.throw _

/-- Questions that get the same answers. -/
theorem couples_ask {question : ε → Except Fault α} {question' : ε' → Except Fault α}
    (h : ∀ o o', R o o' → question' o'.library = question o.library) :
    Couples R (ask question : OracleM ε σ τ α) (ask question' : OracleM ε' σ' τ α) := by
  apply Couples.get
  intro o o' hR
  rw [h o o' hR]
  exact couples_orFault _

end Couples

variable [Library ε] [Library ε']

/-- What building looks at is the same in both oracles. -/
structure Alike (o : Oracle ε σ τ) (o' : Oracle ε' σ' τ) : Prop where
  index     : o'.index = o.index
  entries   : o'.entries = o.entries
  bound     : Library.bound o'.library = Library.bound o.library
  contains  : (Library.contains o'.library : NodeId → _) = Library.contains o.library
  kind      : (Library.kind o'.library : NodeId → _) = Library.kind o.library
  children  : (Library.children o'.library : NodeId → _) = Library.children o.library
  label     : (Library.label o'.library : NodeId → _) = Library.label o.library
  structEq  : (Library.structEq o'.library : NodeId → _) = Library.structEq o.library
  structKey : (Library.structKey o'.library : NodeId → _) = Library.structKey o.library

variable [Decider σ τ] [Decider σ' τ]

/-- Related oracles are alike, and stay related by the steps of building. -/
structure Coupling (R : Oracle ε σ τ → Oracle ε' σ' τ → Prop) : Prop where
  alike : ∀ {o o'}, R o o' → Alike o o'
  make  : ∀ q : Maker τ, Couples R (callDecider q.run) (callDecider q.run)
  event : ∀ {o o'} e, R o o' →
    R { o with journal := o.journal.push e } { o' with journal := o'.journal.push e }
  entry : ∀ {o o'} e, R o o' →
    R { o with entries := o.entries.push e } { o' with entries := o'.entries.push e }
  hit   : ∀ {o o'}, R o o' →
    R { o with stats := { o.stats with hits := o.stats.hits + 1 } }
      { o' with stats := { o'.stats with hits := o'.stats.hits + 1 } }
  miss  : ∀ {o o'} index, R o o' →
    R { o with index, stats := { o.stats with misses := o.stats.misses + 1 } }
      { o' with index, stats := { o'.stats with misses := o'.stats.misses + 1 } }

namespace Coupling

variable {R : Oracle ε σ τ → Oracle ε' σ' τ → Prop} (hR : Coupling R)
include hR

theorem report (e : Event) :
    Couples R (report e : OracleM ε σ τ Unit) (report e : OracleM ε' σ' τ Unit) :=
  Couples.modify fun _ _ h => hR.event e h

theorem holds (n : NodeId) :
    Couples R (holds n : OracleM ε σ τ Bool) (holds n : OracleM ε' σ' τ Bool) := by
  apply Couples.get
  intro o o' h
  rw [(hR.alike h).contains]
  exact Couples.pure _

theorem kind (n : NodeId) :
    Couples R (ask fun lib => Library.kind lib n : OracleM ε σ τ Kind)
      (ask fun lib => Library.kind lib n : OracleM ε' σ' τ Kind) :=
  couples_ask fun _ _ h => congrFun (hR.alike h).kind n

theorem children (n : NodeId) :
    Couples R (ask fun lib => Library.children lib n : OracleM ε σ τ (List NodeId))
      (ask fun lib => Library.children lib n : OracleM ε' σ' τ (List NodeId)) :=
  couples_ask fun _ _ h => congrFun (hR.alike h).children n

theorem label (n : NodeId) :
    Couples R (ask fun lib => Library.label lib n : OracleM ε σ τ String)
      (ask fun lib => Library.label lib n : OracleM ε' σ' τ String) :=
  couples_ask fun _ _ h => congrFun (hR.alike h).label n

theorem indexOf? (n : NodeId) :
    Couples R (indexOf? n : OracleM ε σ τ (Option Nat)) (indexOf? n : OracleM ε' σ' τ _) := by
  apply Couples.get
  intro o o' h
  have halike := hR.alike h
  rw [halike.index, ClassMap.find?_congr halike.structEq halike.structKey]
  exact couples_orFault _

theorem entryAt (i : Nat) :
    Couples R (entryAt i : OracleM ε σ τ (Entry τ)) (entryAt i : OracleM ε' σ' τ _) := by
  apply Couples.get
  intro o o' h
  rw [(hR.alike h).entries]
  cases o.entries[i]? with
  | some e => exact Couples.pure e
  | none => exact Couples.throw _

theorem operandObjects (ns : List NodeId) :
    Couples R (operandObjects ns : OracleM ε σ τ (List τ)) (operandObjects ns :
      OracleM ε' σ' τ _) := by
  induction ns with
  | nil => exact Couples.pure _
  | cons n ns ih =>
    apply (hR.indexOf? n).bind
    intro i?
    cases i? with
    | none => exact Couples.throw _
    | some i =>
      apply (hR.entryAt i).bind
      intro e
      exact ih.bind fun _ => Couples.pure _

theorem pushOperands (ns : List NodeId) (pending : List Pending) :
    Couples R (pushOperands ns pending : OracleM ε σ τ (List Pending))
      (pushOperands ns pending : OracleM ε' σ' τ _) := by
  induction ns generalizing pending with
  | nil => exact Couples.pure _
  | cons n ns ih =>
    apply (hR.holds n).bind
    intro held
    apply Couples.guard
    intro _
    apply (hR.indexOf? n).bind
    intro i?
    exact Couples.ite (ih _) (ih _)

theorem openNode (n : NodeId) :
    Couples R (openNode n : OracleM ε σ τ (List Pending)) (openNode n : OracleM ε' σ' τ _) := by
  apply (hR.kind n).bind
  intro kind
  apply (hR.children n).bind
  intro children
  apply Couples.guard
  intro _
  exact hR.pushOperands _ _

/-- An object that is put into an entry. -/
theorem made (q : Maker τ) (status : Status) :
    Couples R (do return (⟨← callDecider q.run, status⟩ : Entry τ))
      (do return (⟨← callDecider q.run, status⟩ : Entry τ)) :=
  (hR.make q).bind fun _ => Couples.pure _

theorem objectFor (n : NodeId) (kind : Kind) (operands : List τ) :
    Couples R (objectFor n kind operands : OracleM ε σ τ (Entry τ))
      (objectFor n kind operands : OracleM ε' σ' τ _) := by
  cases kind with
  | constTrue => exact hR.made .constTrue .sat
  | constFalse => exact hR.made .constFalse .unsat
  | var => exact (hR.label n).bind fun name => hR.made (.newVariable name) .unknown
  | not =>
    cases operands with
    | nil => exact Couples.throw _
    | cons x xs => exact hR.made (.complement x) .unknown
  | and => exact hR.made (.conjunction operands) .unknown
  | or => exact hR.made (.disjunction operands) .unknown

theorem append (n : NodeId) (kind : Kind) (e : Entry τ) :
    Couples R (append n kind e : OracleM ε σ τ Unit) (append n kind e : OracleM ε' σ' τ _) := by
  apply Couples.get
  intro o o' h
  rw [(hR.alike h).entries]
  apply (hR.report _).bind
  intro _
  apply (Couples.modify fun _ _ h => hR.entry e h).bind
  intro _
  apply Couples.get
  intro o₁ o₁' h₁
  rw [(hR.alike h₁).index, ClassMap.insert_congr (hR.alike h₁).structKey]
  apply (couples_orFault _).bind
  intro index
  exact Couples.modify fun _ _ h => hR.miss index h

theorem lower (n : NodeId) :
    Couples R (lower n : OracleM ε σ τ Unit) (lower n : OracleM ε' σ' τ _) := by
  apply (hR.kind n).bind
  intro kind
  apply (hR.children n).bind
  intro children
  apply (hR.operandObjects children).bind
  intro objects
  apply (hR.objectFor n kind objects).bind
  intro e
  exact hR.append n kind e

theorem settle (pending : List Pending) :
    Couples R (settle pending : OracleM ε σ τ (Option (NodeId × List Pending)))
      (settle pending : OracleM ε' σ' τ _) := by
  induction pending with
  | nil => exact Couples.pure _
  | cons next rest ih =>
    obtain ⟨n, opened⟩ := next
    apply (hR.indexOf? n).bind
    intro i?
    have hlower := (hR.lower n).bind fun _ => ih
    exact Couples.ite ih (Couples.ite hlower (Couples.pure _))

theorem workOff (budget : Nat) (pending : List Pending) :
    Couples R (workOff budget pending : OracleM ε σ τ Unit)
      (workOff budget pending : OracleM ε' σ' τ _) := by
  induction budget generalizing pending with
  | zero =>
    apply (hR.settle pending).bind
    intro next?
    cases next? with
    | none => exact Couples.pure _
    | some next => exact Couples.throw _
  | succ budget ih =>
    apply (hR.settle pending).bind
    intro next?
    cases next? with
    | none => exact Couples.pure _
    | some next => exact (hR.openNode _).bind fun _ => ih _

/-- Building goes alike on both sides. -/
theorem build (n : NodeId) :
    Couples R (build n : OracleM ε σ τ Nat) (build n : OracleM ε' σ' τ _) := by
  apply (hR.holds n).bind
  intro held
  apply Couples.guard
  intro _
  apply (hR.indexOf? n).bind
  intro i?
  cases i? with
  | some i =>
    apply (Couples.modify fun _ _ h => hR.hit h).bind
    intro _
    exact (hR.report _).bind fun _ => Couples.pure _
  | none =>
    apply Couples.get
    intro o o' h
    rw [(hR.alike h).bound]
    apply (hR.workOff _ _).bind
    intro _
    apply (hR.indexOf? n).bind
    intro j?
    cases j? with
    | none => exact Couples.throw _
    | some j => exact Couples.pure j

end Coupling

end Oracle

end SatMemo
