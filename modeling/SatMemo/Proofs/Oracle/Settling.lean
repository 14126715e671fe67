import SatMemo.Proofs.Oracle.Ledger
import SatMemo.Proofs.Oracle.Replaying

/-! # What building comes to, short of a fault

    `Settles p o Q` says what a call is like that does not end the run: it has
    come to a value, or it was refused with an error, and in both cases `Q` holds
    of that and of the oracle that it leaves.  What a fault leaves behind is
    nobody's concern.

    Lowering a node makes one entry or, if it is refused, changes nothing
    (`settles_lower`); building a formula makes whatever passage such steps make
    (`settles_build`).  The library may be of any kind, and its nodes may be
    malformed, but the nodes that are lowered are all held by it and have no entry
    before. -/

namespace SatMemo

namespace Oracle

open Library (contains)

variable {ε σ τ α β : Type}

/-! ## Settling -/

/-- If `p` ends in no fault, its outcome and the oracle it leaves satisfy `Q`. -/
def Settles (p : OracleM ε σ τ α) (o : Oracle ε σ τ)
    (Q : Except Error α → Oracle ε σ τ → Prop) : Prop :=
  Ends p o fun r o' =>
    match r with
    | .ok a           => Q (.ok a) o'
    | .error (.error e) => Q (.error e) o'
    | .error (.fault _) => True

section Settles

variable {p : OracleM ε σ τ α} {k : α → OracleM ε σ τ β} {o o' : Oracle ε σ τ}
  {Q Q' : Except Error α → Oracle ε σ τ → Prop} {R : Except Error β → Oracle ε σ τ → Prop}

theorem Settles.mono (h : Settles p o Q) (hQ : ∀ r o', Q r o' → Q' r o') : Settles p o Q' := by
  apply Ends.mono h
  rintro (stop | a) o' hr
  · cases stop with
    | fault fault => trivial
    | error e => exact hQ _ _ hr
  · exact hQ _ _ hr

theorem Settles.bind (h : Settles p o Q) (hok : ∀ a o', Q (.ok a) o' → Settles (k a) o' R)
    (herror : ∀ e o', Q (.error e) o' → R (.error e) o') : Settles (p >>= k) o R := by
  apply Ends.bind h hok
  rintro (fault | e) o' hr
  · trivial
  · exact herror e o' hr

/-- A first step whose outcome is known. -/
theorem Settles.step {a : α} (hp : p o = .ok a o') (hk : Settles (k a) o' R) :
    Settles (p >>= k) o R :=
  Ends.congr hk (bind_ok hp)

theorem Settles.pure {a : α} (h : Q (.ok a) o) :
    Settles (Pure.pure a : OracleM ε σ τ α) o Q := h

theorem Settles.throw {e : Error} (h : Q (.error e) o) :
    Settles (MonadExcept.throw (.error e) : OracleM ε σ τ α) o Q := h

/-- What is known of a call that came to a value. -/
theorem Settles.of_ok (h : Settles p o Q) {a : α} (hp : p o = .ok a o') : Q (.ok a) o' :=
  Ends.of_ok h hp

/-- What is known of a call that was refused. -/
theorem Settles.of_error (h : Settles p o Q) {e : Error} (hp : p o = .error (.error e) o') :
    Q (.error e) o' :=
  Ends.of_error h hp

/-- The oracle that is left, if not by a fault. -/
theorem Settles.of_after {P : Oracle ε σ τ → Prop} (h : Settles p o fun _ o' => P o')
    (hp : ∀ fault o', p o ≠ .error (.fault fault) o') : P (after p o) := by
  cases hrun : p o with
  | ok a o' =>
    rw [after_ok hrun]
    exact h.of_ok hrun
  | error stop o' =>
    rw [after_error hrun]
    cases stop with
    | fault fault => exact absurd hrun (hp fault o')
    | error e => exact h.of_error hrun

/-! Steps that come to a value or end in a fault, and what follows on them. -/

theorem Settles.orFault_bind {r : Except Fault α} (h : ∀ a, r = .ok a → Settles (k a) o R) :
    Settles (orFault r >>= k) o R := by
  cases r with
  | ok a => exact Settles.step rfl (h a rfl)
  | error fault => exact trivial

theorem Settles.ask_bind {question : ε → Except Fault α}
    (h : ∀ a, question o.library = .ok a → Settles (k a) o R) :
    Settles (ask question >>= k) o R :=
  Ends.congr (Settles.orFault_bind h) rfl

theorem Settles.entryAt_bind {i : Nat} {k : Entry τ → OracleM ε σ τ β}
    (h : ∀ e, o.entries[i]? = some e → Settles (k e) o R) : Settles (entryAt i >>= k) o R := by
  cases he : o.entries[i]? with
  | some e => exact Settles.step (entryAt_eq he) (h e he)
  | none =>
    refine Ends.bind (Q := fun r _ => ∃ fault, r = .error (.fault fault)) ?_ ?_ ?_
    · unfold Ends
      rw [entryAt_eq_error he]
      exact ⟨_, rfl⟩
    · rintro a o' ⟨fault, hr⟩
      cases hr
    · rintro stop o' ⟨fault, hr⟩
      cases hr
      trivial

theorem Settles.callDecider_bind {call : σ → Reply σ α}
    (h : ∀ a s events, call o.decider = ⟨.ok a, s, events⟩ →
      Settles (k a) { o with decider := s, journal := o.journal ++ events } R) :
    Settles (callDecider call >>= k) o R := by
  rcases hcall : call o.decider with ⟨fault | a, s, events⟩
  · refine Ends.bind (Q := fun r _ => r = .error (.fault fault)) ?_ nofun ?_
    · cases o
      unfold Ends callDecider
      dsimp only at hcall ⊢
      rw [hcall]
      rfl
    · rintro stop o' hr
      cases hr
      trivial
  · exact Settles.step (callDecider_eq hcall) (h a s events hcall)

theorem Settles.callLibrary_bind {call : ε → Reply ε α}
    (h : ∀ a lib events, call o.library = ⟨.ok a, lib, events⟩ →
      Settles (k a) { o with library := lib, journal := o.journal ++ events } R) :
    Settles (callLibrary call >>= k) o R := by
  rcases hcall : call o.library with ⟨fault | a, lib, events⟩
  · refine Ends.bind (Q := fun r _ => r = .error (.fault fault)) ?_ nofun ?_
    · cases o
      unfold Ends callLibrary
      dsimp only at hcall ⊢
      rw [hcall]
      rfl
    · rintro stop o' hr
      cases hr
      trivial
  · exact Settles.step (callLibrary_eq hcall) (h a lib events hcall)

variable [Library ε] {n : NodeId}

theorem Settles.indexOf?_bind {k : Option Nat → OracleM ε σ τ β}
    (h : ∀ i?, indexOf? n o = .ok i? o → Settles (k i?) o R) : Settles (indexOf? n >>= k) o R :=
  Ends.congr (Settles.orFault_bind fun i? hi => h i? (orFault_eq hi)) rfl

end Settles

section Guards

variable {k : Unit → OracleM ε σ τ β} {o : Oracle ε σ τ}
  {R : Except Error β → Oracle ε σ τ → Prop}

/-- A test in front of `k` that refuses the call if it fails. -/
theorem Settles.guard {c : Prop} [Decidable c] {e : Error} (hc : c → Settles (k ()) o R)
    (hnot : ¬ c → R (.error e) o) :
    Settles (if c then k () else MonadExcept.throw (.error e) >>= k) o R := by
  by_cases h : c
  · rw [if_pos h]
    exact hc h
  · rw [if_neg h]
    exact hnot h

end Guards

/-! ## Lowering one node -/

variable [Library ε] [Decider σ τ] {o o' : Oracle ε σ τ} {n : NodeId} {pending : List Pending}

/-- The node got an entry of its kind, behind those that there were. -/
inductive Lowered (n : NodeId) (o : Oracle ε σ τ) : Oracle ε σ τ → Prop where
  | intro {kind : Kind} {x : τ} {index : ClassMap Nat} {decider : σ} {journal : Array Event} :
      Library.kind o.library n = .ok kind →
      o.index.insert o.library n o.entries.size = .ok index →
      Lowered n o { o with
        decider
        index
        entries := o.entries.push (Entry.born (kind, x))
        stats := { o.stats with misses := o.stats.misses + 1 }
        journal }

omit [Decider σ τ] in
theorem settles_operandObjects (ns : List NodeId) :
    Settles (operandObjects ns) o fun _ o' => o' = o := by
  induction ns with
  | nil => exact Settles.pure rfl
  | cons n ns ih =>
    unfold operandObjects
    apply Settles.indexOf?_bind
    intro i? _
    cases i? with
    | none => exact Settles.throw rfl
    | some i =>
      apply Settles.entryAt_bind
      intro e _
      refine ih.bind ?_ fun _ _ ho => ho
      rintro xs o' rfl
      exact Settles.pure rfl

omit [Library ε] [Decider σ τ] in
theorem settles_made {call : σ → Reply σ τ} {kind : Kind} {status : Status}
    (hborn : ∀ x : τ, Entry.born (kind, x) = ⟨x, status⟩) :
    Settles (do return (⟨← callDecider call, status⟩ : Entry τ)) o fun r o' =>
      ∃ x decider journal, r = .ok (Entry.born (kind, x)) ∧ o' = { o with decider, journal } := by
  apply Settles.callDecider_bind
  intro x decider events _
  exact Settles.pure ⟨x, decider, _, congrArg Except.ok (hborn x).symm, rfl⟩

/-- The entry for a node is born of its kind and some object. -/
theorem settles_objectFor (kind : Kind) (operands : List τ) :
    Settles (objectFor n kind operands) o fun r o' =>
      ∃ x decider journal, r = .ok (Entry.born (kind, x)) ∧ o' = { o with decider, journal } := by
  cases kind with
  | constTrue => exact settles_made fun _ => rfl
  | constFalse => exact settles_made fun _ => rfl
  | var =>
    apply Settles.ask_bind
    intro name _
    exact settles_made fun _ => rfl
  | not =>
    cases operands with
    | nil => exact trivial
    | cons x xs => exact settles_made fun _ => rfl
  | and => exact settles_made fun _ => rfl
  | or => exact settles_made fun _ => rfl

/-- A node is lowered, or it is refused and nothing has changed. -/
theorem settles_lower (n : NodeId) (o : Oracle ε σ τ) :
    Settles (lower n) o fun r o' =>
      match r with
      | .ok _    => Lowered n o o'
      | .error _ => o' = o := by
  unfold lower
  apply Settles.ask_bind
  intro kind hkind
  apply Settles.ask_bind
  intro children _
  refine (settles_operandObjects children).bind ?_ fun _ _ ho => ho
  rintro operands o₁ rfl
  refine (settles_objectFor kind operands).bind ?_ ?_
  · rintro e o₂ ⟨x, decider, journal, hr, rfl⟩
    cases hr
    unfold append
    refine Settles.step rfl (Settles.step rfl (Settles.step rfl (Settles.step rfl ?_)))
    apply Settles.orFault_bind
    intro index hindex
    exact Lowered.intro hkind hindex
  · rintro e o₂ ⟨x, decider, journal, hr, -⟩
    cases hr

/-! ## Building a formula -/

/-- What building a formula comes to, if lowering makes passages of the kind `P`. -/
inductive Fetched (P : Passage ε σ τ) (n : NodeId) (o : Oracle ε σ τ) :
    Except Error Nat → Oracle ε σ τ → Prop where
  /-- The library does not hold the node. -/
  | foreign : contains o.library n = false → Fetched P n o (.error (.unknownNode n)) o
  /-- The formula had an entry. -/
  | reused {i : Nat} : contains o.library n = true → indexOf? n o = .ok (some i) o →
      Fetched P n o (.ok i) { o with
        stats := { o.stats with hits := o.stats.hits + 1 }
        journal := o.journal.push (.reused n i) }
  /-- Nodes were lowered until the formula had an entry, or until one was refused. -/
  | worked {r : Except Error Nat} {o' : Oracle ε σ τ} : contains o.library n = true →
      indexOf? n o = .ok none o → P.rel o o' →
      (∀ i, r = .ok i → indexOf? n o' = .ok (some i) o') → Fetched P n o r o'

omit [Decider σ τ] in
/-- The entry that is fetched is that of the formula. -/
theorem Fetched.indexOf?_eq {P : Passage ε σ τ} {i : Nat} (h : Fetched P n o (.ok i) o') :
    contains o.library n = true ∧ indexOf? n o' = .ok (some i) o' := by
  cases h with
  | reused hn hi =>
    have hfind := indexOf?_eq_ok_iff.1 hi
    exact ⟨hn, orFault_eq hfind⟩
  | worked hn _ _ hi => exact ⟨hn, hi i rfl⟩

/-- The library holds all nodes of a list. -/
def AllHeld (lib : ε) (pending : List Pending) : Prop :=
  ∀ p ∈ pending, contains lib p.node = true

section Building

omit [Decider σ τ] in
theorem settles_pushOperands (ns : List NodeId) (h : AllHeld o.library pending) :
    Settles (pushOperands ns pending) o fun r o' =>
      o' = o ∧ ∀ pending', r = .ok pending' → AllHeld o.library pending' := by
  induction ns generalizing pending with
  | nil =>
    refine Settles.pure ⟨rfl, ?_⟩
    rintro _ ⟨⟩
    exact h
  | cons n ns ih =>
    unfold pushOperands
    refine Settles.step rfl (Settles.guard (fun hn => ?_) fun _ => ⟨rfl, fun _ hrefused => ?_⟩)
    · apply Settles.indexOf?_bind
      intro i? _
      cases i? with
      | some i => exact ih h
      | none =>
        apply ih
        intro p hp
        rcases List.mem_cons.1 hp with rfl | hp
        · exact hn
        · exact h p hp
    · cases hrefused

omit [Decider σ τ] in
theorem settles_openNode (hn : contains o.library n = true) :
    Settles (openNode n) o fun r o' =>
      o' = o ∧ ∀ opened, r = .ok opened → AllHeld o.library opened := by
  unfold openNode
  apply Settles.ask_bind
  intro kind _
  apply Settles.ask_bind
  intro children _
  refine Settles.guard (fun _ => ?_) fun _ => ⟨rfl, nofun⟩
  apply settles_pushOperands
  intro p hp
  rw [List.mem_singleton.1 hp]
  exact hn

variable {P : Passage ε σ τ} (hlibrary : ∀ {o o'}, P.rel o o' → o'.library = o.library)
  (hlower : ∀ {n o o'}, contains o.library n = true → indexOf? n o = .ok none o →
    Lowered n o o' → P.rel o o')
include hlibrary hlower

theorem settles_settle (h : AllHeld o.library pending) :
    Settles (settle pending) o fun r o' => P.rel o o' ∧
      ∀ n rest, r = .ok (some (n, rest)) →
        contains o.library n = true ∧ AllHeld o.library rest := by
  induction pending generalizing o with
  | nil => exact Settles.pure ⟨P.refl o, nofun⟩
  | cons next rest ih =>
    obtain ⟨n, opened⟩ := next
    have hn : contains o.library n = true := h ⟨n, opened⟩ (List.mem_cons_self ..)
    have hrest : AllHeld o.library rest := fun p hp => h p (List.mem_cons_of_mem _ hp)
    unfold settle
    apply Settles.indexOf?_bind
    intro i? hi
    cases i? with
    | some i => exact ih hrest
    | none =>
      cases opened with
      | false =>
        refine Settles.pure ⟨P.refl o, ?_⟩
        rintro _ _ ⟨⟩
        exact ⟨hn, hrest⟩
      | true =>
        refine (settles_lower n o).bind ?_ ?_
        · intro _ o₁ hlowered
          have h₁ : P.rel o o₁ := hlower hn hi hlowered
          have heq := hlibrary h₁
          apply (ih (o := o₁) (heq.symm ▸ hrest)).mono
          rintro r o' ⟨h₂, hnext⟩
          rw [heq] at hnext
          exact ⟨P.trans h₁ h₂, hnext⟩
        · rintro e o₁ rfl
          exact ⟨P.refl _, nofun⟩

theorem settles_workOff (budget : Nat) (h : AllHeld o.library pending) :
    Settles (workOff budget pending) o fun _ o' => P.rel o o' := by
  induction budget generalizing o pending with
  | zero =>
    unfold workOff
    refine (settles_settle hlibrary hlower h).bind ?_ fun _ _ h₁ => h₁.1
    rintro next? o₁ ⟨h₁, -⟩
    cases next? with
    | none => exact Settles.pure h₁
    | some next => exact trivial
  | succ budget ih =>
    unfold workOff
    refine (settles_settle hlibrary hlower h).bind ?_ fun _ _ h₁ => h₁.1
    rintro next? o₁ ⟨h₁, hnext⟩
    cases next? with
    | none => exact Settles.pure h₁
    | some next =>
      obtain ⟨n, rest⟩ := next
      obtain ⟨hn, hrest⟩ := hnext n rest rfl
      have heq := hlibrary h₁
      refine (settles_openNode (heq.symm ▸ hn)).bind ?_ ?_
      · rintro opened o₂ ⟨rfl, hopened⟩
        refine (ih ?_).mono fun _ _ h₂ => P.trans h₁ h₂
        intro p hp
        rcases List.mem_append.1 hp with hp | hp
        · exact hopened opened rfl p hp
        · exact heq.symm ▸ hrest p hp
      · rintro e o₂ ⟨rfl, -⟩
        exact h₁

theorem settles_build (n : NodeId) (o : Oracle ε σ τ) : Settles (build n) o (Fetched P n o) := by
  unfold build
  refine Settles.step rfl (Settles.guard (fun hn => ?_) fun hn => ?_)
  · apply Settles.indexOf?_bind
    intro i? hi
    cases i? with
    | some i => exact Settles.step rfl (Settles.step rfl (Settles.pure (.reused hn hi)))
    | none =>
      refine Settles.step rfl ?_
      have hpending : AllHeld o.library [⟨n, false⟩] := by
        intro p hp
        rw [List.mem_singleton.1 hp]
        exact hn
      refine (settles_workOff hlibrary hlower _ hpending).bind ?_ ?_
      · intro _ o₁ h₁
        apply Settles.indexOf?_bind
        intro j? hj
        cases j? with
        | none => exact Settles.throw (.worked hn hi h₁ nofun)
        | some j =>
          refine Settles.pure (.worked hn hi h₁ ?_)
          rintro _ ⟨⟩
          exact hj
      · intro e o₁ h₁
        exact .worked hn hi h₁ nofun
  · exact .foreign (Bool.eq_false_of_not_eq_true hn)

end Building

end Oracle

end SatMemo
