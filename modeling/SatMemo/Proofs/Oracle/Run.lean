import SatMemo.Oracle.Decide

/-! # Reasoning about calls on an oracle

    A call starts in an oracle and ends in one, with a value or a stop.
    `Ends p o Q` says what the end of `p` from `o` is like.  `Keeps P B p` says
    it for all `o` at once: the oracle that `p` leaves is related to the one it
    was called on, and if `p` stops, then for a reason in `B`.  Related are
    oracles by a passage, a relation that holds along any number of steps, so
    that `Keeps` goes through programs line by line. -/

namespace SatMemo

namespace Oracle

variable {ε σ τ α β : Type}

/-! ## How a call ends -/

/-- The outcome of `p` from `o` and the oracle it leaves satisfy `Q`. -/
def Ends (p : OracleM ε σ τ α) (o : Oracle ε σ τ)
    (Q : Except Stop α → Oracle ε σ τ → Prop) : Prop :=
  match p o with
  | .ok a o'       => Q (.ok a) o'
  | .error stop o' => Q (.error stop) o'

/-- The oracle that a call leaves, whatever it came to. -/
def after (p : OracleM ε σ τ α) (o : Oracle ε σ τ) : Oracle ε σ τ :=
  match p o with
  | .ok _ o'    => o'
  | .error _ o' => o'

variable {p : OracleM ε σ τ α} {k : α → OracleM ε σ τ β} {o : Oracle ε σ τ}

theorem Ends.mono {Q Q' : Except Stop α → Oracle ε σ τ → Prop} (h : Ends p o Q)
    (hQ : ∀ r o', Q r o' → Q' r o') : Ends p o Q' := by
  unfold Ends at *
  split
  · rename_i a o' hp
    rw [hp] at h
    exact hQ _ _ h
  · rename_i stop o' hp
    rw [hp] at h
    exact hQ _ _ h

theorem Ends.bind {Q : Except Stop α → Oracle ε σ τ → Prop}
    {Q' : Except Stop β → Oracle ε σ τ → Prop} (h : Ends p o Q)
    (hok : ∀ a o', Q (.ok a) o' → Ends (k a) o' Q')
    (herr : ∀ stop o', Q (.error stop) o' → Q' (.error stop) o') : Ends (p >>= k) o Q' := by
  unfold Ends at h
  show match EStateM.bind p k o with
    | .ok b o'       => Q' (.ok b) o'
    | .error stop o' => Q' (.error stop) o'
  unfold EStateM.bind
  cases hp : p o with
  | ok a o' =>
    rw [hp] at h
    exact hok a o' h
  | error stop o' =>
    rw [hp] at h
    exact herr stop o' h

/-- Calls that run alike end alike. -/
theorem Ends.congr {q : OracleM ε σ τ α} {o₁ : Oracle ε σ τ}
    {Q : Except Stop α → Oracle ε σ τ → Prop} (h : Ends q o₁ Q) (hpq : p o = q o₁) :
    Ends p o Q := by
  unfold Ends at *
  rwa [hpq]

theorem bind_ok {a : α} {o' : Oracle ε σ τ} (h : p o = .ok a o') : (p >>= k) o = k a o' := by
  show EStateM.bind p k o = k a o'
  unfold EStateM.bind
  rw [h]

theorem bind_error {stop : Stop} {o' : Oracle ε σ τ} (h : p o = .error stop o') :
    (p >>= k) o = .error stop o' := by
  show EStateM.bind p k o = .error stop o'
  unfold EStateM.bind
  rw [h]

/-- Programs whose first parts run alike run alike if what follows does. -/
theorem bind_eq_of_eq {q : OracleM ε σ τ α} {k' : α → OracleM ε σ τ β} (h : p o = q o)
    (hk : ∀ a o', q o = .ok a o' → k a o' = k' a o') : (p >>= k) o = (q >>= k') o := by
  cases hq : q o with
  | ok a o' => rw [bind_ok (h.trans hq), bind_ok hq, hk a o' hq]
  | error stop o' => rw [bind_error (h.trans hq), bind_error hq]

/-- The two parts of a program that came to a value. -/
theorem exists_of_bind_ok {b : β} {o₂ : Oracle ε σ τ} (h : (p >>= k) o = .ok b o₂) :
    ∃ a o₁, p o = .ok a o₁ ∧ k a o₁ = .ok b o₂ := by
  cases hp : p o with
  | ok a o₁ => exact ⟨a, o₁, rfl, (bind_ok hp).symm.trans h⟩
  | error stop o₁ => cases (bind_error hp).symm.trans h

/-- What is known of the end of a call, once the call is run. -/
theorem Ends.of_error {Q : Except Stop α → Oracle ε σ τ → Prop} (h : Ends p o Q) {stop : Stop}
    {o' : Oracle ε σ τ} (hp : p o = .error stop o') : Q (.error stop) o' := by
  unfold Ends at h
  rwa [hp] at h

theorem Ends.of_ok {Q : Except Stop α → Oracle ε σ τ → Prop} (h : Ends p o Q) {a : α}
    {o' : Oracle ε σ τ} (hp : p o = .ok a o') : Q (.ok a) o' := by
  unfold Ends at h
  rwa [hp] at h

theorem after_ok {a : α} {o' : Oracle ε σ τ} (h : p o = .ok a o') : after p o = o' := by
  unfold after
  rw [h]

theorem after_error {stop : Stop} {o' : Oracle ε σ τ} (h : p o = .error stop o') :
    after p o = o' := by
  unfold after
  rw [h]

theorem after_congr {q : OracleM ε σ τ α} {o₁ : Oracle ε σ τ} (h : p o = q o₁) :
    after p o = after q o₁ := by
  unfold after
  rw [h]

/-- A call that came to a value. -/
theorem ok_of_run' {a : α} (h : EStateM.run' p o = some a) : p o = .ok a (after p o) := by
  unfold EStateM.run' EStateM.run at h
  cases hp : p o with
  | ok b o' =>
    rw [hp] at h
    rw [after_ok hp]
    cases h
    rfl
  | error stop o' =>
    rw [hp] at h
    cases h

/-- The reason for which a call stopped, if it did. -/
def stopOf? (p : OracleM ε σ τ α) (o : Oracle ε σ τ) : Option Stop :=
  match p o with
  | .ok ..        => none
  | .error stop _ => some stop

theorem error_of_stopOf? {stop : Stop} (h : stopOf? p o = some stop) :
    p o = .error stop (after p o) := by
  unfold stopOf? at h
  cases hp : p o with
  | ok a o' =>
    rw [hp] at h
    cases h
  | error stop' o' =>
    rw [hp] at h
    rw [after_error hp]
    cases h
    rfl

theorem Ends.of_after {Q : Oracle ε σ τ → Prop} (h : Ends p o fun _ o' => Q o') :
    Q (after p o) := by
  unfold Ends at h
  unfold after
  split <;> rename_i hp <;> rw [hp] at h <;> exact h

/-! ## Calls that do not stop -/

/-- The call comes to a value, which satisfies `Q` with the oracle it leaves. -/
def Gives (p : OracleM ε σ τ α) (o : Oracle ε σ τ) (Q : α → Oracle ε σ τ → Prop) : Prop :=
  ∃ a o', p o = .ok a o' ∧ Q a o'

theorem Gives.bind {Q : α → Oracle ε σ τ → Prop} {Q' : β → Oracle ε σ τ → Prop}
    (h : Gives p o Q) (hk : ∀ a o', Q a o' → Gives (k a) o' Q') : Gives (p >>= k) o Q' := by
  obtain ⟨a, o₁, hp, hQ⟩ := h
  obtain ⟨b, o₂, hkb, hQ'⟩ := hk a o₁ hQ
  exact ⟨b, o₂, (bind_ok hp).trans hkb, hQ'⟩

/-- A first step whose outcome is known. -/
theorem Gives.step {Q : β → Oracle ε σ τ → Prop} {a : α} {o' : Oracle ε σ τ}
    (hp : p o = .ok a o') (hk : Gives (k a) o' Q) : Gives (p >>= k) o Q := by
  obtain ⟨b, o₂, hkb, hQ⟩ := hk
  exact ⟨b, o₂, (bind_ok hp).trans hkb, hQ⟩

theorem Gives.mono {Q Q' : α → Oracle ε σ τ → Prop} (h : Gives p o Q)
    (hQ : ∀ a o', Q a o' → Q' a o') : Gives p o Q' := by
  obtain ⟨a, o', hp, hQ'⟩ := h
  exact ⟨a, o', hp, hQ a o' hQ'⟩

theorem Gives.pure {Q : α → Oracle ε σ τ → Prop} {a : α} (h : Q a o) :
    Gives (Pure.pure a : OracleM ε σ τ α) o Q :=
  ⟨a, o, rfl, h⟩

/-- A value that is no fault. -/
theorem orFault_eq {r : Except Fault α} {a : α} (h : r = .ok a) :
    (orFault r : OracleM ε σ τ α) o = .ok a o := by
  rw [h]
  rfl

theorem ask_eq {question : ε → Except Fault α} {a : α} (h : question o.library = .ok a) :
    (ask question : OracleM ε σ τ α) o = .ok a o := by
  show (orFault (question o.library) : OracleM ε σ τ α) o = .ok a o
  exact orFault_eq h

theorem entryAt_eq {i : Nat} {e : Entry τ} (he : o.entries[i]? = some e) :
    entryAt i o = .ok e o := by
  have hget : (MonadState.get : OracleM ε σ τ (Oracle ε σ τ)) o = .ok o o := rfl
  unfold entryAt
  rw [bind_ok hget, he]
  rfl

theorem entryAt_eq_error {i : Nat} (he : o.entries[i]? = none) :
    entryAt i o = .error (.fault (.outOfBounds o.entries.size i)) o := by
  have hget : (MonadState.get : OracleM ε σ τ (Oracle ε σ τ)) o = .ok o o := rfl
  unfold entryAt
  rw [bind_ok hget, he]
  rfl

/-- A test in front of `k` that does not fail. -/
theorem Gives.guard {c : Prop} [Decidable c] {stop : Stop} {k : Unit → OracleM ε σ τ β}
    {Q : β → Oracle ε σ τ → Prop} (hc : c) (hk : Gives (k ()) o Q) :
    Gives (if c then k () else MonadExcept.throw stop >>= k) o Q := by
  rw [if_pos hc]
  exact hk

theorem callDecider_eq {call : σ → Reply σ α} {a : α} {s : σ} {events : List Event}
    (h : call o.decider = ⟨.ok a, s, events⟩) :
    (callDecider call : OracleM ε σ τ α) o
      = .ok a { o with decider := s, journal := o.journal ++ events } := by
  cases o
  unfold callDecider
  dsimp only at h ⊢
  rw [h]
  rfl

theorem callLibrary_eq {call : ε → Reply ε α} {a : α} {lib : ε} {events : List Event}
    (h : call o.library = ⟨.ok a, lib, events⟩) :
    (callLibrary call : OracleM ε σ τ α) o
      = .ok a { o with library := lib, journal := o.journal ++ events } := by
  cases o
  unfold callLibrary
  dsimp only at h ⊢
  rw [h]
  rfl

/-! ## Calls that stop for known reasons -/

/-- The call comes to a value, which satisfies `Q` with the oracle it leaves, or it stops for
    a reason in `B`. -/
def Yields (B : Stop → Prop) (p : OracleM ε σ τ α) (o : Oracle ε σ τ)
    (Q : α → Oracle ε σ τ → Prop) : Prop :=
  Ends p o fun r o' =>
    match r with
    | .ok a       => Q a o'
    | .error stop => B stop

section Yields

variable {B : Stop → Prop}

theorem Yields.bind {Q : α → Oracle ε σ τ → Prop} {Q' : β → Oracle ε σ τ → Prop}
    (h : Yields B p o Q) (hk : ∀ a o', Q a o' → Yields B (k a) o' Q') :
    Yields B (p >>= k) o Q' :=
  Ends.bind h hk fun _ _ hstop => hstop

/-- A first step whose outcome is known. -/
theorem Yields.step {Q : β → Oracle ε σ τ → Prop} {a : α} {o' : Oracle ε σ τ}
    (hp : p o = .ok a o') (hk : Yields B (k a) o' Q) : Yields B (p >>= k) o Q :=
  Ends.congr hk (bind_ok hp)

theorem Yields.mono {Q Q' : α → Oracle ε σ τ → Prop} (h : Yields B p o Q)
    (hQ : ∀ a o', Q a o' → Q' a o') : Yields B p o Q' := by
  apply Ends.mono h
  intro r o' hr
  cases r with
  | ok a => exact hQ a o' hr
  | error stop => exact hr

theorem Gives.yields {Q : α → Oracle ε σ τ → Prop} (h : Gives p o Q) : Yields B p o Q := by
  obtain ⟨a, o', hp, hQ⟩ := h
  unfold Yields Ends
  rw [hp]
  exact hQ

/-- What is known of a call that came to a value. -/
theorem Yields.of_ok {Q : α → Oracle ε σ τ → Prop} (h : Yields B p o Q) {a : α}
    {o' : Oracle ε σ τ} (hp : p o = .ok a o') : Q a o' := by
  unfold Yields Ends at h
  rwa [hp] at h

/-- The two ways in which such a call may end. -/
theorem Yields.cases {Q : α → Oracle ε σ τ → Prop} (h : Yields B p o Q) :
    (∃ a o', p o = .ok a o' ∧ Q a o') ∨ ∃ stop o', p o = .error stop o' ∧ B stop := by
  unfold Yields Ends at h
  cases hp : p o with
  | ok a o' =>
    rw [hp] at h
    exact .inl ⟨a, o', rfl, h⟩
  | error stop o' =>
    rw [hp] at h
    exact .inr ⟨stop, o', rfl, h⟩

end Yields

/-! ## Passages -/

/-- A relation between oracles that holds along any number of steps. -/
structure Passage (ε σ τ : Type) where
  rel   : Oracle ε σ τ → Oracle ε σ τ → Prop
  refl  : ∀ o, rel o o
  trans : ∀ {o₁ o₂ o₃}, rel o₁ o₂ → rel o₂ o₃ → rel o₁ o₃

/-- Nothing changes. -/
def unchanged (ε σ τ : Type) : Passage ε σ τ where
  rel   := fun o o' => o' = o
  refl  := fun _ => rfl
  trans := fun h h' => h'.trans h

/-- Wherever it is called, `p` makes a passage of the kind `P`, and it stops for no reason
    outside `B`. -/
def Keeps (P : Passage ε σ τ) (B : Stop → Prop) (p : OracleM ε σ τ α) : Prop :=
  ∀ o, Ends p o fun r o' => P.rel o o' ∧ ∀ stop, r = .error stop → B stop

section Keeps

variable {P : Passage ε σ τ} {B : Stop → Prop}

theorem Keeps.bind (hp : Keeps P B p) (hk : ∀ a, Keeps P B (k a)) : Keeps P B (p >>= k) := by
  intro o
  refine (hp o).bind ?_ ?_
  · rintro a o₁ ⟨h₁, _⟩
    refine (hk a o₁).mono ?_
    rintro r o₂ ⟨h₂, hstop⟩
    exact ⟨P.trans h₁ h₂, hstop⟩
  · rintro stop o₁ ⟨h₁, hstop⟩
    refine ⟨h₁, ?_⟩
    rintro _ ⟨⟩
    exact hstop stop rfl

theorem Keeps.yields (h : Keeps P B p) (o : Oracle ε σ τ) :
    Yields B p o fun _ o' => P.rel o o' := by
  apply (h o).mono
  intro r o' ⟨hrel, hstop⟩
  cases r with
  | ok a => exact hrel
  | error stop => exact hstop stop rfl

theorem Keeps.pure (a : α) : Keeps P B (Pure.pure a : OracleM ε σ τ α) :=
  fun o => ⟨P.refl o, fun _ h => nomatch h⟩

theorem Keeps.throw {stop : Stop} (h : B stop) :
    Keeps P B (MonadExcept.throw stop : OracleM ε σ τ α) :=
  fun o => ⟨P.refl o, fun _ h' => Except.error.inj h' ▸ h⟩

theorem Keeps.get : Keeps P B (MonadState.get : OracleM ε σ τ (Oracle ε σ τ)) :=
  fun o => ⟨P.refl o, fun _ h => nomatch h⟩

/-- A program that starts from the oracle as it is. -/
theorem Keeps.ofGet {k : Oracle ε σ τ → OracleM ε σ τ α}
    (h : ∀ o, Ends (k o) o fun r o' => P.rel o o' ∧ ∀ stop, r = .error stop → B stop) :
    Keeps P B (MonadState.get >>= k) :=
  fun o => (h o).congr rfl

theorem Keeps.modify {f : Oracle ε σ τ → Oracle ε σ τ} (h : ∀ o, P.rel o (f o)) :
    Keeps P B (modify f : OracleM ε σ τ PUnit) :=
  fun o => ⟨h o, fun _ h => nomatch h⟩

theorem Keeps.orFault {r : Except Fault α} (h : ∀ fault, r = .error fault → B (.fault fault)) :
    Keeps P B (orFault r : OracleM ε σ τ α) := by
  cases r with
  | ok a => exact Keeps.pure a
  | error fault => exact Keeps.throw (h fault rfl)

theorem Keeps.ask {question : ε → Except Fault α}
    (h : ∀ lib fault, question lib = .error fault → B (.fault fault)) :
    Keeps P B (ask question : OracleM ε σ τ α) :=
  Keeps.get.bind fun o => Keeps.orFault fun fault hf => h o.library fault hf

theorem Keeps.ite {c : Prop} [Decidable c] {q : OracleM ε σ τ α} (hp : c → Keeps P B p)
    (hq : ¬ c → Keeps P B q) : Keeps P B (if c then p else q) := by
  split
  · exact hp ‹_›
  · exact hq ‹_›

/-- A test in front of `k` that stops if it fails. -/
theorem Keeps.guard {c : Prop} [Decidable c] {stop : Stop} {k : Unit → OracleM ε σ τ α}
    (hB : B stop) (hk : ∀ u, Keeps P B (k u)) :
    Keeps P B (if c then k () else MonadExcept.throw stop >>= k) :=
  Keeps.ite (fun _ => hk ()) fun _ => (Keeps.throw hB).bind hk

end Keeps

end Oracle

end SatMemo
