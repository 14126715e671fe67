import Mathlib.Logic.Relation
import SatMemo.Proofs.Bdd.Twins

/-! # The loop behind if-then-else is a recursion

    `ite` bounds how deep a call may split.  The loop here has no such bound: a
    call is a bare triple, and the loop goes on for as long as there are chores.

    `Recurses` is if-then-else as one would write it down: take a step, and if it
    splits, answer the high half, then the low half, make the branch over the two
    answers, remember it under the normal triple, and complement it at last.
    There is no stack in it.  `Recurses.later` compares the two for any chores and
    any answers behind a call.  From it follows that the loop comes to what the
    recursion comes to, in the same diagram, memo table and counts included
    (`ite_recursive`). -/

namespace SatMemo

namespace Bdd

/-! ## The loop -/

/-- Work still to be done. -/
inductive Chore where
  /-- Answer a triple, however deep. -/
  | call (t : Triple)
  /-- Combine the two latest answers. -/
  | join (v : Nat) (key : Triple) (flip : Bool)

/-- The loop between two turns.  `results` are the answers not yet combined, `events` what was
    reported so far, both the latest first. -/
structure Loop where
  diagram : Bdd
  chores  : List Chore
  results : List Edge
  events  : List Event

/-- What a turn comes to. -/
inductive Turn where
  /-- There are no more chores, and this is the only answer. -/
  | ended (r : Edge)
  | next (w : Loop)

namespace Loop

/-- The loop before its first turn. -/
def start (m : Bdd) (t : Triple) : Loop :=
  ⟨m, [.call t], [], []⟩

/-- One turn of the loop. -/
def turn (w : Loop) : Except Fault Turn :=
  match w with
  | ⟨_, [], [r], _⟩ => .ok (.ended r)
  | ⟨_, [], _, _⟩   => .error .strayResults
  | ⟨m, .call t :: rest, results, events⟩ =>
      match m.step t with
      | (.error fault, _)  => .error fault
      | (.ok (.done r), m) => .ok (.next ⟨m, rest, r :: results, events⟩)
      | (.ok (.split v key flip high low), m) =>
          .ok (.next ⟨m, .call high :: .call low :: .join v key flip :: rest, results, events⟩)
  | ⟨m, .join v key flip :: rest, low :: high :: results, events⟩ =>
      match m.join v key low high with
      | ⟨.error fault, _, _⟩ => .error fault
      | ⟨.ok r, m, joined⟩   =>
          .ok (.next ⟨m, rest, r.negateIf flip :: results, joined ++ events⟩)
  | ⟨_, .join .. :: _, _, _⟩ => .error .missingResult

/-- The loop is in `w'` a turn after it was in `w`. -/
def Goes (w w' : Loop) : Prop :=
  w.turn = .ok (.next w')

/-- The loop comes to `w'` after any number of turns from `w`. -/
def Later : Loop → Loop → Prop :=
  Relation.ReflTransGen Goes

theorem Goes.unique {w w₁ w₂ : Loop} (h₁ : w.Goes w₁) (h₂ : w.Goes w₂) : w₁ = w₂ := by
  have heq := h₁.symm.trans h₂
  injection heq with heq
  injection heq

/-- There is one way to the end, and every state on the way is a state of it. -/
theorem Later.of_ended {w w' last : Loop} {r : Edge} (hlast : w.Later last)
    (hend : last.turn = .ok (.ended r)) (h : w.Later w') : w'.Later last := by
  induction h with
  | refl => exact hlast
  | tail _ hgo ih =>
    rcases ih.cases_head with rfl | ⟨w₁, hgo₁, hrest⟩
    · -- The loop has ended before.
      have heq := hgo.symm.trans hend
      injection heq with heq
      cases heq
    · exact hgo.unique hgo₁ ▸ hrest

end Loop

/-! ## The recursion -/

/-- The recursion answers `t` with `r`.  It finds the diagram as `m`, leaves it as `m'`, and
    reports `events` on the way. -/
inductive Recurses : (m : Bdd) → (t : Triple) → (r : Edge) → (m' : Bdd) →
    (events : List Event) → Prop where
  | done {m m' : Bdd} {t : Triple} {r : Edge} :
      m.step t = (.ok (.done r), m') → Recurses m t r m' []
  /-- The high half, the low half, the branch over both answers.  What is remembered is the
      branch before it is complemented. -/
  | split {m m₁ m₂ m₃ m₄ : Bdd} {t key high low : Triple} {v : Nat} {flip : Bool}
      {e₁ e₀ r : Edge} {ev₁ ev₀ : List Event} :
      m.step t = (.ok (.split v key flip high low), m₁) →
      Recurses m₁ high e₁ m₂ ev₁ →
      Recurses m₂ low e₀ m₃ ev₀ →
      m₃.branch v e₀ e₁ = .ok r m₄ →
      Recurses m t (r.negateIf flip) (m₄.remember key r)
        (ev₁ ++ ev₀ ++ [.joined key.f key.g key.h r])

/-- A join that goes through made a branch and remembered it. -/
theorem branch_of_join {m m' : Bdd} {v : Nat} {key : Triple} {low high r : Edge}
    {events : List Event} (h : m.join v key low high = ⟨.ok r, m', events⟩) :
    ∃ m₁, m.branch v low high = .ok r m₁ ∧ m' = m₁.remember key r ∧
      events = [.joined key.f key.g key.h r] := by
  unfold join at h
  split at h
  · rename_i r₁ m₁ events₁ hbranch
    injection h with hr hm hev
    cases hr
    -- Making a branch reports nothing.
    have hquiet : events₁ = [] := by
      unfold branch at hbranch
      split at hbranch
      · cases hbranch
      · split at hbranch
        · injection hbranch with _ _ hev
          exact hev.symm
        · split at hbranch <;>
          · injection hbranch with _ _ hev
            exact hev.symm
    exact ⟨m₁, by rw [hbranch, hquiet]; rfl, hm.symm, hev.symm⟩
  · cases h

/-- An answer of the bounded recursion is one of the recursion without bound. -/
theorem recurses_of_solve {depth : Nat} {m m' : Bdd} {t : Triple} {r : Edge}
    {events : List Event} (h : solve depth m t = ⟨.ok r, m', events⟩) :
    Recurses m t r m' events := by
  induction depth generalizing m m' t r events with
  | zero => cases h
  | succ depth ih =>
    rw [solve] at h
    rcases hs : m.step t with ⟨fault | step, m₁⟩
    · simp [hs, Reply.fail] at h
    · cases step with
      | done r₁ =>
        simp only [hs, Reply.ok, Reply.mk.injEq, Except.ok.injEq] at h
        obtain ⟨rfl, rfl, rfl⟩ := h
        exact .done hs
      | split v key flip high low =>
        simp only [hs] at h
        -- None of the three parts faulted.
        rcases h₁ : solve depth m₁ high with ⟨fault | e₁, m₂, ev₁⟩
        · simp [h₁, Reply.andThen] at h
        · simp only [h₁, Reply.andThen] at h
          rcases h₀ : solve depth m₂ low with ⟨fault | e₀, m₃, ev₀⟩
          · simp [h₀] at h
          · simp only [h₀] at h
            rcases hj : m₃.join v key e₀ e₁ with ⟨fault | r₄, m₄, ev⟩
            · simp [hj] at h
            · obtain ⟨m₅, hbranch, rfl, rfl⟩ := branch_of_join hj
              simp only [hj, Reply.ok, Reply.mk.injEq, Except.ok.injEq, List.append_nil,
                ← List.append_assoc] at h
              obtain ⟨rfl, rfl, rfl⟩ := h
              exact .split hs (ih h₁) (ih h₀) hbranch

/-! ## Loop and recursion -/

/-- The loop works off a call as the recursion does, whatever is behind it. -/
theorem Recurses.later {m m' : Bdd} {t : Triple} {r : Edge} {events : List Event}
    (h : Recurses m t r m' events) (rest : List Chore) (results : List Edge)
    (before : List Event) :
    Loop.Later ⟨m, .call t :: rest, results, before⟩
      ⟨m', rest, r :: results, events.reverse ++ before⟩ := by
  induction h generalizing rest results before with
  | done hs => exact .single (by simp [Loop.Goes, Loop.turn, hs])
  | @split m m₁ m₂ m₃ m₄ t key high low v flip e₁ e₀ r ev₁ ev₀ hs _ _ hbranch ih₁ ih₀ =>
    have hsplit : Loop.Goes ⟨m, .call t :: rest, results, before⟩
        ⟨m₁, .call high :: .call low :: .join v key flip :: rest, results, before⟩ := by
      simp only [Loop.Goes, Loop.turn, hs]
    have hhigh := ih₁ (.call low :: .join v key flip :: rest) results before
    -- The answer for the high half stays below that for the low half.
    have hlow := ih₀ (.join v key flip :: rest) (e₁ :: results) (ev₁.reverse ++ before)
    have hjoin : Loop.Goes
        ⟨m₃, .join v key flip :: rest, e₀ :: e₁ :: results,
          ev₀.reverse ++ (ev₁.reverse ++ before)⟩
        ⟨m₄.remember key r, rest, r.negateIf flip :: results,
          (ev₁ ++ ev₀ ++ [Event.joined key.f key.g key.h r]).reverse ++ before⟩ := by
      simp [Loop.Goes, Loop.turn, Bdd.join, hbranch, Reply.ok]
    exact ((hhigh.head hsplit).trans hlow).tail hjoin

/-- The loop comes to what the recursion comes to, and the recursion to nothing else. -/
theorem Recurses.unique {m m₁ m₂ : Bdd} {t : Triple} {r₁ r₂ : Edge} {ev₁ ev₂ : List Event}
    (h₁ : Recurses m t r₁ m₁ ev₁) (h₂ : Recurses m t r₂ m₂ ev₂) :
    r₂ = r₁ ∧ m₂ = m₁ ∧ ev₂ = ev₁ := by
  have hl₁ := h₁.later [] [] []
  have hl₂ := h₂.later [] [] []
  -- Both runs of the loop have ended, and there is one end.
  rcases (Loop.Later.of_ended hl₁ rfl hl₂).cases_head with heq | ⟨w, hgo, _⟩
  · obtain ⟨hm, hr, hev⟩ : m₂ = m₁ ∧ r₂ = r₁ ∧ ev₂ = ev₁ := by simpa using heq
    exact ⟨hr, hm, hev⟩
  · cases hgo

/-- If-then-else is an answer of the recursion. -/
theorem recurses_of_ite {m m' : Bdd} {f g h r : Edge} {events : List Event}
    (hite : m.ite f g h = ⟨.ok r, m', events⟩) : Recurses m ⟨f, g, h⟩ r m' events :=
  recurses_of_solve ((ite_eq_solve m f g h).symm.trans hite)

/-- If-then-else comes to what the loop comes to. -/
theorem Loop.later_of_ite {m m' : Bdd} {f g h r : Edge} {events : List Event}
    (hite : m.ite f g h = ⟨.ok r, m', events⟩) :
    (start m ⟨f, g, h⟩).Later ⟨m', [], [r], events.reverse⟩ := by
  have hl := (recurses_of_ite hite).later [] [] []
  rwa [List.append_nil] at hl

/-! ## After a script -/

/-- A script that need not observe the order of variables is answered in full, and leaves a
    well-formed diagram behind. -/
theorem play_formed {s c : Nat} (hs : s ≤ 31) (hc : c ≤ 31) {qs : List (Request Nat)}
    (hq : Admits 2 qs) :
    ∃ m₀ given m ev, ofBits s c = .ok m₀ ∧ m₀.play [.one, .zero] qs = ⟨.ok given, m, ev⟩ ∧
      given.length = 2 + qs.length ∧ m.Formed ∧ ∀ e ∈ given, m.Known e := by
  obtain ⟨m₀, hm₀⟩ := exists_ofBits_eq_ok hs hc
  have h₀ := matched_of_ofBits hm₀ hm₀
  have hg₀ : ∀ e ∈ [Edge.one, .zero], m₀.Known e := by
    simp [h₀.left.known_one, h₀.left.known_zero]
  obtain ⟨answers, m, _, ev, _, hm, _, _, hp⟩ := h₀.play hg₀ hq
  refine ⟨m₀, [.one, .zero] ++ answers, m, ev, hm₀, hm, ?_, hp.left.toFormed, hp.known⟩
  rw [List.length_append, hp.length]
  rfl

/-- **The loop is the recursion.** After any script, on any three of the edges it was answered
    with, if-then-else, its loop and the recursion come to the same edge and leave the same
    diagram behind, and neither loop nor recursion comes to anything else.  The loop does so
    with any chores and answers behind the call. -/
theorem ite_recursive {s c : Nat} (hs : s ≤ 31) (hc : c ≤ 31) {qs : List (Request Nat)}
    (hq : Admits 2 qs) :
    ∃ m₀ given m ev, ofBits s c = .ok m₀ ∧ m₀.play [.one, .zero] qs = ⟨.ok given, m, ev⟩ ∧
      given.length = 2 + qs.length ∧
      ∀ f ∈ given, ∀ g ∈ given, ∀ h ∈ given, ∃ r m' events,
        m.ite f g h = ⟨.ok r, m', events⟩ ∧
        (∀ r₂ m₂ ev₂, Recurses m ⟨f, g, h⟩ r₂ m₂ ev₂ ↔ r₂ = r ∧ m₂ = m' ∧ ev₂ = events) ∧
        ∀ rest results before,
          Loop.Later ⟨m, .call ⟨f, g, h⟩ :: rest, results, before⟩
            ⟨m', rest, r :: results, events.reverse ++ before⟩ := by
  obtain ⟨m₀, given, m, ev, hm₀, hm, hlength, hf, hknown⟩ := play_formed hs hc hq
  refine ⟨m₀, given, m, ev, hm₀, hm, hlength, fun f hfg g hgg h hhg => ?_⟩
  obtain ⟨r, m', events, hite, -⟩ := hf.ite (hknown f hfg) (hknown g hgg) (hknown h hhg)
  have hrec := recurses_of_ite hite
  refine ⟨r, m', events, hite, fun r₂ m₂ ev₂ => ⟨hrec.unique, ?_⟩, hrec.later⟩
  rintro ⟨rfl, rfl, rfl⟩
  exact hrec

/-- Exclusive or of two variables under a third one, over a memo table with a single slot. -/
theorem ite_recursive_evicting :
    ∃ m₀ given m ev, ofBits 0 0 = .ok m₀ ∧
      m₀.play [.one, .zero] [.projection 1, .projection 2, .make (.complement 3), .ite 2 4 3,
        .projection 3] = ⟨.ok given, m, ev⟩ ∧ given.length = 7 ∧
      ∀ f ∈ given, ∀ g ∈ given, ∀ h ∈ given, ∃ r m' events,
        m.ite f g h = ⟨.ok r, m', events⟩ ∧
        (∀ r₂ m₂ ev₂, Recurses m ⟨f, g, h⟩ r₂ m₂ ev₂ ↔ r₂ = r ∧ m₂ = m' ∧ ev₂ = events) ∧
        ∀ rest results before,
          Loop.Later ⟨m, .call ⟨f, g, h⟩ :: rest, results, before⟩
            ⟨m', rest, r :: results, events.reverse ++ before⟩ := by
  have hadmits : Admits 2 [.projection 1, .projection 2, .make (.complement 3), .ite 2 4 3,
      .projection 3] := by
    simp [Admits, Request.operands, Maker.operands, Request.Numbered]
  exact ite_recursive (by decide : 0 ≤ 31) (by decide : 0 ≤ 31) hadmits

end Bdd

end SatMemo
