import SatMemo.Decider.Failing
import SatMemo.Proofs.BoolFn

/-! # Talks with a decider

    A talk is a decider in some state together with all that was obtained from
    it: the objects it returned, each with the Boolean function it was asked for,
    and its variables in the order they were made.  Variable `i` of the functions
    is the one made after `i` others, whatever number the decider gave it.

    `Talk.Reached s₀` are the talks that start from the state `s₀`: objects may be
    asked for and queried in any order, about any objects returned before.
    `Exact s₀` says that in all of them every call is answered and every query
    answered rightly.  It is what a program relies on when it leaves a question
    to a decider. -/

namespace SatMemo

/-! ## What can be asked for -/

/-- An object to be made, from operands of type `ρ`. -/
inductive Maker (ρ : Type) where
  | constTrue
  | constFalse
  | newVariable (name : String)
  | complement (x : ρ)
  | conjunction (xs : List ρ)
  | disjunction (xs : List ρ)

namespace Maker

variable {ρ ρ' σ τ : Type}

def map (f : ρ → ρ') : Maker ρ → Maker ρ'
  | constTrue        => constTrue
  | constFalse       => constFalse
  | newVariable name => newVariable name
  | complement x     => complement (f x)
  | conjunction xs   => conjunction (xs.map f)
  | disjunction xs   => disjunction (xs.map f)

def operands : Maker ρ → List ρ
  | constTrue | constFalse | newVariable _ => []
  | complement x                           => [x]
  | conjunction xs | disjunction xs        => xs

/-- The function asked for, if `v` is the number of the next variable. -/
def meaning (v : Nat) : Maker BoolFn → BoolFn
  | constTrue      => .const true
  | constFalse     => .const false
  | newVariable _  => .var v
  | complement F   => F.not
  | conjunction Fs => .all Fs
  | disjunction Fs => .any Fs

/-- A request means the same in every numbering of the variables. -/
theorem meaning_rename (ν : Nat → Nat) (v : Nat) (q : Maker BoolFn) :
    (q.meaning v).rename ν = (q.map (BoolFn.rename ν)).meaning (ν v) := by
  cases q with
  | constTrue => rfl
  | constFalse => rfl
  | newVariable name => rfl
  | complement F => rfl
  | conjunction Fs => exact BoolFn.rename_all ν Fs
  | disjunction Fs => exact BoolFn.rename_any ν Fs

@[simp] theorem map_map {ρ'' : Type} (f : ρ → ρ') (g : ρ' → ρ'') (q : Maker ρ) :
    (q.map f).map g = q.map (g ∘ f) := by
  cases q <;> simp [map]

/-- Only what becomes of the operands matters. -/
theorem map_congr {f g : ρ → ρ'} {q : Maker ρ} (h : ∀ x ∈ q.operands, f x = g x) :
    q.map f = q.map g := by
  cases q with
  | constTrue => rfl
  | constFalse => rfl
  | newVariable name => rfl
  | complement x => exact congrArg complement (h x (List.mem_singleton.2 rfl))
  | conjunction xs => exact congrArg conjunction (List.map_congr_left h)
  | disjunction xs => exact congrArg disjunction (List.map_congr_left h)

theorem operands_map (f : ρ → ρ') (q : Maker ρ) : (q.map f).operands = q.operands.map f := by
  cases q <;> rfl

/-- Does the call make a variable? -/
def isVariable : Maker ρ → Bool
  | newVariable _ => true
  | _             => false

@[simp] theorem isVariable_map (f : ρ → ρ') (q : Maker ρ) :
    (q.map f).isVariable = q.isVariable := by
  cases q <;> rfl

/-- Ask a decider. -/
def run [Decider σ τ] (s : σ) : Maker τ → Reply σ τ
  | constTrue        => Decider.makeTrue s
  | constFalse       => Decider.makeFalse s
  | newVariable name => Decider.makeVariable s name
  | complement x     => Decider.makeNot s x
  | conjunction xs   => Decider.makeAnd s xs
  | disjunction xs   => Decider.makeOr s xs

end Maker

/-! ## Talks -/

structure Talk (σ τ : Type) where
  state : σ
  given : List (τ × BoolFn)
  /-- The variables, the earliest first. -/
  vars  : List τ

namespace Talk

variable {σ τ : Type}

/-- Nothing was asked for yet. -/
def start (s : σ) : Talk σ τ where
  state := s
  given := []
  vars  := []

/-- The talk after `q` was answered with `x`. -/
def made (t : Talk σ τ) (q : Maker (τ × BoolFn)) (x : τ) (s : σ) : Talk σ τ where
  state := s
  given := (x, (q.map Prod.snd).meaning t.vars.length) :: t.given
  vars  := if q.isVariable then t.vars ++ [x] else t.vars

/-- The talk after a query: nothing was returned. -/
def asked (t : Talk σ τ) (s : σ) : Talk σ τ where
  state := s
  given := t.given
  vars  := t.vars

/-- The operands of a request were returned before. -/
def Knows (t : Talk σ τ) (q : Maker (τ × BoolFn)) : Prop :=
  ∀ x ∈ q.operands, x ∈ t.given

theorem knows_newVariable (t : Talk σ τ) (name : String) : t.Knows (.newVariable name) :=
  fun _ hx => absurd hx List.not_mem_nil

/-- The talks that can be had with a decider that starts in state `s₀`. -/
inductive Reached [Decider σ τ] (s₀ : σ) : Talk σ τ → Prop where
  | start : Reached s₀ (start s₀)
  | make {t : Talk σ τ} {q : Maker (τ × BoolFn)} {x : τ} {s : σ} {events : List Event} :
      Reached s₀ t → t.Knows q → (q.map Prod.fst).run t.state = ⟨.ok x, s, events⟩ →
      Reached s₀ (t.made q x s)
  | query {t : Talk σ τ} {x : τ × BoolFn} {a : Except DeciderError Bool} {s : σ}
      {events : List Event} :
      Reached s₀ t → x ∈ t.given → Decider.query t.state x.1 = ⟨.ok a, s, events⟩ →
      Reached s₀ (t.asked s)

/-- `t'` is `t` after any number of further calls. -/
inductive Later [Decider σ τ] (t : Talk σ τ) : Talk σ τ → Prop where
  | refl : Later t t
  | make {t' : Talk σ τ} {q : Maker (τ × BoolFn)} {x : τ} {s : σ} {events : List Event} :
      Later t t' → t'.Knows q → (q.map Prod.fst).run t'.state = ⟨.ok x, s, events⟩ →
      Later t (t'.made q x s)
  | query {t' : Talk σ τ} {x : τ × BoolFn} {a : Except DeciderError Bool} {s : σ}
      {events : List Event} :
      Later t t' → x ∈ t'.given → Decider.query t'.state x.1 = ⟨.ok a, s, events⟩ →
      Later t (t'.asked s)

/-- Only the variables made so far matter to what was returned. -/
theorem Reached.congr_below [Decider σ τ] {s₀ : σ} {t : Talk σ τ} (h : Reached s₀ t)
    {x : τ × BoolFn} (hx : x ∈ t.given) {α β : Nat → Bool}
    (hαβ : ∀ k, k < t.vars.length → α k = β k) : x.2 α = x.2 β := by
  induction h generalizing x with
  | start => cases hx
  | query _ _ _ ih => exact ih hx hαβ
  | @make t q y s events ht hknows hrun ih =>
    have hold : ∀ k, k < t.vars.length → α k = β k := by
      intro k hk
      refine hαβ k (Nat.lt_of_lt_of_le hk ?_)
      unfold made
      dsimp only
      split
      · rw [List.length_append]
        exact Nat.le_add_right _ _
      · exact Nat.le_refl _
    rcases List.mem_cons.1 hx with rfl | hx
    · have hops : ∀ F ∈ (q.map Prod.snd).operands, F α = F β := by
        intro F hF
        rw [Maker.operands_map] at hF
        obtain ⟨y, hy, rfl⟩ := List.mem_map.1 hF
        exact ih (hknows y hy) hold
      show (q.map Prod.snd).meaning t.vars.length α = (q.map Prod.snd).meaning _ β
      cases q with
      | constTrue => rfl
      | constFalse => rfl
      | newVariable name =>
        refine hαβ t.vars.length ?_
        show t.vars.length < (t.vars ++ [y]).length
        rw [List.length_append]
        exact Nat.lt_succ_self _
      | complement y => exact congrArg Bool.not (hops _ (List.mem_singleton.2 rfl))
      | conjunction ys => exact BoolFn.list_all_congr hops
      | disjunction ys => exact BoolFn.list_any_congr hops
    · exact ih hx hold

end Talk

/-! ## Exactness -/

/-- In every talk from `s₀` all calls are answered, queries according to whether the
    function is satisfiable. -/
structure Decider.Exact {σ τ : Type} [Decider σ τ] (s₀ : σ) : Prop where
  make  : ∀ {t : Talk σ τ}, Talk.Reached s₀ t → ∀ q : Maker (τ × BoolFn), t.Knows q →
    ∃ x s events, (q.map Prod.fst).run t.state = ⟨.ok x, s, events⟩
  query : ∀ {t : Talk σ τ}, Talk.Reached s₀ t → ∀ x ∈ t.given,
    ∃ b s events, Decider.query t.state x.1 = ⟨.ok (.ok b), s, events⟩ ∧
      (b = true ↔ x.2.Satisfiable)

end SatMemo
