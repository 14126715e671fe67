import SatMemo.Proofs.Oracle.Recorder

/-! # Ledgers

    A ledger is kept beside a run of an oracle whose decider records what it is
    asked.  It lists the objects that building obtained and the queries, each with
    the entry on whose behalf it was put and the status that the entry had at the
    time.

    Building adds to it exactly one object for every entry that it appends, and
    no query (`keeps_build_adding`).  Nothing is assumed of the library, and of
    the decider only that its constant false is always the same object. -/

namespace SatMemo

variable {ε σ τ : Type}

/-! ## Entries and how they change -/

namespace Entry

/-- The entry that lowering makes for an object obtained for a formula of some kind. -/
def born : Kind × τ → Entry τ
  | (.constTrue, x)  => ⟨x, .sat⟩
  | (.constFalse, x) => ⟨x, .unsat⟩
  | (_, x)           => ⟨x, .unknown⟩

/-- What an entry still has to do with the object it was made for. -/
structure Kept (falsity : τ) (b : Kind × τ) (e : Entry τ) : Prop where
  constTrue  : b.1 = .constTrue → e.status = .sat
  constFalse : b.1 = .constFalse → e.status = .unsat
  object     : e.status ≠ .unsat → e.object = b.2
  falsity    : e.status = .unsat → e.object = falsity

theorem kept_born {falsity : τ} {b : Kind × τ} (h : b.1 = .constFalse → b.2 = falsity) :
    Kept falsity b (born b) := by
  obtain ⟨kind, x⟩ := b
  cases kind with
  | constTrue => exact ⟨fun _ => rfl, nofun, fun _ => rfl, nofun⟩
  | constFalse => exact ⟨nofun, fun _ => rfl, fun h => absurd rfl h, fun _ => h rfl⟩
  | var => exact ⟨nofun, nofun, fun _ => rfl, nofun⟩
  | not => exact ⟨nofun, nofun, fun _ => rfl, nofun⟩
  | and => exact ⟨nofun, nofun, fun _ => rfl, nofun⟩
  | or => exact ⟨nofun, nofun, fun _ => rfl, nofun⟩

/-- An open entry holds its object, and it is no constant. -/
theorem Kept.opened {falsity : τ} {b : Kind × τ} {e : Entry τ} (h : Kept falsity b e)
    (he : e.status = .unknown) : b.1 ≠ .constTrue ∧ b.1 ≠ .constFalse ∧ e.object = b.2 := by
  refine ⟨?_, ?_, h.object (by rw [he]; decide)⟩
  · intro hb
    have hs := h.constTrue hb
    rw [he] at hs
    cases hs
  · intro hb
    have hs := h.constFalse hb
    rw [he] at hs
    cases hs

/-- An open entry may be settled either way. -/
theorem Kept.settled {falsity : τ} {b : Kind × τ} {e : Entry τ} (h : Kept falsity b e)
    (he : e.status = .unknown) (satisfiable : Bool) :
    Kept falsity b (e.settled falsity satisfiable) := by
  obtain ⟨htrue, hfalse, hobject⟩ := h.opened he
  cases satisfiable with
  | true => exact ⟨fun hb => absurd hb htrue, fun hb => absurd hb hfalse, fun _ => hobject, nofun⟩
  | false =>
    exact ⟨fun hb => absurd hb htrue, fun hb => absurd hb hfalse, fun h => absurd rfl h,
      fun _ => rfl⟩

/-- An entry stays as it is, or it is open and gets a verdict. -/
def Moves (falsity : τ) (e e' : Entry τ) : Prop :=
  e' = e ∨ e.status = .unknown ∧ (e' = ⟨e.object, .sat⟩ ∨ e' = ⟨falsity, .unsat⟩)

theorem Moves.trans {falsity : τ} {e₁ e₂ e₃ : Entry τ} (h : Moves falsity e₁ e₂)
    (h' : Moves falsity e₂ e₃) : Moves falsity e₁ e₃ := by
  rcases h with rfl | ⟨hopen, hsettled⟩
  · exact h'
  · rcases h' with rfl | ⟨hopen', -⟩
    · exact .inr ⟨hopen, hsettled⟩
    · -- A settled entry does not move.
      rcases hsettled with rfl | rfl <;> cases hopen'

theorem moves_settled {falsity : τ} {e : Entry τ} (he : e.status = .unknown)
    (satisfiable : Bool) : Moves falsity e (e.settled falsity satisfiable) := by
  refine .inr ⟨he, ?_⟩
  cases satisfiable with
  | true => exact .inl rfl
  | false => exact .inr rfl

end Entry

/-! ## The ledger -/

/-- A query, the entry on whose behalf it was put, and what was known of it. -/
structure Query (τ : Type) where
  entry  : Nat
  status : Option Status
  asked  : Asked τ

namespace Query

/-- Did the decider answer, and how? -/
def verdict? (q : Query τ) : Option Bool :=
  match q.asked.answer with
  | .ok (.ok b) => some b
  | _           => none

theorem answer_of_verdict? {q : Query τ} {b : Bool} (h : q.verdict? = some b) :
    q.asked.answer = .ok (.ok b) := by
  unfold verdict? at h
  split at h
  · rename_i heq
    rw [heq, Option.some.inj h]
  · cases h

end Query

/-- The objects that building obtained, in the order of the entries, and the queries, the
    earliest first. -/
structure Ledger (τ : Type) where
  births  : List (Kind × τ)
  queries : List (Query τ)

namespace Ledger

def empty : Ledger τ where
  births  := []
  queries := []

/-- Note what the decider made between two states of a run. -/
def built (l : Ledger τ) (o o' : Oracle ε (Recorder σ τ) τ) : Ledger τ where
  births  := l.births ++ o'.decider.made.drop o.decider.made.length
  queries := l.queries

/-- Note what the decider was asked on behalf of entry `i`. -/
def consulted (l : Ledger τ) (i : Nat) (o o' : Oracle ε (Recorder σ τ) τ) : Ledger τ where
  births  := l.births
  queries := l.queries ++ (o'.decider.asked.drop o.decider.asked.length).map fun a =>
    ⟨i, o.entries[i]?.map Entry.status, a⟩

variable [Library ε] [Decider σ τ]

/-- The ledger after a call.  A question is a building and, if that gives an entry, a
    consultation on its behalf. -/
def after (l : Ledger τ) (c : Oracle.Call NodeId) (o : Oracle ε (Recorder σ τ) τ) : Ledger τ :=
  match c with
  | .build n         => l.built o (Oracle.after (Oracle.build n) o)
  | .isSatisfiable n =>
      match Oracle.build n o with
      | .ok i o₁    => (l.built o o₁).consulted i o₁ (Oracle.after (Oracle.consult n i) o₁)
      | .error _ o₁ => l.built o o₁
  | _                => l

end Ledger

namespace Oracle

variable [Library ε] [Decider σ τ]

/-- The runs from an oracle with a ledger.  After a fault there is nothing more. -/
inductive Run (o₀ : Oracle ε (Recorder σ τ) τ) (l₀ : Ledger τ) :
    Oracle ε (Recorder σ τ) τ → Ledger τ → Prop where
  | nil : Run o₀ l₀ o₀ l₀
  | call {o : Oracle ε (Recorder σ τ) τ} {l : Ledger τ} (c : Call NodeId) :
      Run o₀ l₀ o l → ¬ Faults c o → Run o₀ l₀ (after (perform c) o) (l.after c o)

/-! ## What building does -/

/-- A second verdict is no reason to stop, unless the library or the decider gives it as
    one. -/
def Excused (ε σ : Type) {τ : Type} [Library ε] [Decider σ τ] (stop : Stop) : Prop :=
  stop = .fault .decidedAgain →
    Library.Raises ε .decidedAgain ∨ Decider.Raises σ .decidedAgain

/-- A fault that is excused. -/
def Blamed (ε σ : Type) {τ : Type} [Library ε] [Decider σ τ] (stop : Stop) : Prop :=
  (∃ fault, stop = .fault fault) ∧ Excused ε σ stop

theorem excused_library {fault : Fault} (h : Library.Raises ε fault) :
    Excused ε σ (.fault fault) := by
  rintro ⟨⟩
  exact .inl h

theorem blamed_library {fault : Fault} (h : Library.Raises ε fault) :
    Blamed ε σ (.fault fault) :=
  ⟨⟨fault, rfl⟩, excused_library h⟩

theorem blamed_decider {fault : Fault} (h : Decider.Raises σ fault) :
    Blamed ε σ (.fault fault) := by
  refine ⟨⟨fault, rfl⟩, ?_⟩
  rintro ⟨⟩
  exact .inr h

theorem admits_excused : Admits ε (Excused ε σ) where
  library := excused_library
  error := fun _ => nofun
  range := fun _ _ => nofun
  descent := nofun

/-- Entries are added for objects obtained, and no query is put. -/
def Adds (falsity : τ) (o o' : Oracle ε (Recorder σ τ) τ) : Prop :=
  ∃ new : List (Kind × τ), (∀ b ∈ new, b.1 = .constFalse → b.2 = falsity) ∧
    o'.entries = o.entries ++ (new.map Entry.born).toArray ∧
    o'.decider.made = o.decider.made ++ new ∧ o'.decider.asked = o.decider.asked

/-- Entries and queries stay as they are. -/
def Quiet (o o' : Oracle ε (Recorder σ τ) τ) : Prop :=
  o'.entries = o.entries ∧ o'.decider.asked = o.decider.asked

omit [Library ε] [Decider σ τ] in
theorem Adds.of_eq {falsity : τ} {o o' : Oracle ε (Recorder σ τ) τ}
    (he : o'.entries = o.entries) (hd : o'.decider = o.decider) : Adds falsity o o' :=
  ⟨[], nofun, by simp [he], by simp [hd], by rw [hd]⟩

/-- Building adds entries. -/
def adding (ε σ : Type) (falsity : τ) : Passage ε (Recorder σ τ) τ where
  rel := Adds falsity
  refl := fun o => Adds.of_eq rfl rfl
  trans := by
    rintro o₁ o₂ o₃ ⟨new, hnew, he, hm, ha⟩ ⟨new', hnew', he', hm', ha'⟩
    refine ⟨new ++ new', ?_, ?_, ?_, ha'.trans ha⟩
    · intro b hb
      rcases List.mem_append.1 hb with hb | hb
      · exact hnew b hb
      · exact hnew' b hb
    · simp only [he', he, List.map_append, Array.append_assoc, List.append_toArray]
    · rw [hm', hm, List.append_assoc]

def quiet (ε σ τ : Type) : Passage ε (Recorder σ τ) τ where
  rel := Quiet
  refl := fun _ => ⟨rfl, rfl⟩
  trans := fun h h' => ⟨h'.1.trans h.1, h'.2.trans h.2⟩

section Falsity

variable {falsity : τ}

/-- What obtaining an object of some kind comes to. -/
def Obtains (falsity : τ) (kind : Kind) (o : Oracle ε (Recorder σ τ) τ) (r : Except Stop τ)
    (o' : Oracle ε (Recorder σ τ) τ) : Prop :=
  Quiet o o' ∧
    match r with
    | .ok x       => o'.decider.made = o.decider.made ++ [(kind, x)] ∧
        (kind = .constFalse → x = falsity)
    | .error stop => o'.decider.made = o.decider.made ∧ Blamed ε σ stop

theorem ends_make (kind : Kind) {call : σ → Reply σ τ}
    (hraise : ∀ {s fault}, (call s).result = .error fault → Decider.Raises σ fault)
    (hfalse : kind = .constFalse → ∀ {s x}, (call s).result = .ok x → x = falsity)
    (o : Oracle ε (Recorder σ τ) τ) :
    Ends (callDecider (Recorder.make kind call)) o (Obtains falsity kind o) := by
  cases o with
  | mk library decider index entries checked varCount settings stats watched journal =>
    rcases hcall : call decider.inner with ⟨fault | x, s, events⟩
    · unfold Ends callDecider Recorder.make
      simp only [hcall]
      exact ⟨⟨rfl, rfl⟩, rfl, blamed_decider (hraise (congrArg Reply.result hcall))⟩
    · unfold Ends callDecider Recorder.make
      simp only [hcall]
      exact ⟨⟨rfl, rfl⟩, rfl, fun hk => hfalse hk (congrArg Reply.result hcall)⟩

/-- What the entry for a node comes to: the one that is born with the object obtained. -/
def Bears (falsity : τ) (kind : Kind) (o : Oracle ε (Recorder σ τ) τ)
    (r : Except Stop (Entry τ)) (o' : Oracle ε (Recorder σ τ) τ) : Prop :=
  Quiet o o' ∧
    match r with
    | .ok e       => ∃ x, e = Entry.born (kind, x) ∧
        o'.decider.made = o.decider.made ++ [(kind, x)] ∧ (kind = .constFalse → x = falsity)
    | .error stop => o'.decider.made = o.decider.made ∧ Excused ε σ stop

/-- An object that is obtained and put into an entry. -/
theorem ends_born {kind : Kind} {p : OracleM ε (Recorder σ τ) τ τ} {status : Status}
    (h : ∀ o, Ends p o (Obtains falsity kind o))
    (hborn : ∀ x : τ, Entry.born (kind, x) = ⟨x, status⟩) (o : Oracle ε (Recorder σ τ) τ) :
    Ends (do return (⟨← p, status⟩ : Entry τ)) o (Bears falsity kind o) := by
  refine (h o).bind ?_ ?_
  · rintro x o' ⟨hq, hm⟩
    exact ⟨hq, x, (hborn x).symm, hm⟩
  · rintro stop o' ⟨hq, hm, hstop⟩
    exact ⟨hq, hm, hstop.2⟩

/-- The decider's constant false is always the same object. -/
def FalsityIs (σ : Type) {τ : Type} [Decider σ τ] (falsity : τ) : Prop :=
  ∀ (s : σ) (x : τ), (Decider.makeFalse s).result = .ok x → x = falsity

variable (hfalsity : FalsityIs σ falsity)
include hfalsity

theorem ends_objectFor (n : NodeId) (kind : Kind) (operands : List τ)
    (o : Oracle ε (Recorder σ τ) τ) :
    Ends (objectFor n kind operands) o (Bears falsity kind o) := by
  cases kind with
  | constTrue =>
    exact ends_born (ends_make .constTrue (fun h => .makeTrue h) nofun) (fun _ => rfl) o
  | constFalse =>
    exact ends_born (ends_make .constFalse (fun h => .makeFalse h) fun _ => hfalsity _ _)
      (fun _ => rfl) o
  | var =>
    -- The name is asked for first, which changes nothing.
    have hask : Keeps (unchanged ε (Recorder σ τ) τ) (Excused ε σ)
        (ask fun lib => Library.label lib n) :=
      Keeps.ask fun _ _ h => excused_library (.label h)
    refine (hask o).bind ?_ ?_
    · rintro name o' ⟨rfl, _⟩
      exact ends_born (ends_make .var (fun h => .makeVariable h) nofun) (fun _ => rfl) _
    · rintro stop o' ⟨rfl, hstop⟩
      exact ⟨⟨rfl, rfl⟩, rfl, hstop stop rfl⟩
  | not =>
    cases operands with
    | nil => exact ⟨⟨rfl, rfl⟩, rfl, nofun⟩
    | cons x xs => exact ends_born (ends_make .not (fun h => .makeNot h) nofun) (fun _ => rfl) o
  | and => exact ends_born (ends_make .and (fun h => .makeAnd h) nofun) (fun _ => rfl) o
  | or => exact ends_born (ends_make .or (fun h => .makeOr h) nofun) (fun _ => rfl) o

omit hfalsity in
/-- An entry is appended even if its class cannot be noted. -/
theorem ends_append (n : NodeId) (kind : Kind) (e : Entry τ) (o : Oracle ε (Recorder σ τ) τ) :
    Ends (append n kind e) o fun r o' =>
      o'.entries = o.entries.push e ∧ o'.decider = o.decider ∧
        ∀ stop, r = .error stop → Excused ε σ stop := by
  let o₁ : Oracle ε (Recorder σ τ) τ := { o with
    entries := o.entries.push e
    journal := o.journal.push (.lowered n o.entries.size kind e.status) }
  have hinsert : Keeps (unchanged ε (Recorder σ τ) τ) (Excused ε σ)
      (orFault (o.index.insert o.library n o.entries.size)) :=
    Keeps.orFault fun _ h => excused_library (ClassMap.raises_of_insert h)
  have hrest : Ends (orFault (o.index.insert o.library n o.entries.size) >>= fun index =>
      modify fun o => { o with index, stats := { o.stats with misses := o.stats.misses + 1 } }) o₁
      fun r o' => o'.entries = o.entries.push e ∧ o'.decider = o.decider ∧
        ∀ stop, r = .error stop → Excused ε σ stop := by
    refine (hinsert o₁).bind ?_ ?_
    · rintro index o' ⟨rfl, _⟩
      exact ⟨rfl, rfl, nofun⟩
    · rintro stop o' ⟨rfl, hstop⟩
      refine ⟨rfl, rfl, ?_⟩
      rintro _ ⟨⟩
      exact hstop stop rfl
  exact hrest.congr rfl

theorem keeps_lower (n : NodeId) :
    Keeps (adding ε σ falsity) (Excused ε σ) (lower n) := by
  refine (Keeps.ask fun _ _ h => excused_library (.kind h)).bind fun kind => ?_
  refine (Keeps.ask fun _ _ h => excused_library (.children h)).bind fun children => ?_
  refine (keeps_operandObjects admits_excused children).bind fun operands => ?_
  intro o
  refine (ends_objectFor hfalsity n kind operands o).bind ?_ ?_
  · rintro e o₁ ⟨⟨he₁, ha₁⟩, x, rfl, hm₁, hx⟩
    refine (ends_append n kind _ o₁).mono ?_
    rintro r o₂ ⟨he₂, hd₂, hstop⟩
    refine ⟨⟨[(kind, x)], ?_, ?_, by rw [hd₂, hm₁], by rw [hd₂, ha₁]⟩, hstop⟩
    · intro b hb
      rw [List.mem_singleton.1 hb]
      exact hx
    · rw [he₂, he₁]
      rfl
  · rintro stop o₁ ⟨⟨he₁, ha₁⟩, hm₁, hstop⟩
    refine ⟨⟨[], nofun, by simp [he₁], by simp [hm₁], ha₁⟩, ?_⟩
    rintro _ ⟨⟩
    exact hstop

theorem keeps_build_adding (n : NodeId) :
    Keeps (adding ε σ falsity) (Excused ε σ) (build n) :=
  keeps_build admits_excused (keeps_lower hfalsity)
    (fun _ => Keeps.modify fun _ => Adds.of_eq rfl rfl) (fun _ _ => Adds.of_eq rfl rfl) n

end Falsity

end Oracle

end SatMemo
