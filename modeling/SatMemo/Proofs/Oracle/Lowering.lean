import SatMemo.Proofs.Oracle.Calls
import SatMemo.Proofs.Oracle.Filed

/-! # Lowering one node

    A node is lowered once its operands are found in the index.  That appends an
    entry for it and does nothing else to the memory (`Appended`).  The decider may
    do whatever it likes; lowering stops for none but its faults. -/

namespace SatMemo

namespace Oracle

variable {ε σ τ : Type} [Library ε] {o o' : Oracle ε σ τ} {n : NodeId}

/-- A look-up leads to an entry. -/
def Found (n : NodeId) (o : Oracle ε σ τ) : Prop :=
  ∃ i e, indexOf? n o = .ok (some i) o ∧ o.entries[i]? = some e

/-- The node got an entry, behind those that there were. -/
structure Appended (n : NodeId) (o o' : Oracle ε σ τ) : Prop where
  library : o'.library = o.library
  entries : ∃ e, o'.entries = o.entries.push e
  index   : o.index.insert o.library n o.entries.size = .ok o'.index
  misses  : o'.stats.misses = o.stats.misses + 1

theorem Appended.size (h : Appended n o o') : o'.entries.size = o.entries.size + 1 := by
  obtain ⟨e, he⟩ := h.entries
  rw [he, Array.size_push]

theorem Appended.getElem?_of_getElem? (h : Appended n o o') {i : Nat} {e : Entry τ}
    (he : o.entries[i]? = some e) : o'.entries[i]? = some e := by
  obtain ⟨e', he'⟩ := h.entries
  have hlt := (Array.getElem?_eq_some_iff.1 he).1
  rw [he', Array.getElem?_push_lt hlt, ← Array.getElem?_eq_getElem hlt, he]

/-! ## Objects -/

/-- The decider stopped the call. -/
def OfDecider (σ : Type) {τ : Type} [Decider σ τ] (stop : Stop) : Prop :=
  ∃ fault, stop = .fault fault ∧ Decider.Raises σ fault

/-- Nothing but the decider and the journal has changed. -/
def Obliged (o o' : Oracle ε σ τ) : Prop :=
  ∃ decider journal, o' = { o with decider, journal }

/-- The objects of operands that are found. -/
theorem exists_operandObjects {ns : List NodeId} (hns : ∀ n ∈ ns, Found n o) :
    ∃ xs : List τ, operandObjects ns o = .ok xs o ∧ xs.length = ns.length := by
  induction ns with
  | nil => exact ⟨[], rfl, rfl⟩
  | cons n ns ih =>
    obtain ⟨xs, hxs, hlength⟩ := ih fun m hm => hns m (List.mem_cons_of_mem _ hm)
    obtain ⟨i, e, hi, he⟩ := hns n (List.mem_cons_self ..)
    refine ⟨e.object :: xs, ?_, by rw [List.length_cons, hlength, List.length_cons]⟩
    unfold operandObjects
    rw [bind_ok hi]
    show (entryAt i >>= fun e => operandObjects ns >>= fun xs => pure (e.object :: xs)) o = _
    rw [bind_ok (entryAt_eq he), bind_ok hxs]
    rfl

variable [Decider σ τ]

omit [Library ε] in
theorem yields_callDecider {call : σ → Reply σ τ}
    (hraise : ∀ {s fault}, (call s).result = .error fault → Decider.Raises σ fault) :
    Yields (OfDecider σ) (callDecider call) o fun _ o' => Obliged o o' := by
  cases o with
  | mk library decider index entries checked varCount settings stats watched journal =>
    rcases hcall : call decider with ⟨fault | x, s, events⟩
    · unfold Yields Ends callDecider
      simp only [hcall]
      exact ⟨fault, rfl, hraise (congrArg Reply.result hcall)⟩
    · unfold Yields Ends callDecider
      simp only [hcall]
      exact ⟨s, _, rfl⟩

omit [Library ε] in
/-- An object that is put into an entry. -/
theorem yields_entry {call : σ → Reply σ τ}
    (hraise : ∀ {s fault}, (call s).result = .error fault → Decider.Raises σ fault)
    (status : Status) :
    Yields (OfDecider σ) (do return (⟨← callDecider call, status⟩ : Entry τ)) o
      fun _ o' => Obliged o o' := by
  apply (yields_callDecider hraise).bind
  intro x o' h
  exact Gives.yields (Gives.pure h)

theorem yields_objectFor {kind : Kind} {operands : List τ}
    (hlabel : kind = .var → ∃ s, Library.label o.library n = .ok s)
    (hnot : kind = .not → operands ≠ []) :
    Yields (OfDecider σ) (objectFor n kind operands) o fun _ o' => Obliged o o' := by
  cases kind with
  | constTrue => exact yields_entry (fun h => .makeTrue h) .sat
  | constFalse => exact yields_entry (fun h => .makeFalse h) .unsat
  | var =>
    obtain ⟨s, hs⟩ := hlabel rfl
    exact Yields.step (ask_eq hs) (yields_entry (fun h => .makeVariable h) .unknown)
  | not =>
    cases operands with
    | nil => exact absurd rfl (hnot rfl)
    | cons x xs => exact yields_entry (fun h => .makeNot h) .unknown
  | and => exact yields_entry (fun h => .makeAnd h) .unknown
  | or => exact yields_entry (fun h => .makeOr h) .unknown

/-! ## Entries -/

omit [Decider σ τ] in
theorem gives_append (hkey : ∃ key, Library.structKey o.library n = .ok key) (kind : Kind)
    (e : Entry τ) : Gives (append n kind e) o fun _ o' => Appended n o o' := by
  obtain ⟨key, hkey⟩ := hkey
  have hinsert := ClassMap.insert_of_structKey (c := o.index) (v := o.entries.size) hkey
  unfold append
  refine Gives.step rfl (Gives.step rfl (Gives.step rfl (Gives.step rfl ?_)))
  refine Gives.step (orFault_eq hinsert) ⟨(), _, rfl, ?_⟩
  exact ⟨rfl, ⟨e, rfl⟩, hinsert, rfl⟩

/-- A node whose operands are found gets an entry, unless the decider has a fault. -/
theorem yields_lower {kind : Kind} {ms : List NodeId}
    (hkind : Library.kind o.library n = .ok kind)
    (hms : Library.children o.library n = .ok ms) (haccepts : kind.accepts ms.length = true)
    (hlabel : kind = .var → ∃ s, Library.label o.library n = .ok s)
    (hkey : ∃ key, Library.structKey o.library n = .ok key) (hfound : ∀ m ∈ ms, Found m o) :
    Yields (OfDecider σ) (lower n) o fun _ o' => Appended n o o' := by
  obtain ⟨xs, hxs, hlength⟩ := exists_operandObjects hfound
  unfold lower
  refine Yields.step (ask_eq hkind) (Yields.step (ask_eq hms) (Yields.step hxs ?_))
  refine (yields_objectFor hlabel ?_).bind ?_
  · -- A negation has an operand.
    intro hnot hnil
    rw [hnot, ← hlength, hnil] at haccepts
    cases haccepts
  · intro e o₁ ⟨decider, journal, ho₁⟩
    subst ho₁
    refine ((gives_append ?_ kind e).mono ?_).yields
    · exact hkey
    · intro _ o' ha
      exact ⟨ha.library, ha.entries, ha.index, ha.misses⟩

end Oracle

end SatMemo
