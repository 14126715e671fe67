import Mathlib.Data.List.Nodup
import Mathlib.Data.List.Perm.Subperm
import SatMemo.Proofs.Decider.Talk
import SatMemo.Proofs.Oracle.Classes
import SatMemo.Proofs.Oracle.Run

/-! # Faithful oracles

    An oracle over a lawful library and an exact decider is faithful if every
    entry belongs to one node of the library and the object in it stands for that
    node: under any assignment of the names, the function that the decider was
    asked for has the value of the node, and what is known of the entry is true
    of the node.

    The nodes that have an entry are kept in a list, in the order of the entries;
    the variables that the decider made are kept with their names, no name twice.
    Lowering a node whose operands have entries adds that node to the list. -/

namespace SatMemo

namespace Oracle

open Library (term? contains value Right right_unknown Lawful)

variable {ε σ τ : Type} [Library ε] [Lawful ε] [Decider σ τ] {s₀ : σ}
  {v : Nat} {o o' : Oracle ε σ τ} {lib : ε} {t t' : Talk σ τ} {names : List String}
  {reps : List NodeId} {n : NodeId} {x : τ} {i : Nat} {e : Entry τ}

/-- A list with one more element that is new. -/
theorem nodup_concat {ι : Type} {xs : List ι} {x : ι} (h : xs.Nodup) (hx : x ∉ xs) :
    (xs ++ [x]).Nodup := by
  rw [List.nodup_append]
  refine ⟨h, List.nodup_cons.2 ⟨nofun, List.nodup_nil⟩, ?_⟩
  rintro y hy z hz rfl
  rw [List.mem_singleton.1 hz] at hy
  exact hx hy

/-! ## Objects and nodes -/

/-- The assignment of the decider's variables that comes from one of the names. -/
def assigned (names : List String) (ρ : String → Bool) (k : Nat) : Bool :=
  ρ (names.getD k "")

/-- The object was asked for as a function that has the values of the node. -/
def Stands (t : Talk σ τ) (names : List String) (lib : ε) (x : τ) (n : NodeId) : Prop :=
  ∃ F, (x, F) ∈ t.given ∧ ∀ ρ, F (assigned names ρ) = value lib ρ n

/-- A talk with the decider that the oracle holds, and the names of its variables. -/
structure Talks (s₀ : σ) (t : Talk σ τ) (names : List String) (o : Oracle ε σ τ) : Prop where
  reached : Talk.Reached s₀ t
  state   : t.state = o.decider
  count   : names.length = t.vars.length
  nodup   : names.Nodup

/-- A talk in which the objects of all entries were returned. -/
structure Backed (s₀ : σ) (reps : List NodeId) (t : Talk σ τ) (names : List String)
    (o : Oracle ε σ τ) : Prop extends Talks s₀ t names o where
  /-- Every name is that of a variable which has an entry. -/
  named   : ∀ s ∈ names, ∃ n ∈ reps, term? o.library n = some (.var s)
  stands  : ∀ ⦃i : Nat⦄ ⦃n : NodeId⦄ ⦃e : Entry τ⦄, reps[i]? = some n →
    o.entries[i]? = some e → Stands t names o.library e.object n

/-- The nodes `reps` have the entries, in this order, and all that is kept of them is true;
    `v` variables were made. -/
structure Faithful (s₀ : σ) (v : Nat) (reps : List NodeId) (o : Oracle ε σ τ) : Prop where
  varCount : o.varCount = v
  wf       : Lawful.Wf o.library
  size     : o.entries.size = reps.length
  distinct : reps.Nodup
  index    : o.index.Lists o.library reps.zipIdx
  right    : ∀ ⦃i : Nat⦄ ⦃n : NodeId⦄ ⦃e : Entry τ⦄, reps[i]? = some n →
    o.entries[i]? = some e → Right o.library n e.status
  checked  : ∃ pairs, o.checked.Lists o.library pairs ∧ ∀ p ∈ pairs, Right o.library p.1 p.2
  backed   : ∃ t names, Backed s₀ reps t names o

theorem faithful_start {s₀ : σ} (h : Lawful.Wf lib) (settings : Settings) (watched : Bool)
    (setup : List Event) : Faithful s₀ 0 [] (start lib s₀ settings watched setup) where
  varCount := rfl
  wf := h
  size := rfl
  distinct := List.nodup_nil
  index := ClassMap.lists_empty lib
  right := nofun
  checked := ⟨[], ClassMap.lists_empty lib, nofun⟩
  backed := ⟨.start s₀, [], ⟨⟨.start, rfl, rfl, List.nodup_nil⟩, nofun, nofun⟩⟩

/-! ## The library grows -/

/-- The oracle `o'` differs from `o` in the library, which has more nodes, and in what is
    only counted or reported. -/
structure Larger (o o' : Oracle ε σ τ) : Prop where
  wf      : Lawful.Wf o'.library
  later   : Library.Extends o.library o'.library
  decider : o'.decider = o.decider
  index   : o'.index = o.index
  entries : o'.entries = o.entries
  checked : o'.checked = o.checked

theorem Faithful.held (h : Faithful s₀ v reps o) (hn : n ∈ reps) :
    contains o.library n = true := by
  -- A node with an entry is in the index, which lists only nodes of the library.
  obtain ⟨i, hi⟩ := List.mem_iff_getElem?.1 hn
  have hmem : (n, i) ∈ reps.zipIdx := List.mk_mem_zipIdx_iff_getElem?.2 hi
  exact h.index.held _ hmem

/-- Where handles are below a bound, entry numbers are, too. -/
theorem Faithful.entries_le (h : Faithful s₀ v reps o) {bound : Nat}
    (hraw : ∀ n, contains o.library n = true → n.raw < bound) : o.entries.size ≤ bound := by
  have hinjective : Function.Injective NodeId.raw := fun _ _ hmn => congrArg NodeId.mk hmn
  have hnodup : (reps.map NodeId.raw).Nodup := List.Nodup.map hinjective h.distinct
  have hbelow : reps.map NodeId.raw ⊆ List.range bound := by
    intro i hi
    obtain ⟨n, hn, rfl⟩ := List.mem_map.1 hi
    exact List.mem_range.2 (hraw n (h.held hn))
  have hlength := (hnodup.subperm hbelow).length_le
  rw [List.length_map, List.length_range] at hlength
  rw [h.size]
  exact hlength

omit [Decider σ τ] in
theorem Stands.mono (h : Stands t names lib x n) {lib' : ε} (hwf : Lawful.Wf lib)
    (hwf' : Lawful.Wf lib') (he : Library.Extends lib lib') (hn : contains lib n = true) :
    Stands t names lib' x n := by
  obtain ⟨F, hF, hvalue⟩ := h
  refine ⟨F, hF, fun ρ => ?_⟩
  rw [hvalue, (Lawful.founded hwf).value_of_extends (Lawful.founded hwf') he hn]

theorem Faithful.larger (h : Faithful s₀ v reps o) (hg : Larger o o') {v' : Nat}
    (hv : o'.varCount = v') : Faithful s₀ v' reps o' where
  varCount := hv
  wf := hg.wf
  size := by
    rw [hg.entries]
    exact h.size
  distinct := h.distinct
  index := by
    rw [hg.index]
    exact h.index.mono h.wf hg.later
  right := by
    intro i n e hn he
    rw [hg.entries] at he
    exact (Lawful.founded h.wf).right_of_extends (Lawful.founded hg.wf) hg.later
      (h.held (List.mem_of_getElem? hn)) (h.right hn he)
  checked := by
    obtain ⟨pairs, hpairs, hright⟩ := h.checked
    refine ⟨pairs, ?_, fun p hp => ?_⟩
    · rw [hg.checked]
      exact hpairs.mono h.wf hg.later
    · exact (Lawful.founded h.wf).right_of_extends (Lawful.founded hg.wf) hg.later
        (hpairs.held p hp) (hright p hp)
  backed := by
    obtain ⟨t, names, hb⟩ := h.backed
    refine ⟨t, names, ⟨hb.reached, hb.state.trans hg.decider.symm, hb.count, hb.nodup⟩, ?_, ?_⟩
    · intro s hs
      obtain ⟨n, hn, hterm⟩ := hb.named s hs
      exact ⟨n, hn, hg.later hterm⟩
    · intro i n e hn he
      rw [hg.entries] at he
      exact (hb.stands hn he).mono h.wf hg.wf hg.later (h.held (List.mem_of_getElem? hn))

/-! ## Looking up -/

omit [Library ε] [Lawful ε] [Decider σ τ] in
theorem find?_zipIdx (hnodup : reps.Nodup) (hi : reps[i]? = some n) :
    reps.zipIdx.find? (fun p => p.1 = n) = some (n, i) := by
  have hmem : (n, i) ∈ reps.zipIdx := List.mk_mem_zipIdx_iff_getElem?.2 hi
  -- No node has two positions, so the one found is the one asked for.
  cases hfind : reps.zipIdx.find? fun p => p.1 = n with
  | none =>
    have hne := List.find?_eq_none.1 hfind _ hmem
    exact absurd (decide_eq_true rfl) hne
  | some p =>
    obtain ⟨m, j⟩ := p
    have hm := List.find?_some hfind
    obtain rfl : m = n := by simpa using hm
    have hj : reps[j]? = some m :=
      List.mk_mem_zipIdx_iff_getElem?.1 (List.mem_of_find?_eq_some hfind)
    have hij : i = j :=
      (List.getElem?_inj (List.getElem?_eq_some_iff.1 hi).1 hnodup).1 (hi.trans hj.symm)
    rw [hij]

/-- The index of a node that has an entry. -/
theorem Faithful.indexOf?_eq (h : Faithful s₀ v reps o) (hi : reps[i]? = some n) :
    indexOf? n o = .ok (some i) o := by
  have hfind := h.index.find?_eq h.wf (h.held (List.mem_of_getElem? hi))
  rw [find?_zipIdx h.distinct hi] at hfind
  exact orFault_eq hfind

theorem Faithful.indexOf?_eq_none (h : Faithful s₀ v reps o) (hn : contains o.library n = true)
    (hnew : n ∉ reps) : indexOf? n o = .ok none o := by
  have hfind := h.index.find?_eq h.wf hn
  have hnone : reps.zipIdx.find? (fun p => p.1 = n) = none := by
    rw [List.find?_eq_none]
    rintro ⟨m, j⟩ hp hm
    have hj : reps[j]? = some m := List.mk_mem_zipIdx_iff_getElem?.1 hp
    obtain rfl : m = n := of_decide_eq_true hm
    exact hnew (List.mem_of_getElem? hj)
  rw [hnone] at hfind
  exact orFault_eq hfind

/-- A node with an index is the one on the list. -/
theorem Faithful.getElem?_of_indexOf? (h : Faithful s₀ v reps o) (hn : contains o.library n = true)
    (hi : indexOf? n o = .ok (some i) o) : reps[i]? = some n := by
  by_cases hmem : n ∈ reps
  · obtain ⟨j, hj⟩ := List.mem_iff_getElem?.1 hmem
    cases (h.indexOf?_eq hj).symm.trans hi
    exact hj
  · cases (h.indexOf?_eq_none hn hmem).symm.trans hi

theorem Faithful.exists_entry (h : Faithful s₀ v reps o) (hi : reps[i]? = some n) :
    ∃ e, o.entries[i]? = some e := by
  have hlt : i < o.entries.size := by
    rw [h.size]
    exact (List.getElem?_eq_some_iff.1 hi).1
  exact ⟨_, Array.getElem?_eq_getElem hlt⟩

/-! ## Operands -/

/-- The objects of operands that have entries, each with the function it was asked for. -/
theorem Faithful.operandObjects_eq (h : Faithful s₀ v reps o) (hb : Backed s₀ reps t names o)
    {ns : List NodeId} (hns : ∀ n ∈ ns, n ∈ reps) :
    ∃ xs : List (τ × BoolFn), operandObjects ns o = .ok (xs.map Prod.fst) o ∧
      (∀ x ∈ xs, x ∈ t.given) ∧
      ∀ ρ, xs.map (fun x => x.2 (assigned names ρ)) = ns.map (value o.library ρ) := by
  induction ns with
  | nil => exact ⟨[], rfl, nofun, fun _ => rfl⟩
  | cons n ns ih =>
    obtain ⟨xs, hxs, hgiven, hvalue⟩ := ih fun m hm => hns m (List.mem_cons_of_mem _ hm)
    obtain ⟨i, hi⟩ := List.mem_iff_getElem?.1 (hns n (List.mem_cons_self ..))
    obtain ⟨e, he⟩ := h.exists_entry hi
    obtain ⟨F, hF, hFvalue⟩ := hb.stands hi he
    refine ⟨(e.object, F) :: xs, ?_, ?_, ?_⟩
    · unfold operandObjects
      rw [bind_ok (h.indexOf?_eq hi)]
      show (entryAt i >>= fun e => operandObjects ns >>= fun xs => pure (e.object :: xs)) o = _
      rw [bind_ok (entryAt_eq he), bind_ok hxs]
      rfl
    · intro x hx
      rcases List.mem_cons.1 hx with rfl | hx
      · exact hF
      · exact hgiven x hx
    · intro ρ
      rw [List.map_cons, List.map_cons, hvalue, ← hFvalue]

/-! ## Obtaining an object -/

omit [Lawful ε] [Decider σ τ] in
theorem Stands.given (h : Stands t names lib x n) (ht : ∀ y ∈ t.given, y ∈ t'.given) :
    Stands t' names lib x n := by
  obtain ⟨F, hF, hvalue⟩ := h
  exact ⟨F, ht _ hF, hvalue⟩

/-- What obtaining the object for a node that is new comes to. -/
structure Obtained (s₀ : σ) (reps : List NodeId) (n : NodeId) (o : Oracle ε σ τ) (e : Entry τ)
    (o₁ : Oracle ε σ τ) : Prop where
  varCount : o₁.varCount = o.varCount
  library  : o₁.library = o.library
  index    : o₁.index = o.index
  entries  : o₁.entries = o.entries
  checked  : o₁.checked = o.checked
  right    : Right o.library n e.status
  backed   : ∃ t names, Backed s₀ (reps ++ [n]) t names o₁ ∧ Stands t names o.library e.object n

/-- The talk goes on, and the entries that there are keep their objects. -/
theorem Backed.goes_on (hb : Backed s₀ reps t names o) (h : Faithful s₀ v reps o)
    {t₁ : Talk σ τ} {names₁ : List String} {o₁ : Oracle ε σ τ} (ht : Talks s₀ t₁ names₁ o₁)
    (hlibrary : o₁.library = o.library) (hentries : o₁.entries = o.entries)
    (hnames : ∀ s ∈ names₁, ∃ m ∈ reps ++ [n], term? o.library m = some (.var s))
    (hstands : ∀ {y m}, Stands t names o.library y m → Stands t₁ names₁ o.library y m) :
    Backed s₀ (reps ++ [n]) t₁ names₁ o₁ where
  toTalks := ht
  named := by
    rw [hlibrary]
    exact hnames
  stands := by
    intro i m e hm he
    rw [hentries] at he
    rw [hlibrary]
    -- The entry is an old one, so it belongs to an old node.
    have hlt : i < reps.length := by
      rw [← h.size]
      exact (Array.getElem?_eq_some_iff.1 he).1
    rw [List.getElem?_append_left hlt] at hm
    exact hstands (hb.stands hm he)

variable (hexact : Decider.Exact s₀)
include hexact

/-- An object made from those of the operands. -/
theorem Faithful.gives_made (h : Faithful s₀ v reps o) (hb : Backed s₀ reps t names o)
    {q : Maker (τ × BoolFn)} (hq : t.Knows q) (hvar : q.isVariable = false)
    (hvalue : ∀ ρ, (q.map Prod.snd).meaning t.vars.length (assigned names ρ)
      = value o.library ρ n)
    {status : Status} (hright : Right o.library n status) :
    Gives (do return (⟨← callDecider fun d => (q.map Prod.fst).run d, status⟩ : Entry τ)) o
      (Obtained s₀ reps n o) := by
  obtain ⟨x, s, events, hrun⟩ := hexact.make hb.reached q hq
  have hcall : (q.map Prod.fst).run o.decider = ⟨.ok x, s, events⟩ := by
    rw [← hb.state]
    exact hrun
  refine Gives.step (callDecider_eq hcall) (Gives.pure ?_)
  have hvars : (t.made q x s).vars = t.vars := by
    unfold Talk.made
    rw [hvar]
    rfl
  have hgiven : ∀ y ∈ t.given, y ∈ (t.made q x s).given :=
    fun y hy => List.mem_cons_of_mem _ hy
  refine ⟨rfl, rfl, rfl, rfl, rfl, hright, t.made q x s, names, ?_, ?_⟩
  · refine hb.goes_on h ⟨hb.reached.make hq hrun, rfl, ?_, hb.nodup⟩ rfl rfl ?_ ?_
    · rw [hvars]
      exact hb.count
    · intro s hs
      obtain ⟨m, hm, hterm⟩ := hb.named s hs
      exact ⟨m, List.mem_append_left _ hm, hterm⟩
    · exact fun hy => hy.given hgiven
  · exact ⟨_, List.mem_cons_self .., hvalue⟩

omit [Library ε] [Lawful ε] [Decider σ τ] hexact in
/-- One more name does not change the values of the variables that were there. -/
theorem assigned_append {k : Nat} (hk : k < names.length) (name : String) (ρ : String → Bool) :
    assigned (names ++ [name]) ρ k = assigned names ρ k := by
  unfold assigned
  rw [List.getD_eq_getElem?_getD, List.getD_eq_getElem?_getD, List.getElem?_append_left hk]

omit [Library ε] [Lawful ε] [Decider σ τ] hexact in
theorem assigned_last (name : String) (ρ : String → Bool) :
    assigned (names ++ [name]) ρ names.length = ρ name := by
  unfold assigned
  rw [List.getD_eq_getElem?_getD, List.getElem?_concat_length, Option.getD_some]

/-- A variable made for a name that has no entry yet. -/
theorem Faithful.gives_variable (h : Faithful s₀ v reps o) (hb : Backed s₀ reps t names o)
    {name : String} (hn : term? o.library n = some (.var name)) (hnew : n ∉ reps) :
    Gives (do return (⟨← callDecider fun d => Decider.makeVariable d name, .unknown⟩ : Entry τ)) o
      (Obtained s₀ reps n o) := by
  let q : Maker (τ × BoolFn) := .newVariable name
  have hq : t.Knows q := nofun
  obtain ⟨x, s, events, hrun⟩ := hexact.make hb.reached q hq
  have hcall : Decider.makeVariable o.decider name = ⟨.ok x, s, events⟩ := by
    rw [← hb.state]
    exact hrun
  refine Gives.step (callDecider_eq hcall) (Gives.pure ?_)
  -- A name that is there belongs to a node that has an entry, and the name has one node.
  have hfresh : name ∉ names := by
    intro hmem
    obtain ⟨m, hm, hterm⟩ := hb.named name hmem
    rw [Lawful.var_unique h.wf hterm hn] at hm
    exact hnew hm
  have hnodup : (names ++ [name]).Nodup := nodup_concat hb.nodup hfresh
  have hstands : ∀ {y m}, Stands t names o.library y m →
      Stands (t.made q x s) (names ++ [name]) o.library y m := by
    rintro y m ⟨F, hF, hvalue⟩
    refine ⟨F, List.mem_cons_of_mem _ hF, fun ρ => ?_⟩
    rw [← hvalue ρ]
    -- The function does not look at the new variable.
    refine hb.reached.congr_below hF fun k hk => assigned_append ?_ name ρ
    rw [hb.count]
    exact hk
  refine ⟨rfl, rfl, rfl, rfl, rfl, right_unknown _ n, t.made q x s, names ++ [name], ?_, ?_⟩
  · refine hb.goes_on h ⟨hb.reached.make hq hrun, rfl, ?_, hnodup⟩ rfl rfl ?_ hstands
    · show (names ++ [name]).length = (t.vars ++ [x]).length
      rw [List.length_append, List.length_append, hb.count]
      rfl
    · intro s hs
      rcases List.mem_append.1 hs with hs | hs
      · obtain ⟨m, hm, hterm⟩ := hb.named s hs
        exact ⟨m, List.mem_append_left _ hm, hterm⟩
      · rw [List.mem_singleton.1 hs]
        exact ⟨n, List.mem_append_right _ (List.mem_singleton.2 rfl), hn⟩
  · refine ⟨.var t.vars.length, List.mem_cons_self .., fun ρ => ?_⟩
    rw [(Lawful.founded h.wf).value_eq hn, BoolFn.var_apply, ← hb.count]
    exact assigned_last name ρ

/-- The object for a node whose operands have entries. -/
theorem Faithful.gives_objectFor (h : Faithful s₀ v reps o) (hb : Backed s₀ reps t names o)
    {term : Term} (hn : term? o.library n = some term) (hnew : n ∉ reps)
    {xs : List (τ × BoolFn)} (hxs : ∀ x ∈ xs, x ∈ t.given)
    (hvalue : ∀ ρ, xs.map (fun x => x.2 (assigned names ρ))
      = term.children.map (value o.library ρ)) :
    Gives (objectFor n term.kind (xs.map Prod.fst)) o (Obtained s₀ reps n o) := by
  have hterm : ∀ ρ, value o.library ρ n = term.value ρ (value o.library ρ) :=
    fun ρ => (Lawful.founded h.wf).value_eq hn
  cases term with
  | constTrue =>
    refine h.gives_made hexact hb (q := .constTrue) nofun rfl (fun ρ => (hterm ρ).symm) ?_
    exact ⟨fun _ => ⟨fun _ => true, hterm _⟩, nofun⟩
  | constFalse =>
    refine h.gives_made hexact hb (q := .constFalse) nofun rfl (fun ρ => (hterm ρ).symm) ?_
    exact ⟨nofun, fun _ ρ => hterm ρ⟩
  | var name =>
    exact Gives.step (ask_eq (Library.label_of_term? hn)) (h.gives_variable hexact hb hn hnew)
  | not m =>
    -- A negation has one operand, so there is one object.
    have hlength : xs.length = 1 := by
      have := congrArg List.length (hvalue fun _ => true)
      rwa [List.length_map] at this
    obtain ⟨x, rfl⟩ := List.length_eq_one_iff.1 hlength
    refine h.gives_made hexact hb (q := .complement x) ?_ rfl ?_ (right_unknown _ n)
    · exact hxs
    · intro ρ
      rw [hterm]
      have hx : x.2 (assigned names ρ) = value o.library ρ m := (List.cons.inj (hvalue ρ)).1
      exact congrArg Bool.not hx
  | and ms =>
    refine h.gives_made hexact hb (q := .conjunction xs) hxs rfl ?_ (right_unknown _ n)
    intro ρ
    rw [hterm]
    calc (xs.map Prod.snd).all (fun F => F (assigned names ρ))
        = (xs.map fun x => x.2 (assigned names ρ)).all id := by
          rw [List.all_map, List.all_map]
          rfl
      _ = (ms.map (value o.library ρ)).all id := congrArg (List.all · id) (hvalue ρ)
      _ = ms.all (value o.library ρ) := List.all_map
  | or ms =>
    refine h.gives_made hexact hb (q := .disjunction xs) hxs rfl ?_ (right_unknown _ n)
    intro ρ
    rw [hterm]
    calc (xs.map Prod.snd).any (fun F => F (assigned names ρ))
        = (xs.map fun x => x.2 (assigned names ρ)).any id := by
          rw [List.any_map, List.any_map]
          rfl
      _ = (ms.map (value o.library ρ)).any id := congrArg (List.any · id) (hvalue ρ)
      _ = ms.any (value o.library ρ) := List.any_map

/-! ## Lowering -/

omit hexact in
/-- Appending the entry that was obtained. -/
theorem Faithful.gives_append (h : Faithful s₀ v reps o) (hn : contains o.library n = true)
    (hnew : n ∉ reps) {o₁ : Oracle ε σ τ} (hobtained : Obtained s₀ reps n o e o₁) (kind : Kind) :
    Gives (append n kind e) o₁ fun _ o₂ =>
      Faithful s₀ v (reps ++ [n]) o₂ ∧ o₂.library = o.library := by
  have hsize : o₁.entries.size = reps.length := by
    rw [hobtained.entries]
    exact h.size
  have hindex : o₁.index.Lists o₁.library reps.zipIdx := by
    rw [hobtained.index, hobtained.library]
    exact h.index
  -- The new node is noted under the index of the new entry.
  obtain ⟨index, hinsert, hlists⟩ :=
    hindex.insert_eq (hobtained.library.symm ▸ h.wf) (hobtained.library.symm ▸ hn) reps.length
  have hentry : ∀ {i : Nat} {m : NodeId} {e' : Entry τ}, (reps ++ [n])[i]? = some m →
      (o₁.entries.push e)[i]? = some e' →
      reps[i]? = some m ∧ o.entries[i]? = some e' ∨ m = n ∧ e' = e := by
    intro i m e' hm he'
    rw [Array.getElem?_push, hobtained.entries, h.size] at he'
    -- An entry is the new one or was there before.
    by_cases hi : i = reps.length
    · rw [if_pos hi] at he'
      rw [hi, List.getElem?_concat_length] at hm
      exact .inr ⟨(Option.some.inj hm).symm, (Option.some.inj he').symm⟩
    · rw [if_neg hi] at he'
      have hlt : i < reps.length := by
        rw [← h.size]
        exact (Array.getElem?_eq_some_iff.1 he').1
      rw [List.getElem?_append_left hlt] at hm
      exact .inl ⟨hm, he'⟩
  unfold append
  refine Gives.step rfl (Gives.step rfl (Gives.step rfl (Gives.step rfl ?_)))
  rw [← hsize] at hinsert
  refine Gives.step (orFault_eq hinsert) ⟨(), _, rfl, ?_, hobtained.library⟩
  constructor
  case varCount => exact hobtained.varCount.trans h.varCount
  case wf => exact hobtained.library.symm ▸ h.wf
  case size =>
    show (o₁.entries.push e).size = _
    rw [Array.size_push, hsize, List.length_append]
    rfl
  case distinct => exact nodup_concat h.distinct hnew
  case index =>
    rw [List.zipIdx_append, Nat.zero_add]
    exact hlists
  case right =>
    intro i m e' hm he'
    show Right o₁.library m e'.status
    rw [hobtained.library]
    rcases hentry hm he' with ⟨hm, he'⟩ | ⟨rfl, rfl⟩
    · exact h.right hm he'
    · exact hobtained.right
  case checked =>
    show ∃ pairs, o₁.checked.Lists o₁.library pairs ∧ ∀ p ∈ pairs, Right o₁.library p.1 p.2
    rw [hobtained.checked, hobtained.library]
    exact h.checked
  case backed =>
    obtain ⟨t, names, hb, hstands⟩ := hobtained.backed
    refine ⟨t, names, ⟨hb.reached, hb.state, hb.count, hb.nodup⟩, hb.named, ?_⟩
    intro i m e' hm he'
    rcases hentry hm he' with ⟨hm', he⟩ | ⟨rfl, rfl⟩
    · exact hb.stands hm (hobtained.entries ▸ he)
    · show Stands t names o₁.library e'.object m
      rw [hobtained.library]
      exact hstands

/-- Lowering a node adds it to those that have entries. -/
theorem Faithful.gives_lower (h : Faithful s₀ v reps o) (hn : contains o.library n = true)
    (hnew : n ∉ reps)
    (hops : ∀ {term}, term? o.library n = some term → ∀ m ∈ term.children, m ∈ reps) :
    Gives (lower n) o fun _ o' => Faithful s₀ v (reps ++ [n]) o' ∧ o'.library = o.library := by
  obtain ⟨term, hterm⟩ := (Lawful.founded h.wf).exists_term hn
  obtain ⟨t, names, hb⟩ := h.backed
  obtain ⟨xs, hxs, hgiven, hvalue⟩ := h.operandObjects_eq hb (hops hterm)
  unfold lower
  refine Gives.step (ask_eq (Library.kind_of_term? hterm)) ?_
  refine Gives.step (ask_eq (Library.children_of_term? hterm)) ?_
  refine Gives.step hxs ?_
  refine (h.gives_objectFor hexact hb hterm hnew hgiven hvalue).bind ?_
  intro e o₁ hobtained
  exact h.gives_append hn hnew hobtained _

end Oracle

end SatMemo
