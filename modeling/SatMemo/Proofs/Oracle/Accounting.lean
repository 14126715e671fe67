import SatMemo.Proofs.Oracle.Catalogue
import SatMemo.Proofs.Oracle.Inquiry

/-! # Accounts of entries and checks

    The invariant behind the counts of an oracle is in two parts.  `Listed` says
    which nodes have entries and which were checked.  `Accounted` says besides how
    many of the entries are decided, and that no verdict of a check was lost.

    An entry is decided when it is made, if it is that of a constant, or later by
    a query or a check, and then it was open before.  Whatever else may happen to
    an oracle short of a fault leaves the accounts as they are. -/

namespace SatMemo

/-- A constant is decided from the start. -/
def Kind.isConstant : Kind → Bool
  | .constTrue | .constFalse => true
  | _                        => false

theorem Entry.isDecided_born {τ : Type} (kind : Kind) (x : τ) :
    (Entry.born (kind, x)).status.isDecided = kind.isConstant := by
  cases kind <;> rfl

namespace Oracle

open Library (contains Same Classified Steady)

variable {ε σ τ : Type} [Library ε] {o o' o₁ : Oracle ε σ τ} {lib lib' : ε}
  {nodes : List NodeId} {probes more : List (NodeId × Status)} {m n k : NodeId} {i : Nat}

/-! ## What is counted -/

/-- Does the library say that the node is a constant? -/
def isConstant (lib : ε) (n : NodeId) : Bool :=
  match Library.kind lib n with
  | .ok kind => kind.isConstant
  | .error _ => false

/-- The number of entries that have a verdict. -/
def decidedCount (entries : Array (Entry τ)) : Nat :=
  entries.countP fun e => e.status.isDecided

theorem isConstant_steady (hlib : Steady lib lib') (hn : contains lib n = true) :
    isConstant lib' n = isConstant lib n := by
  unfold isConstant
  rw [hlib.kind_eq hn]

theorem decidedCount_push (entries : Array (Entry τ)) (kind : Kind) (x : τ) :
    decidedCount (entries.push (Entry.born (kind, x)))
      = decidedCount entries + if kind.isConstant then 1 else 0 := by
  unfold decidedCount
  rw [Array.countP_push, Entry.isDecided_born]

/-- An open entry that takes a verdict is one more. -/
theorem decidedCount_settled {entries : Array (Entry τ)} {e : Entry τ}
    (he : entries[i]? = some e) (hopen : e.status = .unknown) (x : τ) (b : Bool) :
    decidedCount (entries.setIfInBounds i (e.settled x b)) = decidedCount entries + 1 := by
  obtain ⟨hlt, hget⟩ := Array.getElem?_eq_some_iff.1 he
  have hold : ¬ e.status.isDecided = true := by
    rw [hopen]
    decide
  have hnew : (e.settled x b).status.isDecided = true := by
    rw [Entry.status_settled, Status.isDecided_ofBool]
  unfold decidedCount Array.setIfInBounds
  rw [dif_pos hlt, Array.countP_set, hget, if_neg hold, if_pos hnew, Nat.sub_zero]

/-! ## The lists -/

/-- The nodes `nodes` have the entries, in this order, and the nodes of `probes` were checked,
    with what came of it. -/
structure Listed (nodes : List NodeId) (probes : List (NodeId × Status)) (o : Oracle ε σ τ) :
    Prop where
  classified : Classified o.library
  index      : o.index.Files o.library nodes.zipIdx
  size       : o.entries.size = nodes.length
  misses     : o.stats.misses = nodes.length
  distinct   : nodes.Pairwise fun m n => ¬ Same o.library m n
  checked    : o.checked.Files o.library probes
  checks     : o.stats.checks = probes.length
  apart      : probes.Pairwise fun p q => ¬ Same o.library p.1 q.1
  entered    : ∀ p ∈ probes, Entered o.library nodes p.1
  unchecked  : o.settings.precheck = false → probes = []

theorem listed_start [Decider σ τ] {s : σ} (h : Classified lib) (settings : Settings)
    (watched : Bool) (setup : List Event) : Listed [] [] (start lib s settings watched setup) where
  classified := h
  index := ClassMap.files_empty lib
  size := rfl
  misses := rfl
  distinct := .nil
  checked := ClassMap.files_empty lib
  checks := rfl
  apart := .nil
  entered := nofun
  unchecked := fun _ => rfl

namespace Listed

variable (h : Listed nodes probes o)
include h

theorem held (hn : n ∈ nodes) : contains o.library n = true :=
  held_of_files h.index hn

theorem indexOf?_eq_some_iff (hn : contains o.library n = true) :
    indexOf? n o = .ok (some i) o ↔ ∃ k, nodes[i]? = some k ∧ Same o.library k n :=
  indexOf?_eq_some_iff_of_files h.classified h.index h.distinct hn

theorem not_same_of_indexOf? (hn : contains o.library n = true) (hi : indexOf? n o = .ok none o)
    (hk : k ∈ nodes) : ¬ Same o.library k n := by
  intro hs
  exact (indexOf?_eq_none_iff_of_files h.classified h.index h.distinct hn).1 hi ⟨k, hk, hs⟩

/-- The index and the checks are as before, and the library may have grown. -/
theorem carried (hlib : Steady o.library o'.library) (hclassified : Classified o'.library)
    (hindex : o'.index = o.index) (hsize : o'.entries.size = o.entries.size)
    (hchecked : o'.checked = o.checked) (hsettings : o'.settings = o.settings)
    (hmisses : o'.stats.misses = o.stats.misses) (hchecks : o'.stats.checks = o.stats.checks) :
    Listed nodes probes o' where
  classified := hclassified
  index := by
    rw [hindex]
    exact h.index.steady hlib
  size := hsize.trans h.size
  misses := hmisses.trans h.misses
  distinct := by
    apply h.distinct.imp_of_mem
    intro m n hm hn hmn hs
    exact hmn ((hlib.same_iff (h.held hm) (h.held hn)).1 hs)
  checked := by
    rw [hchecked]
    exact h.checked.steady hlib
  checks := hchecks.trans h.checks
  apart := by
    apply h.apart.imp_of_mem
    intro p q hp hq hpq hs
    exact hpq ((hlib.same_iff (h.checked.held p hp) (h.checked.held q hq)).1 hs)
  entered := by
    intro p hp
    obtain ⟨k, hk, hs⟩ := h.entered p hp
    exact ⟨k, hk, (hlib.same_iff (h.held hk) (h.checked.held p hp)).2 hs⟩
  unchecked := by
    rw [hsettings]
    exact h.unchecked

/-- A node without an entry is lowered, and goes to the end of the list. -/
theorem lowered (hn : contains o.library n = true) (hi : indexOf? n o = .ok none o)
    (hl : Lowered n o o') : Listed (nodes ++ [n]) probes o' := by
  cases hl with
  | intro _ hinsert =>
    constructor
    case classified => exact h.classified
    case index =>
      rw [List.zipIdx_append, Nat.zero_add]
      exact h.index.of_insert h.classified.toComparable hn (h.size ▸ hinsert)
    case size =>
      rw [Array.size_push, h.size, List.length_append]
      rfl
    case misses =>
      rw [List.length_append]
      exact congrArg (· + 1) h.misses
    case distinct =>
      rw [List.pairwise_append]
      refine ⟨h.distinct, List.pairwise_singleton _ _, ?_⟩
      intro k hk m hm
      rw [List.mem_singleton.1 hm]
      exact h.not_same_of_indexOf? hn hi hk
    case checked => exact h.checked
    case checks => exact h.checks
    case apart => exact h.apart
    case entered =>
      intro p hp
      exact (h.entered p hp).mono (List.subset_append_left _ _)
    case unchecked => exact h.unchecked

/-- A check that is run, of a node that has an entry, goes to the end of the checks. -/
theorem probed {verdict? : Option Bool} (hn : contains o.library n = true)
    (hentered : Entered o.library nodes n) (hp : Probed n o verdict? o₁)
    (hlib : Steady o.library o₁.library) (hclassified : Classified o₁.library) :
    ∃ more, Listed nodes (probes ++ more) o₁ ∧
      ∀ p ∈ more, p.1 = n ∧ p.2.verdict? = verdict? := by
  cases hp with
  | unwanted _ =>
    refine ⟨[], ?_, nofun⟩
    rwa [List.append_nil]
  | known _ _ =>
    refine ⟨[], ?_, nofun⟩
    rwa [List.append_nil]
  | @run status lib events checked hwanted hfind hcheck hinsert =>
    -- The check may change the library, which goes on giving the same answers.
    have h₁ : Listed nodes probes { o with library := lib } :=
      h.carried hlib hclassified rfl rfl rfl rfl rfl rfl
    have hnew := (h.checked.find?_eq_none_iff h.classified h.apart hn).1 hfind
    refine ⟨[(n, status)], ?_, ?_⟩
    · constructor
      case classified => exact hclassified
      case index => exact h₁.index
      case size => exact h.size
      case misses => exact h.misses
      case distinct => exact h₁.distinct
      case checked => exact h₁.checked.of_insert hclassified.toComparable (hlib.held hn) hinsert
      case checks =>
        rw [List.length_append]
        exact congrArg (· + 1) h.checks
      case apart =>
        rw [List.pairwise_append]
        refine ⟨h₁.apart, List.pairwise_singleton _ _, ?_⟩
        intro p hp q hq hs
        rw [List.mem_singleton.1 hq] at hs
        exact hnew p hp ((hlib.same_iff (h.checked.held p hp) hn).1 hs)
      case entered =>
        intro p hp
        rcases List.mem_append.1 hp with hp | hp
        · exact h₁.entered p hp
        · rw [List.mem_singleton.1 hp]
          obtain ⟨k, hk, hs⟩ := hentered
          exact ⟨k, hk, (hlib.same_iff (h.held hk) hn).2 hs⟩
      case unchecked =>
        intro hunwanted
        cases hwanted.symm.trans hunwanted
    · intro p hp
      rw [List.mem_singleton.1 hp]
      exact ⟨rfl, rfl⟩

end Listed

/-! ## The accounts -/

/-- Some entry of the structure of a node has the verdict. -/
def Holds (nodes : List NodeId) (o : Oracle ε σ τ) (n : NodeId) (b : Bool) : Prop :=
  ∃ (i : Nat) (k : NodeId) (e : Entry τ), nodes[i]? = some k ∧ Same o.library k n ∧
    o.entries[i]? = some e ∧ e.status = .ofBool b

/-- The lists, and how many entries are decided. -/
structure Accounted (nodes : List NodeId) (probes : List (NodeId × Status))
    (o : Oracle ε σ τ) : Prop extends Listed nodes probes o where
  decided : decidedCount o.entries
    = nodes.countP (isConstant o.library) + o.stats.queries + o.stats.checkHits
  agree   : ∀ p ∈ probes, ∀ b, p.2.verdict? = some b → Holds nodes o p.1 b

theorem accounted_start [Decider σ τ] {s : σ} (h : Classified lib) (settings : Settings)
    (watched : Bool) (setup : List Event) :
    Accounted [] [] (start lib s settings watched setup) where
  toListed := listed_start h settings watched setup
  decided := rfl
  agree := nofun

theorem Holds.kept {nodes' : List NodeId} {b : Bool} (h : Holds nodes o n b)
    (hlib : ∀ k ∈ nodes, Same o.library k n → Same o'.library k n)
    (hnodes : ∀ (j : Nat) (k : NodeId), nodes[j]? = some k → nodes'[j]? = some k)
    (hentries : ∀ (j : Nat) (e : Entry τ), o.entries[j]? = some e → e.status ≠ .unknown →
      o'.entries[j]? = some e) :
    Holds nodes' o' n b := by
  obtain ⟨i, k, e, hk, hs, he, hstatus⟩ := h
  refine ⟨i, k, e, hnodes i k hk, hlib k (List.mem_of_getElem? hk) hs, hentries i e he ?_, hstatus⟩
  rw [hstatus]
  cases b <;> decide

namespace Accounted

variable (h : Accounted nodes probes o)
include h

theorem countP_isConstant (hlib : Steady o.library lib) :
    nodes.countP (isConstant lib) = nodes.countP (isConstant o.library) := by
  apply List.countP_congr
  intro n hn
  rw [isConstant_steady hlib (h.held hn)]

theorem holds_steady {p : NodeId × Status} (hp : p ∈ probes)
    (hlib : Steady o.library o'.library) :
    ∀ k ∈ nodes, Same o.library k p.1 → Same o'.library k p.1 :=
  fun _ hk hs => (hlib.same_iff (h.held hk) (h.checked.held p hp)).2 hs

/-- No entry is touched, and no check that is new has a verdict. -/
theorem carried (hl : Listed nodes (probes ++ more) o') (hlib : Steady o.library o'.library)
    (hentries : o'.entries = o.entries) (hqueries : o'.stats.queries = o.stats.queries)
    (hcheckHits : o'.stats.checkHits = o.stats.checkHits)
    (hmore : ∀ p ∈ more, p.2.verdict? = none) : Accounted nodes (probes ++ more) o' where
  toListed := hl
  decided := by
    rw [hentries, hqueries, hcheckHits, h.countP_isConstant hlib]
    exact h.decided
  agree := by
    intro p hp b hb
    rcases List.mem_append.1 hp with hp | hp
    · apply (h.agree p hp b hb).kept (h.holds_steady hp hlib) fun _ _ hk => hk
      rw [hentries]
      exact fun _ _ he _ => he
    · cases (hmore p hp).symm.trans hb

theorem lowered (hn : contains o.library n = true) (hi : indexOf? n o = .ok none o)
    (hl : Lowered n o o') : Accounted (nodes ++ [n]) probes o' := by
  have hlisted := h.toListed.lowered hn hi hl
  cases hl with
  | @intro kind x index decider journal hkind hinsert =>
    refine ⟨hlisted, ?_, ?_⟩
    · -- The entry is decided from the start if and only if it is that of a constant.
      have hconstant : isConstant o.library n = kind.isConstant := by
        unfold isConstant
        rw [hkind]
      rw [decidedCount_push, h.decided, List.countP_append, List.countP_singleton, hconstant]
      dsimp only
      omega
    · intro p hp b hb
      refine (h.agree p hp b hb).kept (fun _ _ hs => hs) ?_ ?_
      · intro j k hk
        exact (List.getElem?_append_left (List.getElem?_eq_some_iff.1 hk).1).trans hk
      · intro j e he _
        have hlt := (Array.getElem?_eq_some_iff.1 he).1
        exact (Array.getElem?_push_lt hlt).trans ((Array.getElem?_eq_getElem hlt).symm.trans he)

/-- The entry of `n`, which was open, has a verdict now, and no check that is new says
    otherwise. -/
theorem settled {e : Entry τ} {x : τ} {b : Bool} (hn : contains o.library n = true)
    (hi : indexOf? n o = .ok (some i) o) (he : o.entries[i]? = some e)
    (hopen : e.status = .unknown) (hl : Listed nodes (probes ++ more) o')
    (hlib : Steady o.library o'.library)
    (hentries : o'.entries = o.entries.setIfInBounds i (e.settled x b))
    (hcounts : o'.stats.queries + o'.stats.checkHits
      = o.stats.queries + o.stats.checkHits + 1)
    (hmore : ∀ p ∈ more, p.1 = n ∧ ∀ b', p.2.verdict? = some b' → b' = b) :
    Accounted nodes (probes ++ more) o' where
  toListed := hl
  decided := by
    have hdecided := h.decided
    rw [hentries, decidedCount_settled he hopen, h.countP_isConstant hlib]
    omega
  agree := by
    intro p hp b' hb'
    rcases List.mem_append.1 hp with hp | hp
    · -- What an old check decided is not the entry that was open.
      apply (h.agree p hp b' hb').kept (h.holds_steady hp hlib) fun _ _ hk => hk
      intro j e' he' hne
      have hij : i ≠ j := by
        rintro rfl
        rw [he] at he'
        cases he'
        exact hne hopen
      rw [hentries, Array.getElem?_setIfInBounds_ne hij]
      exact he'
    · obtain ⟨hpn, hpb⟩ := hmore p hp
      obtain ⟨k, hk, hs⟩ := (h.indexOf?_eq_some_iff hn).1 hi
      have hlt := (Array.getElem?_eq_some_iff.1 he).1
      refine ⟨i, k, e.settled x b, hk, ?_, ?_, ?_⟩
      · rw [hpn]
        exact (hlib.same_iff (h.held (List.mem_of_getElem? hk)) hn).2 hs
      · rw [hentries]
        exact Array.getElem?_setIfInBounds_self_of_lt hlt
      · rw [hpb b' hb']
        exact Entry.status_settled e x b

/-- Consulting an entry adds to the checks at most. -/
theorem inquired [Decider σ τ] {r : Except Error Bool} (hn : contains o.library n = true)
    (hi : indexOf? n o = .ok (some i) o) (hq : Inquired n i o r o')
    (hlib : Steady o.library o'.library) (hclassified : Classified o'.library) :
    ∃ more, Accounted nodes (probes ++ more) o' := by
  obtain ⟨k, hk, hs⟩ := (h.indexOf?_eq_some_iff hn).1 hi
  have hentered : Entered o.library nodes n := ⟨k, List.mem_of_getElem? hk, hs⟩
  cases hq with
  | known _ _ =>
    refine ⟨[], ?_⟩
    rwa [List.append_nil]
  | @checked e b o₁ x decider journal he hopen hprobed =>
    obtain ⟨more, hl, hmore⟩ := h.probed hn hentered hprobed hlib hclassified
    have hspared := hprobed.spared
    refine ⟨more, h.settled (x := x) (b := b) hn hi he hopen ?_ hlib ?_ ?_ ?_⟩
    · exact hl.carried (.refl _) hclassified rfl Array.size_setIfInBounds rfl rfl rfl rfl
    · rw [hspared.entries]
    · rw [hspared.queries, hspared.checkHits]
      rfl
    · intro p hp
      obtain ⟨hpn, hpb⟩ := hmore p hp
      refine ⟨hpn, ?_⟩
      intro b' hb'
      exact Option.some.inj (hb'.symm.trans hpb)
  | @answered e b o₁ x decider journal he hopen hprobed =>
    obtain ⟨more, hl, hmore⟩ := h.probed hn hentered hprobed hlib hclassified
    have hspared := hprobed.spared
    refine ⟨more, h.settled (x := x) (b := b) hn hi he hopen ?_ hlib ?_ ?_ ?_⟩
    · exact hl.carried (.refl _) hclassified rfl Array.size_setIfInBounds rfl rfl rfl rfl
    · rw [hspared.entries]
    · rw [hspared.queries, hspared.checkHits]
      dsimp only
      omega
    · -- A check with a verdict would have saved the query.
      intro p hp
      obtain ⟨hpn, hpb⟩ := hmore p hp
      refine ⟨hpn, ?_⟩
      intro b' hb'
      cases hpb.symm.trans hb'
  | @refused e error o₁ decider events he hopen hprobed hquery =>
    obtain ⟨more, hl, hmore⟩ := h.probed hn hentered hprobed hlib hclassified
    have hspared := hprobed.spared
    refine ⟨more, h.carried ?_ hlib hspared.entries hspared.queries hspared.checkHits ?_⟩
    · exact hl.carried (.refl _) hclassified rfl rfl rfl rfl rfl rfl
    · intro p hp
      exact (hmore p hp).2

end Accounted

end Oracle

end SatMemo
