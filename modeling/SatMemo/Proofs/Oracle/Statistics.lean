import SatMemo.Cnf.Decider
import SatMemo.Library.Tree
import SatMemo.Proofs.Oracle.Accounting

/-! # The counts add up

    An oracle counts what its memory was good for.  The counts agree with what is
    in the memory, after any calls that end no run (`Account`).  Calls may be
    refused, nodes may be malformed or foreign, checks may be wrong, and the
    decider answers whatever it likes or not at all.  Of the library it is asked
    only that its nodes fall into structural classes and that its answers last. -/

namespace SatMemo

namespace Oracle

open Library (contains Same Classified Steady)

variable {ε σ τ : Type} [Library ε] {o o' o₁ : Oracle ε σ τ} {lib : ε} {nodes : List NodeId}
  {probes : List (NodeId × Status)} {n : NodeId} {c : Call NodeId} {requests new : Nat}

/-! ## Counts and contents -/

/-- The number of entries made for constants. -/
def constantCount (o : Oracle ε σ τ) : Nat :=
  o.index.contents.countP fun p => isConstant o.library p.1

/-- Does the library hold the node, and is there an entry of its structure? -/
def hasEntry (n : NodeId) (o : Oracle ε σ τ) : Bool :=
  contains o.library n &&
    match o.index.find? o.library n with
    | .ok (some _) => true
    | _            => false

/-- What a call adds to the number of requests for a formula. -/
def requested (c : Call NodeId) : Nat :=
  match subject c with
  | some _ => 1
  | none   => 0

/-- What a call adds to the number of requests for a formula that had no entry. -/
def unentered (c : Call NodeId) (o : Oracle ε σ τ) : Nat :=
  match subject c with
  | some n => if hasEntry n o then 0 else 1
  | none   => 0

/-- Calls that end no run, over a library whose nodes fall into classes and whose answers
    last; with the number of requests for a formula among them, and of those that found the
    formula without an entry. -/
inductive Account [Decider σ τ] (o : Oracle ε σ τ) : Oracle ε σ τ → Nat → Nat → Prop where
  | nil : Account o o 0 0
  | call {o' : Oracle ε σ τ} {requests new : Nat} (c : Call NodeId) :
      Account o o' requests new → ¬ Faults c o' → Classified (after (perform c) o').library →
        Steady o'.library (after (perform c) o').library →
          Account o (after (perform c) o') (requests + requested c) (new + unentered c o')

/-- The counts agree with the contents of the memory. -/
structure AddsUp (settings : Settings) (requests new : Nat) (o : Oracle ε σ τ) : Prop where
  misses    : o.stats.misses = o.entries.size
  /-- Every entry was made for one node. -/
  owners    : (o.index.contents.map Prod.snd).Perm (List.range o.entries.size)
  /-- Every entry that is decided was so from the start, or else a query decided it that the
      decider answered, or a check. -/
  decided   : decidedCount o.entries = constantCount o + o.stats.queries + o.stats.checkHits
  checks    : o.stats.checks = o.checked.contents.length
  /-- No structure was checked twice. -/
  apart     : o.checked.contents.Pairwise fun p q => ¬ Same o.library p.1 q.1
  entered   : ∀ p ∈ o.checked.contents, contains o.library p.1 = true ∧
    ∃ e, entryOf? p.1 o = .ok (some e) o
  unchecked : settings.precheck = false → o.stats.checks = 0
  /-- What a check decided is decided that way. -/
  agree     : ∀ n status b, contains o.library n = true →
    o.checked.find? o.library n = .ok (some status) → status.verdict? = some b →
      status? n o = .ok (some (.ofBool b)) o
  hits      : o.stats.hits + new = requests

/-! ## Building -/

/-- The accounts go on, and nothing that building counts apart from them changes. -/
structure Posted (o o' : Oracle ε σ τ) : Prop where
  library  : o'.library = o.library
  settings : o'.settings = o.settings
  hits     : o'.stats.hits = o.stats.hits
  accounts : ∀ {nodes probes}, Accounted nodes probes o → ∃ new, Accounted (nodes ++ new) probes o'

def posting (ε σ τ : Type) [Library ε] : Passage ε σ τ where
  rel := Posted
  refl := by
    intro o
    refine ⟨rfl, rfl, rfl, ?_⟩
    intro nodes probes h
    refine ⟨[], ?_⟩
    rwa [List.append_nil]
  trans := by
    intro o₁ o₂ o₃ h h'
    refine ⟨h'.library.trans h.library, h'.settings.trans h.settings, h'.hits.trans h.hits, ?_⟩
    intro nodes probes ha
    obtain ⟨new, ha⟩ := h.accounts ha
    obtain ⟨new', ha⟩ := h'.accounts ha
    rw [List.append_assoc] at ha
    exact ⟨new ++ new', ha⟩

theorem posted_lowered (hn : contains o.library n = true) (hi : indexOf? n o = .ok none o)
    (hl : Lowered n o o') : Posted o o' where
  library := by
    cases hl
    rfl
  settings := by
    cases hl
    rfl
  hits := by
    cases hl
    rfl
  accounts := fun h => ⟨[n], h.lowered hn hi hl⟩

theorem hasEntry_of_indexOf? {i? : Option Nat} (hn : contains o.library n = true)
    (hi : indexOf? n o = .ok i? o) : hasEntry n o = i?.isSome := by
  unfold hasEntry
  rw [hn, indexOf?_eq_ok_iff.1 hi]
  cases i? <;> rfl

/-- What fetching the entry of a formula does to the accounts. -/
structure Drawn (n : NodeId) (o o₁ : Oracle ε σ τ) : Prop where
  library  : o₁.library = o.library
  settings : o₁.settings = o.settings
  hits     : o₁.stats.hits + (if hasEntry n o then 0 else 1) = o.stats.hits + 1
  accounts : ∀ {nodes probes}, Accounted nodes probes o → ∃ new, Accounted (nodes ++ new) probes o₁

theorem Fetched.drawn {r : Except Error Nat} (h : Fetched (posting ε σ τ) n o r o₁) :
    Drawn n o o₁ := by
  cases h with
  | foreign hn =>
    have hentry : hasEntry n o = false := by
      unfold hasEntry
      rw [hn]
      rfl
    refine ⟨rfl, rfl, ?_, (posting ε σ τ).refl o |>.accounts⟩
    rw [hentry]
    rfl
  | @reused i hn hi =>
    refine ⟨rfl, rfl, ?_, ?_⟩
    · rw [hasEntry_of_indexOf? hn hi]
      rfl
    · intro nodes probes h
      have hl : Listed nodes (probes ++ []) { o with
          stats := { o.stats with hits := o.stats.hits + 1 }
          journal := o.journal.push (.reused n i) } := by
        rw [List.append_nil]
        exact h.toListed.carried (.refl _) h.classified rfl rfl rfl rfl rfl rfl
      have ha := h.carried hl (.refl _) rfl rfl rfl nofun
      refine ⟨[], ?_⟩
      rwa [List.append_nil] at ha ⊢
  | worked hn hi hposted _ =>
    refine ⟨hposted.library, hposted.settings, ?_, hposted.accounts⟩
    rw [hasEntry_of_indexOf? hn hi, hposted.hits]
    rfl

/-! ## Calls -/

/-- What a call does to the accounts. -/
structure Booked (c : Call NodeId) (o o' : Oracle ε σ τ) : Prop where
  settings : o'.settings = o.settings
  hits     : o'.stats.hits + unentered c o = o.stats.hits + requested c
  accounts : ∀ {nodes probes}, Accounted nodes probes o →
    ∃ nodes' probes', Accounted nodes' probes' o'

section Calls

variable [Decider σ τ]

theorem Inquired.settings_hits {i : Nat} {r : Except Error Bool} (h : Inquired n i o r o') :
    o'.settings = o.settings ∧ o'.stats.hits = o.stats.hits := by
  cases h with
  | known _ _ => exact ⟨rfl, rfl⟩
  | checked _ _ hprobed => exact ⟨hprobed.spared.settings, hprobed.spared.hits⟩
  | answered _ _ hprobed => exact ⟨hprobed.spared.settings, hprobed.spared.hits⟩
  | refused _ _ hprobed _ => exact ⟨hprobed.spared.settings, hprobed.spared.hits⟩

/-- A call about a formula. -/
theorem Served.booked (hs : Served (posting ε σ τ) n o o') (hsubject : subject c = some n)
    (hlib : Steady o.library o'.library) (hclassified : Classified o'.library) :
    Booked c o o' := by
  have hcounts : requested c = 1 ∧ unentered c o = if hasEntry n o then 0 else 1 := by
    unfold requested unentered
    rw [hsubject]
    exact ⟨rfl, rfl⟩
  obtain ⟨hrequested, hunentered⟩ := hcounts
  cases hs with
  | fetched hfetched =>
    have hd := hfetched.drawn
    refine ⟨hd.settings, ?_, ?_⟩
    · rw [hrequested, hunentered]
      exact hd.hits
    · intro nodes probes h
      obtain ⟨new, ha⟩ := hd.accounts h
      exact ⟨_, _, ha⟩
  | consulted hfetched hinquired =>
    have hd := hfetched.drawn
    obtain ⟨hn, hi⟩ := hfetched.indexOf?_eq
    obtain ⟨hsettings, hhits⟩ := hinquired.settings_hits
    refine ⟨hsettings.trans hd.settings, ?_, ?_⟩
    · rw [hrequested, hunentered, hhits]
      exact hd.hits
    · intro nodes probes h
      obtain ⟨new, ha⟩ := hd.accounts h
      obtain ⟨more, ha⟩ := ha.inquired (hd.library.symm ▸ hn) hi hinquired
        (hd.library.symm ▸ hlib) hclassified
      exact ⟨_, _, ha⟩

/-- What any call does that ends no run. -/
theorem booked_perform (hc : ¬ Faults c o) (hclassified : Classified (after (perform c) o).library)
    (hlib : Steady o.library (after (perform c) o).library) :
    Booked c o (after (perform c) o) := by
  cases hsubject : subject c with
  | none =>
    obtain ⟨library, varCount, journal, hafter⟩ := after_of_no_subject hsubject o
    rw [hafter] at hlib hclassified ⊢
    refine ⟨rfl, ?_, ?_⟩
    · unfold unentered requested
      rw [hsubject]
    · intro nodes probes h
      have hl : Listed nodes (probes ++ []) { o with library, varCount, journal } := by
        rw [List.append_nil]
        exact h.toListed.carried hlib hclassified rfl rfl rfl rfl rfl rfl
      exact ⟨_, _, h.carried hl hlib rfl rfl rfl nofun⟩
  | some n =>
    have hsettles := settles_perform (P := posting ε σ τ) Posted.library posted_lowered hsubject o
    have hserved := hsettles.of_after fun fault o' hfault => hc ⟨fault, o', hfault⟩
    exact hserved.booked hsubject hlib hclassified

/-- What a run does. -/
theorem Account.accounted (hr : Account o o' requests new) (h : Accounted nodes probes o) :
    o'.settings = o.settings ∧ o'.stats.hits + new = o.stats.hits + requests ∧
      ∃ nodes' probes', Accounted nodes' probes' o' := by
  induction hr with
  | nil => exact ⟨rfl, rfl, _, _, h⟩
  | call c _ hc hclassified hlib ih =>
    obtain ⟨hsettings, hhits, _, _, ha⟩ := ih
    have hb := booked_perform hc hclassified hlib
    refine ⟨hb.settings.trans hsettings, ?_, hb.accounts ha⟩
    have := hb.hits
    omega

end Calls

/-! ## The counts -/

namespace Accounted

variable (h : Accounted nodes probes o)
include h

theorem owners : (o.index.contents.map Prod.snd).Perm (List.range o.entries.size) := by
  have hperm := h.index.contents_perm.map Prod.snd
  rwa [List.zipIdx_map_snd, ← List.range_eq_range', ← h.size] at hperm

theorem constantCount_eq : constantCount o = nodes.countP (isConstant o.library) := by
  calc o.index.contents.countP (fun p => isConstant o.library p.1)
      = nodes.zipIdx.countP (isConstant o.library ∘ Prod.fst) :=
        h.index.contents_perm.countP_eq _
    _ = (nodes.zipIdx.map Prod.fst).countP (isConstant o.library) := List.countP_map.symm
    _ = nodes.countP (isConstant o.library) := by rw [List.zipIdx_map_fst]

theorem exists_entry (hn : contains o.library n = true) (hentered : Entered o.library nodes n) :
    ∃ e, entryOf? n o = .ok (some e) o := by
  obtain ⟨i, k, hk, hs⟩ := hentered.exists_position
  have hlt : i < o.entries.size := h.size ▸ (List.getElem?_eq_some_iff.1 hk).1
  exact ⟨_, entryOf?_eq ((h.indexOf?_eq_some_iff hn).2 ⟨k, hk, hs⟩) (Array.getElem?_eq_getElem hlt)⟩

/-- A verdict of a check is in the entry of its class. -/
theorem status?_eq {status : Status} {b : Bool} (hn : contains o.library n = true)
    (hfind : o.checked.find? o.library n = .ok (some status)) (hb : status.verdict? = some b) :
    status? n o = .ok (some (.ofBool b)) o := by
  have hclassified := h.classified
  obtain ⟨p, hp, hs, rfl⟩ := (h.checked.find?_eq_some_iff hclassified h.apart hn).1 hfind
  obtain ⟨i, k, e, hk, hkp, he, hstatus⟩ := h.agree p hp b hb
  have hkn := hclassified.same_trans (h.held (List.mem_of_getElem? hk)) (h.checked.held p hp) hn
    hkp hs
  rw [← hstatus]
  exact Oracle.status?_eq ((h.indexOf?_eq_some_iff hn).2 ⟨k, hk, hkn⟩) he

theorem addsUp (hhits : o.stats.hits + new = requests) : AddsUp o.settings requests new o where
  misses := h.misses.trans h.size.symm
  owners := h.owners
  decided := by
    rw [h.constantCount_eq]
    exact h.decided
  checks := h.checks.trans h.checked.contents_perm.length_eq.symm
  apart := h.checked.contents_apart h.classified h.apart
  entered := by
    intro p hp
    have hp := h.checked.contents_perm.mem_iff.1 hp
    have hn := h.checked.held p hp
    exact ⟨hn, h.exists_entry hn (h.entered p hp)⟩
  unchecked := by
    intro hunwanted
    rw [h.checks, h.unchecked hunwanted]
    rfl
  agree := fun _ _ _ hn hfind hb => h.status?_eq hn hfind hb
  hits := hhits

end Accounted

/-- **The counts agree with the contents of the memory** after any run, whatever the decider and
    the checks answered, and whichever calls were refused. -/
theorem counts_add_up [Decider σ τ] {s : σ} {settings : Settings} {watched : Bool}
    {setup : List Event} (hlib : Classified lib)
    (hr : Account (start lib s settings watched setup) o requests new) :
    AddsUp settings requests new o := by
  obtain ⟨hsettings, hhits, _, _, ha⟩ :=
    hr.accounted (accounted_start hlib settings watched setup)
  have hadds := ha.addsUp (hhits.trans (Nat.zero_add requests))
  rwa [hsettings] at hadds

/-! ## Each count once -/

/-- A constant, a variable that the bounded check decides, and their conjunction. -/
def varied : Tree where
  nodes := #[⟨.constTrue, "true", [], some 7, .unknown⟩, ⟨.var, "x", [], some 7, .sat⟩,
    ⟨.and, "and", [⟨0⟩, ⟨1⟩], some 7, .unknown⟩]

theorem classified_varied : Classified varied := by
  have hfin {n : NodeId} (hn : contains varied n = true) : ∃ i : Fin 3, n = ⟨i⟩ :=
    ⟨⟨n.raw, of_decide_eq_true hn⟩, rfl⟩
  have hkey {n : NodeId} (hn : contains varied n = true) : Library.structKey varied n = .ok 7 := by
    obtain ⟨i, rfl⟩ := hfin hn
    revert i
    decide
  have heq {m n : NodeId} (hm : contains varied m = true) (hn : contains varied n = true) :
      Library.structEq varied m n = .ok (decide (m = n)) := by
    obtain ⟨i, rfl⟩ := hfin hm
    obtain ⟨j, rfl⟩ := hfin hn
    revert i j
    decide
  have hsame {m n : NodeId} (hm : contains varied m = true) (hn : contains varied n = true) :
      Same varied m n ↔ m = n := by
    unfold Same
    rw [heq hm hn, Except.ok.injEq, decide_eq_true_iff]
  constructor
  case toComparable =>
    exact ⟨fun hn => ⟨7, hkey hn⟩, fun hm hn => ⟨_, heq hm hn⟩,
      fun hm hn _ => (hkey hm).trans (hkey hn).symm⟩
  case same_refl => exact fun hn => (hsame hn hn).2 rfl
  case same_symm => exact fun hm hn h => (hsame hn hm).2 ((hsame hm hn).1 h).symm
  case same_trans =>
    intro k m n hk hm hn h h'
    exact (hsame hk hn).2 (((hsame hk hm).1 h).trans ((hsame hm hn).1 h'))

/-- A call that ends no run, and does nothing to the library. -/
theorem Account.call_varied {o₀ o : Oracle Tree Encoder Literal} (hr : Account o₀ o requests new)
    (hlib : o.library = varied) (c : Call NodeId)
    (hc : (stopOf? (perform c) o).all fun stop => stop matches .error _)
    (hnodes : (after (perform c) o).library.nodes = varied.nodes) :
    (after (perform c) o).library = varied ∧
      Account o₀ (after (perform c) o) (requests + requested c) (new + unentered c o) := by
  have hafter : (after (perform c) o).library = varied := congrArg Tree.mk hnodes
  refine ⟨hafter, hr.call c ?_ ?_ ?_⟩
  · rintro ⟨fault, o', hfault⟩
    unfold stopOf? at hc
    rw [hfault] at hc
    cases hc
  · exact hafter ▸ classified_varied
  · rw [hafter, hlib]
    exact .refl _

/-- The question about the conjunction goes to the decider, the one about the variable, which
    has an entry by then, to the bounded check, and the last node is foreign. -/
theorem counts_add_up_varied : ∃ o : Oracle Tree Encoder Literal,
    o.stats = ⟨1, 3, 1, 2, 1⟩ ∧ AddsUp { precheck := true } 3 2 o := by
  let o₀ : Oracle Tree Encoder Literal := start varied Encoder.start { precheck := true } false []
  let o₁ := after (perform (.isSatisfiable ⟨2⟩)) o₀
  let o₂ := after (perform (.isSatisfiable ⟨1⟩)) o₁
  let o₃ := after (perform (.build ⟨9⟩)) o₂
  obtain ⟨hlib₁, h₁⟩ := (Account.nil (o := o₀)).call_varied rfl (.isSatisfiable ⟨2⟩)
    (by decide +kernel) (by decide +kernel)
  obtain ⟨hlib₂, h₂⟩ := h₁.call_varied hlib₁ (.isSatisfiable ⟨1⟩) (by decide +kernel)
    (by decide +kernel)
  obtain ⟨hlib₃, h₃⟩ := h₂.call_varied hlib₂ (.build ⟨9⟩) (by decide +kernel) (by decide +kernel)
  have hnew : 0 + unentered (.isSatisfiable ⟨2⟩) o₀ + unentered (.isSatisfiable ⟨1⟩) o₁
      + unentered (.build ⟨9⟩) o₂ = 2 := by
    decide +kernel
  refine ⟨o₃, by decide +kernel, ?_⟩
  have hadds := counts_add_up classified_varied h₃
  rwa [hnew] at hadds

end Oracle

end SatMemo
