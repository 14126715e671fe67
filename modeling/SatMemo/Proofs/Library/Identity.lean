import SatMemo.Proofs.Library.Labels
import SatMemo.Proofs.Library.Unfolding

/-! # Nodes are structures

    Both libraries store every structure once: two nodes are the same exactly if
    their formulas are, however deep these are and whatever was made in between.

    The handles of a library are the nodes it has returned since it was new.
    `Handles.Identified` is what holds of them, now and in every later library;
    it follows by induction on the calls from the laws of `Lawful` and
    `Canonical`, which both libraries have. -/

namespace SatMemo

/-! ## The laws of both libraries -/

namespace Nary

instance : Library.Canonical Nary where
  term_unique := fun h hm hn =>
    h.eq_of_term (h.term?_eq_some_iff.1 hm) (h.term?_eq_some_iff.1 hn)
  label_eq := fun h hn => h.label_eq hn
  label_later := fun h h' he hn => h.label_later h' he hn
  build_again := fun h h' hq he => build_again h h' hq he

end Nary

namespace Aig

variable {G : Generator}

/-- Signals that read alike are the same. -/
theorem Wf.eq_of_form {a : Aig G} (h : a.Wf) {s s' : Signal} {t : Term} (hs : Form a s t)
    (hs' : Form a s' t) : s = s' := by
  cases hs with
  | zero =>
    cases hs'
    rfl
  | one =>
    cases hs'
    rfl
  | input hv =>
    obtain ⟨j, rfl, hj⟩ := hs'.exists_input
    rw [h.arena.distinct hv hj]
  | gate hv =>
    obtain ⟨j, rfl, hj⟩ := hs'.exists_gate
    rw [h.arena.distinct hv hj]
  | negated hv => exact hs'.eq_negate.symm

instance : Library.Canonical (Aig G) where
  term_unique := by
    intro a m n t h hm hn
    have hm : Form a (.ofNode m) t := form_of_term? hm
    have hn : Form a (.ofNode n) t := form_of_term? hn
    exact congrArg Signal.toNode (h.eq_of_form hm hn)
  label_eq := fun h hn => h.label_eq hn
  label_later := fun h h' he hn => h.label_later he h' hn
  build_again := fun h h' hq he => build_again h' h hq he

end Aig

/-! ## Handles -/

/-- A library and the nodes it has returned. -/
structure Handles (ε : Type) where
  library : ε
  given   : List NodeId

namespace Handles

open Library

variable {ε : Type} [Library ε]

/-- What becomes of the handles when `q` is asked and answered. -/
def after (h : Handles ε) (q : Maker NodeId) : Handles ε where
  library := (q.build h.library).library
  given   := (q.build h.library).node :: h.given

/-- The handles that `h` can go on to, by calls about nodes returned before. -/
inductive Later (h : Handles ε) : Handles ε → Prop where
  | refl : Later h h
  | step {h₁ : Handles ε} {q : Maker NodeId} : Later h h₁ →
      (∀ n ∈ q.operands, n ∈ h₁.given) → Later h (h₁.after q)

/-- Handles are as good as the formulas they stand for. -/
structure Identified (h : Handles ε) : Prop where
  /-- Every handle can be written out, with or without the texts of inner nodes. -/
  answered : ∀ texts, ∀ n ∈ h.given, ∃ u, unfold h.library texts n = .ok u
  /-- Handles are equal exactly if they are equal in structure. -/
  structure_iff : ∀ m ∈ h.given, ∀ n ∈ h.given, m = n ↔ structEq h.library m n = .ok true
  /-- Handles are equal exactly if they are the same formula. -/
  unfold_iff : ∀ texts, ∀ m ∈ h.given, ∀ n ∈ h.given,
    m = n ↔ unfold h.library texts m = unfold h.library texts n
  /-- A handle has one structural key for good. -/
  key : ∀ n ∈ h.given, ∃ k, ∀ h', Later h h' → structKey h'.library n = .ok k
  /-- The formula of a handle never changes. -/
  unfold_later : ∀ h', Later h h' → ∀ texts, ∀ n ∈ h.given,
    unfold h'.library texts n = unfold h.library texts n
  /-- A call that is made again returns the same handle and changes nothing. -/
  again : ∀ (q : Maker NodeId) (h' : Handles ε), (∀ n ∈ q.operands, n ∈ h.given) →
    Later (h.after q) h' → q.build h'.library = ⟨(q.build h.library).node, h'.library, []⟩

variable [Lawful ε] {h h' : Handles ε} {q : Maker NodeId}

/-- The library is well-formed and holds what it returned. -/
structure Sound (h : Handles ε) : Prop where
  wf   : Lawful.Wf h.library
  held : ∀ n ∈ h.given, contains h.library n = true

/-- A call about nodes returned before. -/
theorem Sound.after (hs : h.Sound) (hq : ∀ n ∈ q.operands, n ∈ h.given) :
    (h.after q).Sound ∧ Extends h.library (h.after q).library := by
  have hgrows := grows_build hs.wf fun n hn => hs.held n (hq n hn)
  refine ⟨⟨hgrows.wf, fun n hn => ?_⟩, hgrows.later⟩
  rcases List.mem_cons.1 hn with rfl | hn
  · exact hgrows.held
  · exact (Lawful.founded hs.wf).contains_of_extends hgrows.later (hs.held n hn)

/-- Any number of calls. -/
theorem Sound.later (hs : h.Sound) (hl : Later h h') :
    h'.Sound ∧ Extends h.library h'.library := by
  induction hl with
  | refl => exact ⟨hs, .refl _⟩
  | step _ hq ih =>
    obtain ⟨hs₁, he⟩ := ih
    obtain ⟨hs₂, he'⟩ := hs₁.after hq
    exact ⟨hs₂, fun _ _ ht => he' (he ht)⟩

variable [Canonical ε]

theorem Sound.unfold_later (hs : h.Sound) (hl : Later h h') (texts : Bool) {n : NodeId}
    (hn : n ∈ h.given) : unfold h'.library texts n = unfold h.library texts n := by
  obtain ⟨hs', he⟩ := hs.later hl
  have hheld := hs.held n hn
  exact unfoldAt_later hs.wf hs'.wf he hheld ((Lawful.founded hs.wf).lt_bound hheld)
    ((Lawful.founded hs'.wf).lt_bound
      ((Lawful.founded hs.wf).contains_of_extends he hheld))

theorem Sound.identified (hs : h.Sound) : h.Identified where
  answered := fun texts n hn =>
    exists_unfoldAt hs.wf (hs.held n hn) ((Lawful.founded hs.wf).lt_bound (hs.held n hn))
  structure_iff := by
    intro m hm n hn
    rw [Lawful.structEq_eq hs.wf (hs.held m hm) (hs.held n hn)]
    simp
  unfold_iff := by
    intro texts m hm n hn
    refine ⟨fun heq => heq ▸ rfl, fun heq => ?_⟩
    obtain ⟨u, hu⟩ : ∃ u, unfold h.library texts m = .ok u :=
      exists_unfoldAt hs.wf (hs.held m hm) ((Lawful.founded hs.wf).lt_bound (hs.held m hm))
    exact unfoldAt_inj hs.wf (hs.held m hm) (hs.held n hn) hu (heq ▸ hu)
  key := by
    intro n hn
    obtain ⟨t, ht⟩ := (Lawful.founded hs.wf).exists_term (hs.held n hn)
    refine ⟨Lawful.key ε n t, fun h' hl => ?_⟩
    obtain ⟨hs', he⟩ := hs.later hl
    exact Lawful.structKey_eq hs'.wf (he ht)
  unfold_later := fun h' hl texts n hn => hs.unfold_later hl texts hn
  again := by
    intro q h' hq hl
    obtain ⟨hs', he⟩ := (hs.after hq).1.later hl
    exact Canonical.build_again hs.wf hs'.wf (fun n hn => hs.held n (hq n hn)) he

theorem sound_nary {bits : Nat} {lib : Nary} (hlib : Nary.ofBits bits = .ok lib) :
    Sound ⟨lib, []⟩ := by
  obtain rfl := Nary.eq_of_ofBits hlib
  exact ⟨Nary.wf_empty bits, nofun⟩

theorem sound_aig {G : Generator} {bits : Nat} {seed : UInt64} {a : Aig G}
    (ha : Aig.ofBits bits seed G = .ok a) :
    Sound ⟨a, []⟩ := by
  obtain rfl := Aig.eq_of_ofBits ha
  exact ⟨Aig.wf_empty bits _, nofun⟩

/-- Whatever was made in a library of either kind since it was new: equal handles, handles of
    equal structure and handles of equal formulas are the same, for good, and nothing is made
    twice. -/
theorem reached_identified (G : Generator) (bits : Nat) (seed : UInt64) :
    (∀ lib, Nary.ofBits bits = .ok lib → ∀ h, Later ⟨lib, []⟩ h → h.Identified) ∧
    (∀ a, Aig.ofBits bits seed G = .ok a → ∀ h, Later ⟨a, []⟩ h → h.Identified) :=
  ⟨fun _ hlib _ hl => ((sound_nary hlib).later hl).1.identified,
    fun _ ha _ hl => ((sound_aig ha).later hl).1.identified⟩

/-- Two conjunctions of two variables, one in either order: the n-ary library keeps them apart,
    and their formulas are different; the graph has one node for both. -/
theorem reached_identified_conjunctions :
    (∃ h : Handles Nary, Later ⟨⟨.empty 4⟩, []⟩ h ∧ h.given = [⟨4⟩, ⟨3⟩, ⟨2⟩, ⟨1⟩] ∧
      unfold h.library false ⟨3⟩ ≠ unfold h.library false ⟨4⟩) ∧
    (∃ h : Handles Aig, Later ⟨⟨.empty 4, 0, Generator.xoshiro.ofSeed 0⟩, []⟩ h ∧
      h.given = [⟨6⟩, ⟨6⟩, ⟨4⟩, ⟨2⟩] ∧
      ((Maker.conjunction [⟨2⟩, ⟨4⟩]).build h.library).library = h.library) := by
  constructor
  · let start : Handles Nary := ⟨⟨.empty 4⟩, []⟩
    let named := (start.after (.newVariable "x")).after (.newVariable "y")
    let last := (named.after (.conjunction [⟨1⟩, ⟨2⟩])).after (.conjunction [⟨2⟩, ⟨1⟩])
    have hl : Later start last :=
      .step (.step (.step (.step .refl nofun) nofun) (by decide +kernel)) (by decide +kernel)
    have hi := (reached_identified .xoshiro 4 0).1 _ (Nary.ofBits_eq (by decide)) _ hl
    have hgiven : last.given = [⟨4⟩, ⟨3⟩, ⟨2⟩, ⟨1⟩] := by decide +kernel
    refine ⟨last, hl, hgiven, fun heq => ?_⟩
    have heq := (hi.unfold_iff false ⟨3⟩ (by simp [hgiven]) ⟨4⟩ (by simp [hgiven])).2 heq
    exact absurd heq (by decide)
  · let start : Handles Aig := ⟨⟨.empty 4, 0, Generator.xoshiro.ofSeed 0⟩, []⟩
    let named := (start.after (.newVariable "x")).after (.newVariable "y")
    let last := (named.after (.conjunction [⟨2⟩, ⟨4⟩])).after (.conjunction [⟨4⟩, ⟨2⟩])
    have hl : Later start named := .step (.step .refl nofun) nofun
    have hq : ∀ n ∈ (Maker.conjunction [(⟨2⟩ : NodeId), ⟨4⟩]).operands, n ∈ named.given := by
      decide +kernel
    have hl' : Later (named.after (.conjunction [⟨2⟩, ⟨4⟩])) last :=
      .step .refl (by decide +kernel)
    have hi := (reached_identified .xoshiro 4 0).2 _ (Aig.ofBits_eq (by decide) 0) _ hl
    have hlast : Later start last := .step (.step hl hq) (by decide +kernel)
    have hagain := hi.again (.conjunction [⟨2⟩, ⟨4⟩]) last hq hl'
    exact ⟨last, hlast, by decide +kernel, by rw [hagain]⟩

end Handles

end SatMemo
