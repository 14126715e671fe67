import SatMemo.Library.Nary
import SatMemo.Proofs.Library.Spelling
import SatMemo.Proofs.Store.Arena

/-! # The n-ary library is lawful

    Every term is stored once, behind its operands.  What the library tells of a
    node is the term stored for it, so everything else is read off the arena. -/

namespace SatMemo

namespace Nary

open Library (term? value)

variable {lib : Nary} {n : NodeId} {t : Term}

/-- A term that may stand at a node: its operands are there, numbered before it, and as many
    as its kind can have. -/
structure Proper (lib : Nary) (n : NodeId) (t : Term) : Prop where
  operand : ∀ m ∈ t.children, m.raw < n.raw ∧ lib.contains m = true
  accepts : t.kind.accepts t.children.length = true

/-- Terms are stored once each, and all of them are proper. -/
structure Wf (lib : Nary) : Prop where
  arena  : lib.terms.Wf
  proper : ∀ {n t}, lib.term n = .ok t → Proper lib n t

/-! ## Reading -/

theorem contains_iff : lib.contains n = true ↔ ∃ t, lib.term n = .ok t :=
  Arena.contains_iff

/-- A stored term is what the library tells of its node. -/
theorem Wf.term?_eq (h : lib.Wf) (hn : lib.term n = .ok t) : term? lib n = some t := by
  apply Library.term?_eq
  · exact contains_iff.2 ⟨t, hn⟩
  · show (lib.term n).map Term.kind = _
    rw [hn]
    rfl
  · show (lib.term n).map Term.children = _
    rw [hn]
    rfl
  · rintro name rfl
    show label lib n = _
    unfold label
    rw [hn]
    rfl
  · exact (h.proper hn).accepts

theorem Wf.term?_eq_some_iff (h : lib.Wf) : term? lib n = some t ↔ lib.term n = .ok t := by
  constructor
  · intro ht
    obtain ⟨t', hn⟩ := contains_iff.1 (Library.contains_of_term? ht)
    rw [h.term?_eq hn] at ht
    rw [hn, Option.some.inj ht]
  · exact h.term?_eq

theorem Wf.founded (h : lib.Wf) : Library.Founded lib where
  exists_term := by
    intro n hn
    obtain ⟨t, ht⟩ := contains_iff.1 hn
    exact ⟨t, h.term?_eq ht⟩
  operand := fun ht hm => (h.proper (h.term?_eq_some_iff.1 ht)).operand _ hm
  lt_bound := by
    intro n hn
    obtain ⟨t, ht⟩ := contains_iff.1 hn
    exact Nat.lt_succ_of_le (Arena.le_size_of_value ht).2

/-- Different nodes have different terms. -/
theorem Wf.eq_of_term (h : lib.Wf) {m : NodeId} (hm : lib.term m = .ok t)
    (hn : lib.term n = .ok t) : m = n :=
  NodeId.eq_of_raw_eq (h.arena.distinct hm hn)

theorem Wf.structEq_eq (h : lib.Wf) {m : NodeId} (hm : lib.contains m = true)
    (hn : lib.contains n = true) : lib.structEq m n = .ok (decide (m = n)) := by
  unfold structEq
  by_cases hmn : m = n
  · rw [if_pos hmn, decide_eq_true hmn]
  · obtain ⟨s, hs⟩ := contains_iff.1 hm
    obtain ⟨t, ht⟩ := contains_iff.1 hn
    -- Different nodes have different terms.
    have hst : s ≠ t := by
      rintro rfl
      exact hmn (h.eq_of_term hs ht)
    rw [if_neg hmn, hs, ht, decide_eq_false hmn]
    show Except.ok (decide (s = t)) = _
    rw [decide_eq_false hst]

/-! ## Storing -/

/-- What is proper stays proper in a library with more terms. -/
theorem Proper.mono {lib' : Nary} (h : Proper lib n t)
    (hkeep : ∀ m, lib.contains m = true → lib'.contains m = true) : Proper lib' n t where
  operand := fun m hm => ⟨(h.operand m hm).1, hkeep m (h.operand m hm).2⟩
  accepts := h.accepts

theorem store_of_insert {i : Nat} {fresh : Bool} {terms : Arena Term}
    (he : lib.terms.insert t = ⟨i, fresh, terms⟩) :
    lib.store t = ⟨⟨i⟩, ⟨terms⟩, if fresh then [.termStored i t] else []⟩ := by
  cases lib with
  | mk arena =>
    change arena.insert t = _ at he
    unfold store
    simp only [he]

/-- Storing a term keeps all the others. -/
theorem Wf.grows_store (h : lib.Wf) (t : Term) (hops : ∀ m ∈ t.children, lib.contains m = true)
    (haccepts : t.kind.accepts t.children.length = true) :
    Library.Grows Wf lib (lib.store t) fun ρ => t.value ρ (value lib ρ) := by
  rcases h.arena.insert_cases t with ⟨i, hi, he⟩ | ⟨_, terms, he, hterms, harena⟩
  · rw [store_of_insert he]
    -- The term is stored already.
    have hi : lib.term ⟨i⟩ = .ok t := hi
    exact ⟨h, .refl lib, contains_iff.2 ⟨t, hi⟩, fun ρ => h.founded.value_eq (h.term?_eq hi)⟩
  · -- The term is new and comes behind all others.
    let lib' : Nary := ⟨terms⟩
    have hkeep : ∀ {m s}, lib.term m = .ok s → lib'.term m = .ok s :=
      fun hs => Arena.value_of_toList_append hterms hs
    have hheld : ∀ m, lib.contains m = true → lib'.contains m = true := by
      intro m hm
      obtain ⟨s, hs⟩ := contains_iff.1 hm
      exact contains_iff.2 ⟨s, hkeep hs⟩
    have hnew : lib'.term ⟨lib.size + 1⟩ = .ok t := Arena.value_last hterms
    have h' : lib'.Wf := by
      refine ⟨harena, ?_⟩
      intro m s hs
      rcases Arena.value_concat hterms hs with hs | ⟨hm, rfl⟩
      · exact (h.proper hs).mono hheld
      · refine ⟨fun k hk => ⟨?_, hheld k (hops k hk)⟩, haccepts⟩
        -- The operands were there before the new node was numbered.
        obtain ⟨s, hs⟩ := contains_iff.1 (hops k hk)
        have hle : k.raw ≤ lib.size := (Arena.le_size_of_value hs).2
        have hm : m.raw = lib.size + 1 := hm
        omega
    have hlater : Library.Extends lib lib' := by
      intro m s hs
      exact h'.term?_eq (hkeep (h.term?_eq_some_iff.1 hs))
    rw [store_of_insert he]
    refine ⟨h', hlater, contains_iff.2 ⟨t, hnew⟩, fun ρ => ?_⟩
    show value lib' ρ ⟨lib.size + 1⟩ = _
    rw [h'.founded.value_eq (h'.term?_eq hnew)]
    apply Term.value_congr
    intro m hm
    exact h.founded.value_of_extends h'.founded hlater (hops m hm)

theorem Wf.grows_makeAnd (h : lib.Wf) {ns : List NodeId} (hns : ∀ n ∈ ns, lib.contains n = true) :
    Library.Grows Wf lib (lib.makeAnd ns) fun ρ => ns.all (value lib ρ) := by
  cases ns with
  | nil => exact h.grows_store .constTrue nofun rfl
  | cons n ns =>
    exact h.grows_store (.and (n :: ns)) hns (by simp [Term.kind, Term.children, Kind.accepts])

theorem Wf.grows_makeOr (h : lib.Wf) {ns : List NodeId} (hns : ∀ n ∈ ns, lib.contains n = true) :
    Library.Grows Wf lib (lib.makeOr ns) fun ρ => ns.any (value lib ρ) := by
  cases ns with
  | nil => exact h.grows_store .constFalse nofun rfl
  | cons n ns =>
    exact h.grows_store (.or (n :: ns)) hns (by simp [Term.kind, Term.children, Kind.accepts])

/-! ## Printing -/

/-- Separators are the only pieces that are not there before. -/
theorem mem_intersperse {separator p : Piece} {ps : List Piece}
    (hp : p ∈ ps.intersperse separator) : p = separator ∨ p ∈ ps := by
  fun_induction List.intersperse separator ps with
  | case1 => cases hp
  | case2 q => exact .inr hp
  | case3 q q' ps ih =>
    rcases List.mem_cons.1 hp with rfl | hp
    · exact .inr (List.mem_cons_self ..)
    · rcases List.mem_cons.1 hp with rfl | hp
      · exact .inl rfl
      · exact (ih hp).imp_right (List.mem_cons_of_mem _)

theorem mem_operandPieces {depth depth' : Nat} {separator : String} {m : NodeId}
    {ms : List NodeId} (hm : Piece.node depth' m ∈ operandPieces depth separator ms) :
    depth' = depth ∧ m ∈ ms := by
  unfold operandPieces at hm
  rcases List.mem_append.1 hm with hm | hm
  · rcases mem_intersperse hm with hm | hm
    · cases hm
    · obtain ⟨k, hk, hkm⟩ := List.mem_map.1 hm
      cases hkm
      exact ⟨rfl, hk⟩
  · cases List.mem_singleton.1 hm

/-- Behind the head of a term stand texts and its operands. -/
theorem mem_openTerm {depth depth' : Nat} {m : NodeId}
    (hm : Piece.node depth' m ∈ (openTerm depth t).2) : depth' = depth ∧ m ∈ t.children := by
  cases t with
  | constTrue => cases hm
  | constFalse => cases hm
  | var name => cases hm
  | not k =>
    cases List.mem_singleton.1 hm
    exact ⟨rfl, List.mem_singleton.2 rfl⟩
  | and ms => exact mem_operandPieces hm
  | or ms => exact mem_operandPieces hm

/-- The text that a piece comes to. -/
def Piece.spell (lib : Nary) : Piece → String
  | .text s   => s
  | .node _ n => Library.spell lib n

theorem join_operandPieces (depth : Nat) (separator : String) (ms : List NodeId) :
    String.join ((operandPieces depth separator ms).map (Piece.spell lib))
      = separator.intercalate (ms.map (Library.spell lib)) ++ ")" := by
  unfold operandPieces
  induction ms with
  | nil => rfl
  | cons m ms ih =>
    cases ms with
    | nil => simp [Piece.spell]
    | cons m' ms =>
      simp only [List.map_cons, List.intersperse_cons_cons, List.cons_append, String.join_cons,
        String.intercalate_cons_cons, Piece.spell, String.append_assoc] at ih ⊢
      rw [ih]

/-- The head of a term and the pieces behind it come to the text of the term. -/
theorem join_openTerm (depth : Nat) (t : Term) :
    (openTerm depth t).1 ++ String.join ((openTerm depth t).2.map (Piece.spell lib))
      = t.spell (Library.spell lib) := by
  cases t with
  | constTrue | constFalse | var name => exact String.append_empty
  | not m => simp [openTerm, Piece.spell, Term.spell]
  | and ms => simp only [openTerm, join_operandPieces, Term.spell, String.append_assoc]
  | or ms => simp only [openTerm, join_operandPieces, Term.spell, String.append_assoc]

/-- The list of pieces comes to the texts of its pieces, if every node in it is there and no
    deeper than its piece says. -/
theorem Wf.write_eq (h : lib.Wf) (pieces : List Piece) (out : String)
    (hpieces : ∀ depth n, Piece.node depth n ∈ pieces →
      n.raw < depth ∧ lib.contains n = true) :
    lib.write pieces out = .ok (out ++ String.join (pieces.map (Piece.spell lib))) := by
  fun_induction lib.write pieces out with
  | case1 out => exact congrArg Except.ok String.append_empty.symm
  | case2 out s rest ih =>
    rw [ih fun depth n hn => hpieces depth n (List.mem_cons_of_mem _ hn), List.map_cons,
      String.join_cons, ← String.append_assoc]
    rfl
  | case3 out n rest =>
    have hlt := (hpieces 0 n (List.mem_cons_self ..)).1
    exact absurd hlt (Nat.not_lt_zero _)
  | case4 out depth n rest fault hn =>
    obtain ⟨t, ht⟩ := contains_iff.1 (hpieces _ n (List.mem_cons_self ..)).2
    rw [hn] at ht
    cases ht
  | case5 out depth n rest t hn ih =>
    have hdepth : n.raw < depth + 1 := (hpieces _ n (List.mem_cons_self ..)).1
    have hspell : Library.spell lib n = t.spell (Library.spell lib) :=
      h.founded.spell_eq (h.term?_eq hn)
    rw [ih]
    · rw [List.map_append, String.join_append, List.map_cons, String.join_cons, Piece.spell,
        hspell, ← join_openTerm depth t]
      simp only [String.append_assoc]
    · intro depth' m hm
      rcases List.mem_append.1 hm with hm | hm
      · obtain ⟨rfl, hmem⟩ := mem_openTerm hm
        have hop := (h.proper hn).operand m hmem
        exact ⟨Nat.lt_of_lt_of_le hop.1 (Nat.le_of_lt_succ hdepth), hop.2⟩
      · exact hpieces depth' m (List.mem_cons_of_mem _ hm)

/-- Printing comes to the text of the formula. -/
theorem Wf.print_eq (h : lib.Wf) (hn : lib.contains n = true) :
    lib.print n = .ok (Library.spell lib n) := by
  unfold print
  rw [h.write_eq]
  · simp [Piece.spell]
  · intro depth m hm
    cases List.mem_singleton.1 hm
    obtain ⟨t, ht⟩ := contains_iff.1 hn
    exact ⟨Nat.lt_succ_of_le (Arena.le_size_of_value ht).2, hn⟩

/-! ## The laws -/

instance : Library.Lawful Nary where
  Wf := Wf
  key n t := Keyed.key t
  founded := Wf.founded
  structEq_eq := fun h hm hn => h.structEq_eq hm hn
  structKey_eq := by
    intro lib n t h ht
    show (lib.term n).map Keyed.key = _
    rw [h.term?_eq_some_iff.1 ht]
    rfl
  var_unique := fun h hm hn => h.eq_of_term (h.term?_eq_some_iff.1 hm) (h.term?_eq_some_iff.1 hn)
  print_eq := fun h hn => ⟨_, h.print_eq hn⟩
  check := by
    intro lib n budget h hn
    -- The check of this library never comes to a verdict.
    exact ⟨.unknown, lib, [], rfl, h, .refl lib, Library.right_unknown lib n⟩
  grows_true := fun h => h.grows_store .constTrue nofun rfl
  grows_false := fun h => h.grows_store .constFalse nofun rfl
  grows_variable := fun name h => h.grows_store (.var name) nofun rfl
  grows_not := by
    intro lib n h hn
    refine h.grows_store (.not n) ?_ rfl
    intro m hm
    rw [List.mem_singleton.1 hm]
    exact hn
  grows_and := fun h hns => h.grows_makeAnd hns
  grows_or := fun h hns => h.grows_makeOr hns

/-- An empty library is well-formed. -/
theorem wf_empty (bits : Nat) : (Nary.mk (.empty bits)).Wf where
  arena := Arena.wf_empty bits
  proper := fun hn => absurd hn (Arena.value_empty_ne bits _ _)

theorem ofBits_eq {bits : Nat} (h : bits ≤ 31) : ofBits bits = .ok ⟨.empty bits⟩ := by
  unfold ofBits Arena.ofBits
  rw [if_pos h]
  rfl

/-- A new library is empty. -/
theorem eq_of_ofBits {bits : Nat} {lib : Nary} (h : ofBits bits = .ok lib) :
    lib = ⟨.empty bits⟩ := by
  unfold ofBits Arena.ofBits at h
  split at h
  · exact (Except.ok.inj h).symm
  · cases h

end Nary

end SatMemo
