import Mathlib.Data.List.Forall2
import SatMemo.Proofs.Library.Identity
import SatMemo.Proofs.Library.Spelling

/-! # Texts say which formula it is

    A text is read from the left.  A name ends where a blank, a closing parenthesis
    or the end of the text is, so a name that begins like another one is told from
    it; a mark or an opening parenthesis says which connective there is, but for
    the sign between the operands, which comes behind the first of them.

    So if two texts are equal, even with more behind them, then the terms are of
    one kind and their operands have equal texts, in order (`Term.Alike`); except
    that a conjunction and a disjunction of one operand each look the same.  Any
    relation that holds of such terms if it holds of their operands therefore
    holds of all nodes with equal texts (`Founded.told`).  One such relation is to
    have equal values.  In a graph, which has no disjunctions, another one is to be
    the same node. -/

namespace SatMemo

/-! ## Words -/

/-- The text ends here, or something that is not part of a name comes. -/
def Stops (rest : List Char) : Prop :=
  ∀ c ∈ rest.head?, c = ' ' ∨ c = ')'

/-- A character that a name may have. -/
def Plain (c : Char) : Prop :=
  c ≠ ' ' ∧ c ≠ ')' ∧ c ≠ '(' ∧ c ≠ '!'

instance : DecidablePred Plain :=
  fun c => inferInstanceAs (Decidable (c ≠ ' ' ∧ c ≠ ')' ∧ c ≠ '(' ∧ c ≠ '!'))

/-- A name that is read as such. -/
structure Word (s : String) : Prop where
  plain    : ∀ c ∈ s.toList, Plain c
  ne_true  : s ≠ "true"
  ne_false : s ≠ "false"

section Words

variable {c : Char} {s s' rest rest' : List Char}

theorem stops_cons (h : c = ' ' ∨ c = ')') : Stops (c :: rest) :=
  fun _ hd => Option.some.inj hd ▸ h

theorem Stops.not_plain (h : Stops (c :: rest)) : ¬ Plain c := by
  rintro ⟨hspace, hclose, -, -⟩
  rcases h c rfl with hc | hc
  · exact hspace hc
  · exact hclose hc

/-- Where a word ends, the other one does. -/
theorem eq_of_append_stops (hs : ∀ c ∈ s, Plain c) (hs' : ∀ c ∈ s', Plain c) (hrest : Stops rest)
    (hrest' : Stops rest') (h : s ++ rest = s' ++ rest') : s = s' ∧ rest = rest' := by
  induction s generalizing s' with
  | nil =>
    cases s' with
    | nil => exact ⟨rfl, h⟩
    | cons c s' =>
      rw [List.nil_append] at h
      have hstop : Stops (c :: s' ++ rest') := h ▸ hrest
      exact absurd (hs' c List.mem_cons_self) hstop.not_plain
  | cons c s ih =>
    cases s' with
    | nil =>
      rw [List.nil_append] at h
      have hstop : Stops (c :: s ++ rest) := h.symm ▸ hrest'
      exact absurd (hs c List.mem_cons_self) hstop.not_plain
    | cons c' s' =>
      obtain ⟨rfl, htail⟩ := List.cons.inj h
      obtain ⟨rfl, hrest⟩ := ih (fun d hd => hs d (List.mem_cons_of_mem _ hd))
        (fun d hd => hs' d (List.mem_cons_of_mem _ hd)) htail
      exact ⟨rfl, hrest⟩

/-- No word begins with a mark or a parenthesis. -/
theorem word_ne_cons (hs : ∀ c ∈ s, Plain c) (hrest : Stops rest) (hc : c = '!' ∨ c = '(') :
    s ++ rest ≠ c :: rest' := by
  intro h
  cases s with
  | nil =>
    have hstop : Stops (c :: rest') := h ▸ hrest
    rcases hstop c rfl with rfl | rfl <;> rcases hc with hc | hc <;> cases hc
  | cons d s =>
    obtain ⟨rfl, -⟩ := List.cons.inj h
    obtain ⟨-, -, hopen, hmark⟩ := hs _ List.mem_cons_self
    rcases hc with hc | hc
    · exact hmark hc
    · exact hopen hc

end Words

/-! ## Operands -/

section Operands

variable {text : NodeId → String} {R : NodeId → NodeId → Prop} {m n : NodeId} {ms ns : List NodeId}
  {c d : Char} {rest rest' : List Char}

/-- Wherever the texts of the two nodes are equal, with more behind them, the nodes are related
    and what is behind them is equal. -/
def Told (text : NodeId → String) (R : NodeId → NodeId → Prop) (m n : NodeId) : Prop :=
  ∀ ⦃rest rest' : List Char⦄, Stops rest → Stops rest' →
    (text m).toList ++ rest = (text n).toList ++ rest' → R m n ∧ rest = rest'

/-- The texts of operands with a sign between them. -/
def joined (text : NodeId → String) (c : Char) (ms : List NodeId) : List Char :=
  [' ', c, ' '].intercalate (ms.map fun m => (text m).toList)

theorem joined_singleton (m : NodeId) : joined text c [m] = (text m).toList := by
  unfold joined
  exact List.intercalate_singleton

theorem joined_cons (m m' : NodeId) (ms : List NodeId) :
    joined text c (m :: m' :: ms)
      = (text m).toList ++ ' ' :: c :: ' ' :: joined text c (m' :: ms) := by
  unfold joined
  rw [List.map_cons, List.map_cons, List.intercalate_cons_cons, List.append_assoc]
  rfl

/-- Two lists of operands that are read alike are related one by one, and the signs between
    them are the same unless there is none. -/
theorem operands_of_joined_eq (hops : ∀ m ∈ ms, ∀ n ∈ ns, Told text R m n) (hms : ms ≠ [])
    (hns : ns ≠ [])
    (h : joined text c ms ++ ')' :: rest = joined text d ns ++ ')' :: rest') :
    List.Forall₂ R ms ns ∧ rest = rest' ∧ (c = d ∨ ms.length = 1) := by
  induction ms generalizing ns with
  | nil => exact absurd rfl hms
  | cons m ms ih =>
    cases ns with
    | nil => exact absurd rfl hns
    | cons n ns =>
      have htold : Told text R m n := hops m List.mem_cons_self n List.mem_cons_self
      have hclose : ∀ rest, Stops (')' :: rest) := fun _ => stops_cons (.inr rfl)
      have hspace : ∀ rest, Stops (' ' :: rest) := fun _ => stops_cons (.inl rfl)
      -- What comes behind the first operands says whether there are others.
      cases ms with
      | nil =>
        rw [joined_singleton] at h
        cases ns with
        | nil =>
          rw [joined_singleton] at h
          obtain ⟨hR, hrest⟩ := htold (hclose _) (hclose _) h
          exact ⟨.cons hR .nil, (List.cons.inj hrest).2, .inr rfl⟩
        | cons n' ns =>
          rw [joined_cons, List.append_assoc] at h
          obtain ⟨-, hrest⟩ := htold (hclose _) (hspace _) h
          cases hrest
      | cons m' ms =>
        rw [joined_cons, List.append_assoc] at h
        cases ns with
        | nil =>
          rw [joined_singleton] at h
          obtain ⟨-, hrest⟩ := htold (hspace _) (hclose _) h
          cases hrest
        | cons n' ns =>
          rw [joined_cons, List.append_assoc] at h
          obtain ⟨hR, hrest⟩ := htold (hspace _) (hspace _) h
          have hops' : ∀ k ∈ m' :: ms, ∀ k' ∈ n' :: ns, Told text R k k' :=
            fun k hk k' hk' => hops k (List.mem_cons_of_mem _ hk) k' (List.mem_cons_of_mem _ hk')
          obtain ⟨hsign, hrest⟩ := List.cons.inj (List.cons.inj hrest).2
          obtain ⟨hall, hrest, -⟩ := ih hops' (List.cons_ne_nil _ _) (List.cons_ne_nil _ _)
            (List.cons.inj hrest).2
          exact ⟨.cons hR hall, hrest, .inl hsign⟩

end Operands

/-! ## Terms -/

namespace Term

variable {text : NodeId → String} {R : NodeId → NodeId → Prop} {t u : Term}
  {rest rest' : List Char} {ρ : String → Bool}

/-- The name in a term is a word, and connectives other than negation have operands. -/
structure Legible (t : Term) : Prop where
  word    : ∀ s, t = .var s → Word s
  accepts : t.kind.accepts t.children.length = true

/-- Terms that are of one kind, with operands that are related; a conjunction and a disjunction
    of one operand each count as one kind. -/
inductive Alike (R : NodeId → NodeId → Prop) : Term → Term → Prop where
  | leaf {t : Term} : t.children = [] → Alike R t t
  | not {m n : NodeId} : R m n → Alike R (.not m) (.not n)
  | and {ms ns : List NodeId} : List.Forall₂ R ms ns → Alike R (.and ms) (.and ns)
  | or {ms ns : List NodeId} : List.Forall₂ R ms ns → Alike R (.or ms) (.or ns)
  | andOr {m n : NodeId} : R m n → Alike R (.and [m]) (.or [n])
  | orAnd {m n : NodeId} : R m n → Alike R (.or [m]) (.and [n])

/-- The constant or variable that a word is read as. -/
def ofWord (s : String) : Term :=
  if s = "true" then .constTrue else if s = "false" then .constFalse else .var s

theorem ofWord_of_word {s : String} (h : Word s) : ofWord s = .var s := by
  unfold ofWord
  rw [if_neg h.ne_true, if_neg h.ne_false]

/-- A connective with the sign that stands between its operands. -/
inductive Signed : Term → Char → List NodeId → Prop where
  | and (ms : List NodeId) : Signed (.and ms) '&' ms
  | or (ms : List NodeId) : Signed (.or ms) '|' ms

section Connectives

variable {ms ns : List NodeId} {c d : Char}

theorem Signed.children_eq (h : Signed t c ms) : t.children = ms := by
  cases h <;> rfl

theorem exists_of_length_eq_one (hall : List.Forall₂ R ms ns) (hone : ms.length = 1) :
    ∃ m n, ms = [m] ∧ ns = [n] ∧ R m n := by
  obtain ⟨m, rfl⟩ := List.length_eq_one_iff.1 hone
  obtain ⟨n, _, hR, hnil, rfl⟩ := List.forall₂_cons_left_iff.1 hall
  obtain rfl := List.forall₂_nil_left_iff.1 hnil
  exact ⟨m, n, rfl, rfl, hR⟩

/-- Different signs are seen only between operands, so there is one operand then. -/
theorem Signed.alike (ht : Signed t c ms) (hu : Signed u d ns) (hall : List.Forall₂ R ms ns)
    (hsign : c = d ∨ ms.length = 1) : t.Alike R u := by
  cases ht with
  | and =>
    cases hu with
    | and => exact .and hall
    | or =>
      have hone : ms.length = 1 := hsign.resolve_left (by decide)
      obtain ⟨m, n, rfl, rfl, hR⟩ := exists_of_length_eq_one hall hone
      exact .andOr hR
  | or =>
    cases hu with
    | and =>
      have hone : ms.length = 1 := hsign.resolve_left (by decide)
      obtain ⟨m, n, rfl, rfl, hR⟩ := exists_of_length_eq_one hall hone
      exact .orAnd hR
    | or => exact .or hall

end Connectives

/-- How the text of a term begins, and what follows. -/
inductive Shape (text : NodeId → String) (t : Term) : Prop where
  | word : t.children = [] → (∀ c ∈ (t.spell text).toList, Plain c) →
      ofWord (t.spell text) = t → Shape text t
  | mark (m : NodeId) : t = .not m → (t.spell text).toList = '!' :: (text m).toList →
      Shape text t
  | group (c : Char) (ms : List NodeId) : ms ≠ [] → Signed t c ms →
      (t.spell text).toList = '(' :: (joined text c ms ++ [')']) → Shape text t

theorem Legible.shape (h : t.Legible) (text : NodeId → String) : Shape text t := by
  cases t with
  | constTrue =>
    have hplain : ∀ c ∈ "true".toList, Plain c := by simp [Plain]
    exact .word rfl hplain rfl
  | constFalse =>
    have hplain : ∀ c ∈ "false".toList, Plain c := by simp [Plain]
    exact .word rfl hplain rfl
  | var s => exact .word rfl (h.word s rfl).plain (ofWord_of_word (h.word s rfl))
  | not m => exact .mark m rfl (by simp [spell])
  | and ms =>
    have hne : ms ≠ [] := by
      rintro rfl
      cases h.accepts
    exact .group '&' ms hne (.and ms) (by simp [spell, joined, Function.comp_def])
  | or ms =>
    have hne : ms ≠ [] := by
      rintro rfl
      cases h.accepts
    exact .group '|' ms hne (.or ms) (by simp [spell, joined, Function.comp_def])

/-- Terms that are read alike are alike, if that is so of their operands. -/
theorem Legible.alike (ht : t.Legible) (hu : u.Legible)
    (hops : ∀ m ∈ t.children, ∀ n ∈ u.children, Told text R m n) (hrest : Stops rest)
    (hrest' : Stops rest') (h : (t.spell text).toList ++ rest = (u.spell text).toList ++ rest') :
    t.Alike R u ∧ rest = rest' := by
  -- The first character tells the three shapes from each other.
  cases ht.shape text with
  | word hleaf hplain hread =>
    cases hu.shape text with
    | word _ hplain' hread' =>
      obtain ⟨hword, hrest⟩ := eq_of_append_stops hplain hplain' hrest hrest' h
      obtain rfl : t = u := by
        rw [← hread, ← hread', String.toList_inj.1 hword]
      exact ⟨.leaf hleaf, hrest⟩
    | mark n _ hspell' =>
      rw [hspell'] at h
      exact absurd h (word_ne_cons hplain hrest (.inl rfl))
    | group d ns _ _ hspell' =>
      rw [hspell'] at h
      exact absurd h (word_ne_cons hplain hrest (.inr rfl))
  | mark m hm hspell =>
    rw [hspell] at h
    cases hu.shape text with
    | word _ hplain' _ => exact absurd h.symm (word_ne_cons hplain' hrest' (.inl rfl))
    | mark n hn hspell' =>
      rw [hspell'] at h
      subst hm hn
      have htold : Told text R m n := hops m (List.mem_singleton.2 rfl) n (List.mem_singleton.2 rfl)
      obtain ⟨hR, hrest⟩ := htold hrest hrest' (List.cons.inj h).2
      exact ⟨.not hR, hrest⟩
    | group d ns _ _ hspell' =>
      rw [hspell'] at h
      cases (List.cons.inj h).1
  | group c ms hne hm hspell =>
    rw [hspell] at h
    cases hu.shape text with
    | word _ hplain' _ => exact absurd h.symm (word_ne_cons hplain' hrest' (.inr rfl))
    | mark n _ hspell' =>
      rw [hspell'] at h
      cases (List.cons.inj h).1
    | group d ns hne' hn hspell' =>
      rw [hspell', List.cons_append, List.cons_append, List.append_assoc, List.append_assoc] at h
      rw [hm.children_eq, hn.children_eq] at hops
      obtain ⟨hall, hrest, hsign⟩ := operands_of_joined_eq hops hne hne' (List.cons.inj h).2
      exact ⟨hm.alike hn hall hsign, hrest⟩

/-- Terms that are alike have equal values if their operands have. -/
theorem Alike.value_eq {v : NodeId → Bool} (h : t.Alike (fun m n => v m = v n) u) :
    t.value ρ v = u.value ρ v := by
  have hmap : ∀ {ms ns : List NodeId}, List.Forall₂ (fun m n => v m = v n) ms ns →
      ms.map v = ns.map v := by
    intro ms ns hall
    rw [← List.forall₂_eq_eq_eq, List.forall₂_map_left_iff, List.forall₂_map_right_iff]
    exact hall
  cases h with
  | leaf _ => rfl
  | not hv => exact congrArg Bool.not hv
  | @and ms ns hall =>
    calc ms.all v = (ms.map v).all id := by rw [List.all_map, Function.id_comp]
      _ = (ns.map v).all id := by rw [hmap hall]
      _ = ns.all v := by rw [List.all_map, Function.id_comp]
  | @or ms ns hall =>
    calc ms.any v = (ms.map v).any id := by rw [List.any_map, Function.id_comp]
      _ = (ns.map v).any id := by rw [hmap hall]
      _ = ns.any v := by rw [List.any_map, Function.id_comp]
  | @andOr m n hv => simp [Term.value, hv]
  | @orAnd m n hv => simp [Term.value, hv]

/-- Without disjunctions, terms that are alike with the same operands are the same. -/
theorem Alike.eq_of_ne_or (h : t.Alike (· = ·) u) (ht : ∀ ms, t ≠ .or ms) (hu : ∀ ms, u ≠ .or ms) :
    t = u := by
  cases h with
  | leaf _ => rfl
  | not hm => rw [hm]
  | and hall =>
    rw [List.forall₂_eq_eq_eq] at hall
    rw [hall]
  | or _ => exact absurd rfl (ht _)
  | andOr _ => exact absurd rfl (hu _)
  | orAnd _ => exact absurd rfl (ht _)

end Term

/-! ## Libraries -/

namespace Library

variable {ε : Type} [Library ε] {lib : ε} {m n : NodeId} {t : Term} {ρ : String → Bool}
  {R : NodeId → NodeId → Prop}

/-- All names in the library are words. -/
def Legible (lib : ε) : Prop :=
  ∀ ⦃n : NodeId⦄ ⦃s : String⦄, term? lib n = some (.var s) → Word s

theorem Legible.term (h : Legible lib) (hn : term? lib n = some t) : t.Legible where
  word := fun _ ht => h (ht ▸ hn)
  accepts := accepts_of_term? hn

/-- A relation that holds of nodes whose terms are alike holds of nodes that are read alike. -/
theorem Founded.told (h : Founded lib) (hlegible : Legible lib)
    (hR : ∀ ⦃m n : NodeId⦄ ⦃t u : Term⦄, term? lib m = some t → term? lib n = some u →
      t.Alike R u → R m n)
    (hm : contains lib m = true) (hn : contains lib n = true) : Told (spell lib) R m n := by
  -- By induction on the number of one node, since its operands have smaller ones.
  induction hr : m.raw using Nat.strongRecOn generalizing m n with
  | ind raw ih =>
    subst hr
    obtain ⟨t, ht⟩ := h.exists_term hm
    obtain ⟨u, hu⟩ := h.exists_term hn
    have hops : ∀ m' ∈ t.children, ∀ n' ∈ u.children, Told (spell lib) R m' n' := by
      intro m' hm' n' hn'
      have hop := h.operand ht hm'
      exact ih m'.raw hop.1 hop.2 (h.operand hu hn').2 rfl
    intro rest rest' hrest hrest' heq
    rw [h.spell_eq ht, h.spell_eq hu] at heq
    obtain ⟨halike, hrest⟩ :=
      (hlegible.term ht).alike (hlegible.term hu) hops hrest hrest' heq
    exact ⟨hR ht hu halike, hrest⟩

/-- The same for whole texts. -/
theorem Founded.related_of_spell_eq (h : Founded lib) (hlegible : Legible lib)
    (hR : ∀ ⦃m n : NodeId⦄ ⦃t u : Term⦄, term? lib m = some t → term? lib n = some u →
      t.Alike R u → R m n)
    (hm : contains lib m = true) (hn : contains lib n = true) (heq : spell lib m = spell lib n) :
    R m n := by
  have hstops : Stops [] := nofun
  have htext : (spell lib m).toList ++ [] = (spell lib n).toList ++ [] := by rw [heq]
  exact (h.told hlegible hR hm hn hstops hstops htext).1

/-- Nodes with equal texts have equal values. -/
theorem Founded.value_eq_of_spell_eq (h : Founded lib) (hlegible : Legible lib)
    (hm : contains lib m = true) (hn : contains lib n = true) (heq : spell lib m = spell lib n) :
    value lib ρ m = value lib ρ n := by
  refine h.related_of_spell_eq (R := fun m n => value lib ρ m = value lib ρ n) hlegible ?_
    hm hn heq
  intro m n t u ht hu halike
  rw [h.value_eq ht, h.value_eq hu]
  exact halike.value_eq

/-- Without disjunctions, nodes with equal texts are the same. -/
theorem eq_of_spell_eq [Lawful ε] [Canonical ε] (h : Lawful.Wf lib) (hlegible : Legible lib)
    (hor : ∀ n ms, term? lib n ≠ some (.or ms)) (hm : contains lib m = true)
    (hn : contains lib n = true) (heq : spell lib m = spell lib n) : m = n := by
  refine (Lawful.founded h).related_of_spell_eq (R := (· = ·)) hlegible ?_ hm hn heq
  intro m n t u ht hu halike
  have htu : t = u := halike.eq_of_ne_or (fun ms he => hor m ms (he ▸ ht))
    (fun ms he => hor n ms (he ▸ hu))
  exact Canonical.term_unique h ht (htu ▸ hu)

end Library

/-- A graph has no disjunctions. -/
theorem Aig.term?_ne_or {G : Generator} (a : Aig G) (n : NodeId) (ms : List NodeId) :
    Library.term? a n ≠ some (.or ms) := by
  intro h
  have hform : Form a (.ofNode n) (.or ms) := form_of_term? h
  generalize Signal.ofNode n = s at hform
  cases hform

end SatMemo
