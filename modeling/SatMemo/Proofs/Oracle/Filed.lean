import Mathlib.Data.List.Pairwise
import SatMemo.Oracle.ClassMap
import SatMemo.Proofs.Library.Orderly

/-! # Maps on structural classes

    A map on the classes of a library that can compare its nodes is read as the
    list of what was inserted, in order: `Files` says that its buckets are that list, cut by key.
    A look-up finds what was stored for a node of the same structure and nothing
    else, however many structures share a key. -/

namespace SatMemo

namespace ClassMap

open Library (contains structKey structEq Same Comparable Classified Steady)

variable {ν ε : Type} [Library ε] {c : ClassMap ν} {lib lib' : ε} {n : NodeId} {v : ν}
  {pairs bucket : List (NodeId × ν)}

/-- The number of the bucket that a node belongs in. -/
def place (lib : ε) (n : NodeId) : Nat :=
  match structKey lib n with
  | .ok key  => key.toNat
  | .error _ => 0

theorem place_of_structKey {key : UInt64} (h : structKey lib n = .ok key) :
    place lib n = key.toNat := by
  unfold place
  rw [h]

/-- The map is the list of what was inserted, all of it under nodes of the library. -/
structure Files (c : ClassMap ν) (lib : ε) (pairs : List (NodeId × ν)) : Prop where
  held    : ∀ p ∈ pairs, contains lib p.1 = true
  buckets : ∀ k : Nat, (c.buckets[k]?).getD [] = pairs.filter fun p => place lib p.1 = k

theorem files_empty (lib : ε) : (empty : ClassMap ν).Files lib [] where
  held := nofun
  buckets := by
    intro k
    show ((∅ : Std.TreeMap Nat (List (NodeId × ν)))[k]?).getD [] = []
    rw [Std.TreeMap.getElem?_emptyc]
    rfl

theorem Files.steady (h : c.Files lib pairs) (hs : Steady lib lib') : c.Files lib' pairs where
  held := fun p hp => hs.held (h.held p hp)
  buckets := by
    intro k
    rw [h.buckets k]
    apply List.filter_congr
    intro p hp
    unfold place
    rw [hs.key_eq (h.held p hp)]

section Comparing

variable (hlib : Comparable lib) (hn : contains lib n = true)
include hlib hn

/-! ## Looking up -/

theorem search_eq_none (hheld : ∀ p ∈ bucket, contains lib p.1 = true)
    (hnone : ∀ p ∈ bucket, ¬ Same lib p.1 n) : search lib n bucket = .ok none := by
  induction bucket with
  | nil => rfl
  | cons p rest ih =>
    obtain ⟨m, v⟩ := p
    obtain ⟨b, hb⟩ := hlib.compares (hheld (m, v) (List.mem_cons_self ..)) hn
    have hrest := ih (fun p hp => hheld p (List.mem_cons_of_mem _ hp))
      fun p hp => hnone p (List.mem_cons_of_mem _ hp)
    unfold search
    rw [hb]
    cases b with
    | true => exact absurd hb (hnone (m, v) (List.mem_cons_self ..))
    | false => exact hrest

/-- The value is found if all nodes of the structure have it, and there is one. -/
theorem search_eq_some (hheld : ∀ p ∈ bucket, contains lib p.1 = true)
    (huniq : ∀ p ∈ bucket, Same lib p.1 n → p.2 = v) (hex : ∃ p ∈ bucket, Same lib p.1 n) :
    search lib n bucket = .ok (some v) := by
  induction bucket with
  | nil =>
    obtain ⟨p, hp, _⟩ := hex
    cases hp
  | cons p rest ih =>
    obtain ⟨m, w⟩ := p
    obtain ⟨b, hb⟩ := hlib.compares (hheld (m, w) (List.mem_cons_self ..)) hn
    unfold search
    rw [hb]
    cases b with
    | true =>
      have hw : w = v := huniq (m, w) (List.mem_cons_self ..) hb
      rw [hw]
      rfl
    | false =>
      -- The first node has another structure, so the one there is comes later.
      obtain ⟨q, hq, hs⟩ := hex
      have hqr : q ∈ rest := by
        obtain rfl | hq := List.mem_cons.1 hq
        · have := hb.symm.trans hs
          cases this
        · exact hq
      exact ih (fun p hp => hheld p (List.mem_cons_of_mem _ hp))
        (fun p hp => huniq p (List.mem_cons_of_mem _ hp)) ⟨q, hqr, hs⟩

theorem Files.find?_eq_none (h : c.Files lib pairs) (hnone : ∀ p ∈ pairs, ¬ Same lib p.1 n) :
    c.find? lib n = .ok none := by
  obtain ⟨key, hkey⟩ := hlib.key hn
  refine (find?_of_structKey hkey).trans ?_
  rw [h.buckets]
  exact search_eq_none hlib hn (fun p hp => h.held p (List.mem_filter.1 hp).1)
    fun p hp => hnone p (List.mem_filter.1 hp).1

theorem Files.find?_eq_some (h : c.Files lib pairs)
    (huniq : ∀ p ∈ pairs, Same lib p.1 n → p.2 = v) (hex : ∃ p ∈ pairs, Same lib p.1 n) :
    c.find? lib n = .ok (some v) := by
  obtain ⟨key, hkey⟩ := hlib.key hn
  refine (find?_of_structKey hkey).trans ?_
  rw [h.buckets]
  refine search_eq_some hlib hn (fun p hp => h.held p (List.mem_filter.1 hp).1)
    (fun p hp => huniq p (List.mem_filter.1 hp).1) ?_
  -- A node of the same structure has the same key, and so is in the bucket.
  obtain ⟨p, hp, hs⟩ := hex
  refine ⟨p, List.mem_filter.2 ⟨hp, ?_⟩, hs⟩
  have hpkey := hlib.same_key (h.held p hp) hn hs
  rw [hkey] at hpkey
  simp [place_of_structKey hpkey]

/-! ## Storing -/

/-- What is stored goes to the end of the list. -/
theorem Files.of_insert (h : c.Files lib pairs) {c' : ClassMap ν} (hc : c.insert lib n v = .ok c') :
    c'.Files lib (pairs ++ [(n, v)]) := by
  obtain ⟨key, hkey⟩ := hlib.key hn
  have hplace := place_of_structKey hkey
  rw [insert_of_structKey hkey] at hc
  cases hc
  constructor
  case held =>
    intro p hp
    obtain hp | hp := List.mem_append.1 hp
    · exact h.held p hp
    · rw [List.mem_singleton.1 hp]
      exact hn
  case buckets =>
    intro k
    show ((c.buckets.alter key.toNat _)[k]?).getD [] = _
    rw [Std.TreeMap.getElem?_alter, List.filter_append]
    -- The pair goes to the end of its bucket, and the others are not touched.
    by_cases hk : key.toNat = k
    · rw [if_pos (Std.LawfulEqCmp.compare_eq_iff_eq.2 hk), Option.getD_some, h.buckets, hk]
      simp [hplace, hk]
    · rw [if_neg fun heq => hk (Std.LawfulEqCmp.compare_eq_iff_eq.1 heq), h.buckets]
      simp [hplace, hk]

end Comparing

/-! ## The contents -/

/-- All that is stored, bucket by bucket. -/
def contents (c : ClassMap ν) : List (NodeId × ν) :=
  c.buckets.toList.flatMap Prod.snd

/-- A list that is cut by key, with the pieces put together again. -/
theorem flatMap_perm_of_cut {α : Type} (key : α → Nat) {cut : List (Nat × List α)}
    {xs : List α} (hkeys : (cut.map Prod.fst).Nodup)
    (hcut : ∀ p ∈ cut, p.2 = xs.filter fun x => key x = p.1)
    (hall : ∀ x ∈ xs, key x ∈ cut.map Prod.fst) : (cut.flatMap Prod.snd).Perm xs := by
  induction cut generalizing xs with
  | nil =>
    obtain rfl : xs = [] := List.eq_nil_iff_forall_not_mem.2 fun x hx => nomatch hall x hx
    exact .refl _
  | cons p cut ih =>
    obtain ⟨k, piece⟩ := p
    rw [List.map_cons, List.nodup_cons] at hkeys
    -- The other pieces are cut from what has another key.
    have hrest : (cut.flatMap Prod.snd).Perm (xs.filter fun x => !decide (key x = k)) := by
      apply ih hkeys.2
      · intro q hq
        have hne : q.1 ≠ k := by
          rintro rfl
          exact hkeys.1 (List.mem_map.2 ⟨q, hq, rfl⟩)
        rw [hcut q (List.mem_cons_of_mem _ hq), List.filter_filter]
        apply List.filter_congr
        intro x _
        by_cases hx : key x = q.1
        · simp [hx, hne]
        · simp [hx]
      · intro x hx
        obtain ⟨hx, hne⟩ := List.mem_filter.1 hx
        rcases List.mem_cons.1 (hall x hx) with heq | hmem
        · simp [heq] at hne
        · exact hmem
    have hpiece : piece = xs.filter fun x => key x = k := hcut _ (List.mem_cons_self ..)
    rw [List.flatMap_cons, hpiece]
    exact (hrest.append_left _).trans (List.filter_append_perm _ xs)

theorem Files.contents_perm (h : c.Files lib pairs) : c.contents.Perm pairs := by
  apply flatMap_perm_of_cut fun p => place lib p.1
  · have hdistinct := Std.TreeMap.distinct_keys_toList (t := c.buckets)
    apply List.pairwise_map.2
    apply hdistinct.imp
    intro p q hpq heq
    exact hpq (Std.LawfulEqCmp.compare_eq_iff_eq.2 heq)
  · intro p hp
    have hget : c.buckets[p.1]? = some p.2 := Std.TreeMap.mem_toList_iff_getElem?_eq_some.1 hp
    rw [← h.buckets p.1, hget]
    rfl
  · intro p hp
    -- The bucket of the pair is not empty, so it is in the map.
    have hmem : p ∈ (c.buckets[place lib p.1]?).getD [] := by
      rw [h.buckets]
      exact List.mem_filter.2 ⟨hp, decide_eq_true rfl⟩
    cases hget : c.buckets[place lib p.1]? with
    | none =>
      rw [hget] at hmem
      cases hmem
    | some piece =>
      exact List.mem_map_of_mem (Std.TreeMap.mem_toList_iff_getElem?_eq_some.2 hget)

/-! ## One value for each class -/

/-- The library does not say of two nodes, in either order, that they have the same structure. -/
def Differ (lib : ε) (p q : NodeId × ν) : Prop :=
  ¬ Same lib p.1 q.1 ∧ ¬ Same lib q.1 p.1

instance : Std.Symm (Differ lib : NodeId × ν → NodeId × ν → Prop) where
  symm := fun _ _ h => ⟨h.2, h.1⟩

section Apart

variable (hlib : Classified lib) (h : c.Files lib pairs)
  (hapart : pairs.Pairwise fun p q => ¬ Same lib p.1 q.1)
include hlib h hapart

/-- Equality of structure is symmetric among nodes that the library holds. -/
theorem Files.differ : pairs.Pairwise (Differ lib) := by
  refine hapart.imp_of_mem ?_
  intro p q hp hq hpq
  exact ⟨hpq, fun hqp => hpq (hlib.same_symm (h.held q hq) (h.held p hp) hqp)⟩

/-- No class has two values. -/
theorem Files.eq_of_same {p q : NodeId × ν} (hp : p ∈ pairs) (hq : q ∈ pairs)
    (hs : Same lib p.1 q.1) : p = q := by
  by_contra hne
  exact ((h.differ hlib hapart).forall hp hq hne).1 hs

/-- Nor has it in the buckets. -/
theorem Files.contents_apart : c.contents.Pairwise fun p q => ¬ Same lib p.1 q.1 := by
  have hdiffer := (h.differ hlib hapart).perm h.contents_perm.symm fun hpq => Std.Symm.symm _ _ hpq
  exact hdiffer.imp And.left

theorem Files.find?_eq_some_iff (hn : contains lib n = true) :
    c.find? lib n = .ok (some v) ↔ ∃ p ∈ pairs, Same lib p.1 n ∧ p.2 = v := by
  have hfound : ∀ {p : NodeId × ν}, p ∈ pairs → Same lib p.1 n →
      c.find? lib n = .ok (some p.2) := by
    intro p hp hs
    refine h.find?_eq_some hlib.toComparable hn ?_ ⟨p, hp, hs⟩
    intro q hq hqs
    have hqp : Same lib q.1 p.1 := hlib.same_trans (h.held q hq) hn (h.held p hp) hqs
      (hlib.same_symm (h.held p hp) hn hs)
    rw [h.eq_of_same hlib hapart hq hp hqp]
  constructor
  · intro hfind
    by_cases hex : ∃ p ∈ pairs, Same lib p.1 n
    · obtain ⟨p, hp, hs⟩ := hex
      have heq := (hfound hp hs).symm.trans hfind
      exact ⟨p, hp, hs, Option.some.inj (Except.ok.inj heq)⟩
    · have hnone := h.find?_eq_none hlib.toComparable hn fun p hp hs => hex ⟨p, hp, hs⟩
      cases hnone.symm.trans hfind
  · rintro ⟨p, hp, hs, rfl⟩
    exact hfound hp hs

theorem Files.find?_eq_none_iff (hn : contains lib n = true) :
    c.find? lib n = .ok none ↔ ∀ p ∈ pairs, ¬ Same lib p.1 n := by
  refine ⟨?_, h.find?_eq_none hlib.toComparable hn⟩
  intro hnone p hp hs
  have hsome := (h.find?_eq_some_iff hlib hapart hn).2 ⟨p, hp, hs, rfl⟩
  cases hnone.symm.trans hsome

end Apart

end ClassMap

end SatMemo
