import SatMemo.Oracle.ClassMap
import SatMemo.Proofs.Library.Lawful

/-! # Maps on the nodes of a lawful library

    In a lawful library nodes of one structure are one node, so a map on
    structural classes is a map on nodes.  It is read as the list of what was
    inserted, in order: `Lists` says that its buckets are that list, cut by
    structural key.  Growth of the library does not disturb it. -/

namespace SatMemo

namespace ClassMap

open Library (term? contains Lawful)

variable {ν ε : Type} [Library ε] [Lawful ε] {c : ClassMap ν} {lib lib' : ε} {n : NodeId}
  {pairs : List (NodeId × ν)}

/-- The number of the bucket of a node. -/
def slot (lib : ε) (n : NodeId) : Nat :=
  (((term? lib n).map (Lawful.key ε n)).getD 0).toNat

/-- The map is the list of what was inserted. -/
structure Lists (c : ClassMap ν) (lib : ε) (pairs : List (NodeId × ν)) : Prop where
  held    : ∀ p ∈ pairs, contains lib p.1 = true
  buckets : ∀ k : Nat, (c.buckets[k]?).getD [] = pairs.filter fun p => slot lib p.1 = k

theorem lists_empty (lib : ε) : (empty : ClassMap ν).Lists lib [] where
  held := nofun
  buckets := by
    intro k
    show ((∅ : Std.TreeMap Nat (List (NodeId × ν)))[k]?).getD [] = []
    rw [Std.TreeMap.getElem?_emptyc]
    rfl

theorem structKey_eq (h : Lawful.Wf lib) (hn : contains lib n = true) :
    ∃ key, Library.structKey lib n = .ok key ∧ key.toNat = slot lib n := by
  obtain ⟨t, ht⟩ := (Lawful.founded h).exists_term hn
  refine ⟨_, Lawful.structKey_eq h ht, ?_⟩
  unfold slot
  rw [ht]
  rfl

/-- Buckets stay where they are while the library grows. -/
theorem Lists.mono (hc : c.Lists lib pairs) (h : Lawful.Wf lib)
    (he : Library.Extends lib lib') : c.Lists lib' pairs where
  held := fun p hp => (Lawful.founded h).contains_of_extends he (hc.held p hp)
  buckets := by
    intro k
    rw [hc.buckets k]
    apply List.filter_congr
    intro p hp
    -- Old nodes keep their terms, and so their keys.
    obtain ⟨t, ht⟩ := (Lawful.founded h).exists_term (hc.held p hp)
    unfold slot
    rw [ht, he ht]

theorem search_eq (h : Lawful.Wf lib) (hn : contains lib n = true)
    {bucket : List (NodeId × ν)} (hbucket : ∀ p ∈ bucket, contains lib p.1 = true) :
    search lib n bucket = .ok ((bucket.find? fun p => p.1 = n).map Prod.snd) := by
  induction bucket with
  | nil => rfl
  | cons p rest ih =>
    obtain ⟨m, v⟩ := p
    have hm : contains lib m = true := hbucket (m, v) (List.mem_cons_self ..)
    have hrest := ih fun p hp => hbucket p (List.mem_cons_of_mem _ hp)
    unfold search
    rw [Lawful.structEq_eq h hm hn, List.find?_cons]
    by_cases hmn : m = n
    · simp only [hmn, decide_true]
      rfl
    · simp only [hmn, decide_false]
      exact hrest

/-- A look-up finds what was inserted first for the node. -/
theorem Lists.find?_eq (hc : c.Lists lib pairs) (h : Lawful.Wf lib)
    (hn : contains lib n = true) :
    c.find? lib n = .ok ((pairs.find? fun p => p.1 = n).map Prod.snd) := by
  obtain ⟨key, hkey, hslot⟩ := structKey_eq h hn
  have hbucket : search lib n ((c.buckets[key.toNat]?).getD [])
      = .ok ((pairs.find? fun p => p.1 = n).map Prod.snd) := by
    rw [hc.buckets, search_eq h hn fun p hp => hc.held p (List.mem_filter.1 hp).1,
      List.find?_filter]
    congr 3
    funext p
    -- Whatever is equal to the node is in its bucket.
    by_cases hp : p.1 = n
    · simp [hp, hslot]
    · simp [hp]
  exact (find?_of_structKey hkey).trans hbucket

theorem Lists.insert_eq (hc : c.Lists lib pairs) (h : Lawful.Wf lib)
    (hn : contains lib n = true) (v : ν) :
    ∃ c', c.insert lib n v = .ok c' ∧ c'.Lists lib (pairs ++ [(n, v)]) := by
  obtain ⟨key, hkey, hslot⟩ := structKey_eq h hn
  refine ⟨_, insert_of_structKey hkey, ?_, ?_⟩
  · intro p hp
    rcases List.mem_append.1 hp with hp | hp
    · exact hc.held p hp
    · rw [List.mem_singleton.1 hp]
      exact hn
  · intro k
    show ((c.buckets.alter key.toNat _)[k]?).getD [] = _
    rw [Std.TreeMap.getElem?_alter, List.filter_append]
    -- The pair goes to the end of its bucket, and the others are not touched.
    by_cases hk : key.toNat = k
    · rw [if_pos (Std.LawfulEqCmp.compare_eq_iff_eq.2 hk), Option.getD_some, hc.buckets, hk]
      simp [← hslot, hk]
    · rw [if_neg fun heq => hk (Std.LawfulEqCmp.compare_eq_iff_eq.1 heq), hc.buckets]
      simp [← hslot, hk]

end ClassMap

end SatMemo
