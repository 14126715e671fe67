import SatMemo.Proofs.Oracle.Filed
import SatMemo.Proofs.Oracle.Lowering
import SatMemo.Proofs.Oracle.Shelving

/-! # Catalogues

    An oracle over an orderly library is catalogued by the list of nodes that its
    entries were made for: they have different structures, the index leads from
    every node to the entry of its structure, and operands come before the node.

    Lowering a new node whose operands have entries puts it at the end of the
    list. -/

namespace SatMemo

namespace Oracle

open Library (contains Same Operand Orderly Classified Steady)

variable {ε σ τ : Type} [Library ε] {o o' : Oracle ε σ τ} {lib : ε} {reps : List NodeId}
  {m n k : NodeId} {i j : Nat}

/-- Some node of the list has the structure of `n`. -/
def Entered (lib : ε) (reps : List NodeId) (n : NodeId) : Prop :=
  ∃ k ∈ reps, Same lib k n

/-- The nodes `reps` have the entries, in this order. -/
structure Catalogued (reps : List NodeId) (o : Oracle ε σ τ) : Prop where
  orderly  : Orderly o.library
  size     : o.entries.size = reps.length
  index    : o.index.Files o.library reps.zipIdx
  distinct : reps.Pairwise fun m n => ¬ Same o.library m n
  /-- Operands have earlier entries. -/
  closed   : ∀ ⦃i n⦄, reps[i]? = some n → ∀ ⦃m⦄, Operand o.library n m →
    Entered o.library (reps.take i) m

theorem catalogued_start [Decider σ τ] {s : σ} (h : Orderly lib) (settings : Settings)
    (watched : Bool) (setup : List Event) :
    Catalogued [] (start lib s settings watched setup) where
  orderly := h
  size := rfl
  index := ClassMap.files_empty lib
  distinct := .nil
  closed := nofun

theorem Entered.mono {reps' : List NodeId} (h : Entered lib reps n) (hsub : reps ⊆ reps') :
    Entered lib reps' n := by
  obtain ⟨k, hk, hs⟩ := h
  exact ⟨k, hsub hk, hs⟩

/-! ## Looking up -/

theorem pairwise_zipIdx (h : reps.Pairwise fun m n => ¬ Same lib m n) :
    reps.zipIdx.Pairwise fun p q => ¬ Same lib p.1 q.1 := by
  have hfirst : (reps.zipIdx.map Prod.fst).Pairwise fun m n => ¬ Same lib m n := by
    rw [List.zipIdx_map_fst]
    exact h
  exact List.pairwise_map.1 hfirst

theorem held_of_files {index : ClassMap Nat} (h : index.Files lib reps.zipIdx) (hn : n ∈ reps) :
    contains lib n = true := by
  obtain ⟨i, hi⟩ := List.mem_iff_getElem?.1 hn
  exact h.held _ (List.mk_mem_zipIdx_iff_getElem?.2 hi)

theorem Catalogued.held (h : Catalogued reps o) (hn : n ∈ reps) : contains o.library n = true :=
  held_of_files h.index hn

theorem Entered.exists_position (h : Entered lib reps n) :
    ∃ (i : Nat) (k : NodeId), reps[i]? = some k ∧ Same lib k n := by
  obtain ⟨k, hk, hs⟩ := h
  obtain ⟨i, hi⟩ := List.mem_iff_getElem?.1 hk
  exact ⟨i, k, hi, hs⟩

section LookingUp

variable (hlib : Classified o.library) (hindex : o.index.Files o.library reps.zipIdx)
  (hdistinct : reps.Pairwise fun m n => ¬ Same o.library m n) (hn : contains o.library n = true)
include hlib hindex hdistinct hn

/-- What a look-up finds, it finds for a node of the same structure. -/
theorem indexOf?_eq_some_iff_of_files :
    indexOf? n o = .ok (some i) o ↔ ∃ k, reps[i]? = some k ∧ Same o.library k n := by
  have hapart := pairwise_zipIdx hdistinct
  rw [indexOf?_eq_ok_iff, hindex.find?_eq_some_iff hlib hapart hn]
  constructor
  · rintro ⟨⟨k, j⟩, hp, hs, rfl⟩
    exact ⟨k, List.mk_mem_zipIdx_iff_getElem?.1 hp, hs⟩
  · rintro ⟨k, hk, hs⟩
    exact ⟨(k, i), List.mk_mem_zipIdx_iff_getElem?.2 hk, hs, rfl⟩

theorem indexOf?_eq_none_iff_of_files :
    indexOf? n o = .ok none o ↔ ¬ Entered o.library reps n := by
  have hapart := pairwise_zipIdx hdistinct
  rw [indexOf?_eq_ok_iff, hindex.find?_eq_none_iff hlib hapart hn]
  constructor
  · intro hnone hentered
    obtain ⟨i, k, hk, hs⟩ := hentered.exists_position
    exact hnone (k, i) (List.mk_mem_zipIdx_iff_getElem?.2 hk) hs
  · intro hnew p hp hs
    have hk : reps[p.2]? = some p.1 := List.mk_mem_zipIdx_iff_getElem?.1 hp
    exact hnew ⟨p.1, List.mem_of_getElem? hk, hs⟩

end LookingUp

theorem Catalogued.indexOf?_eq_some_iff (h : Catalogued reps o)
    (hn : contains o.library n = true) :
    indexOf? n o = .ok (some i) o ↔ ∃ k, reps[i]? = some k ∧ Same o.library k n :=
  indexOf?_eq_some_iff_of_files h.orderly.classified h.index h.distinct hn

theorem Catalogued.indexOf?_eq (h : Catalogued reps o) (hn : contains o.library n = true)
    (hi : reps[i]? = some k) (hs : Same o.library k n) : indexOf? n o = .ok (some i) o :=
  (h.indexOf?_eq_some_iff hn).2 ⟨k, hi, hs⟩

theorem Catalogued.indexOf?_eq_none (h : Catalogued reps o) (hn : contains o.library n = true)
    (hnew : ¬ Entered o.library reps n) : indexOf? n o = .ok none o :=
  (indexOf?_eq_none_iff_of_files h.orderly.classified h.index h.distinct hn).2 hnew

theorem Catalogued.exists_entry (h : Catalogued reps o) (hi : reps[i]? = some k) :
    ∃ e, o.entries[i]? = some e := by
  have hlt : i < o.entries.size := by
    rw [h.size]
    exact (List.getElem?_eq_some_iff.1 hi).1
  exact ⟨_, Array.getElem?_eq_getElem hlt⟩

/-- The operands of a node have entries before that of its structure. -/
theorem Catalogued.entered_of_operand (h : Catalogued reps o) (hn : contains o.library n = true)
    (hi : reps[i]? = some k) (hs : Same o.library k n) (hop : Operand o.library n m) :
    Entered o.library (reps.take i) m := by
  have ho := h.orderly
  have hk := h.held (List.mem_of_getElem? hi)
  have hm := ho.contains_of_operand hn hop
  -- The entry was made for a node of the same structure, which has such an operand.
  obtain ⟨x, hx, hmx⟩ := ho.exists_operand_same hn hk (ho.same_symm hk hn hs) hop
  have hxc := ho.contains_of_operand hk hx
  obtain ⟨l, hl, hlx⟩ := h.closed hi hx
  have hlc := h.held (List.mem_of_mem_take hl)
  exact ⟨l, hl, ho.same_trans hlc hxc hm hlx (ho.same_symm hm hxc hmx)⟩

/-- A node in the cone of one that has an entry has an entry. -/
theorem Catalogued.entered_of_cone (h : Catalogued reps o) (hn : contains o.library n = true)
    (hentered : Entered o.library reps n) (hm : Library.Cone o.library n m) :
    Entered o.library reps m := by
  induction hm with
  | refl => exact hentered
  | tail hx hop ih =>
    obtain ⟨i, k, hi, hs⟩ := ih.exists_position
    have hxc := h.orderly.contains_of_cone hn hx
    exact (h.entered_of_operand hxc hi hs hop).mono (List.take_subset i reps)

/-! ## What leaves a catalogue as it is -/

theorem Catalogued.shelved (h : Catalogued reps o) (hs : Shelved o o')
    (ho : Orderly o'.library) (hlib : Steady o.library o'.library) : Catalogued reps o' where
  orderly := ho
  size := hs.size.trans h.size
  index := by
    rw [hs.index]
    exact h.index.steady hlib
  distinct := by
    apply h.distinct.imp_of_mem
    intro m n hm hn hmn hsame
    exact hmn ((hlib.same_iff (h.held hm) (h.held hn)).1 hsame)
  closed := by
    intro i n hi m hop
    have hn := h.held (List.mem_of_getElem? hi)
    have hop := (hlib.operand_iff hn).1 hop
    obtain ⟨k, hk, hkm⟩ := h.closed hi hop
    have hkc := h.held (List.mem_of_mem_take hk)
    exact ⟨k, hk, (hlib.same_iff hkc (h.orderly.contains_of_operand hn hop)).2 hkm⟩

theorem Catalogued.of_library_eq (h : Catalogued reps o) (hs : Shelved o o')
    (hlib : o'.library = o.library) : Catalogued reps o' :=
  h.shelved hs (hlib ▸ h.orderly) (hlib ▸ Steady.refl _)

/-! ## Lowering -/

/-- The new node goes to the end of the catalogue. -/
theorem Catalogued.appended (h : Catalogued reps o) (hn : contains o.library n = true)
    (hnew : ¬ Entered o.library reps n)
    (hops : ∀ m, Operand o.library n m → Entered o.library reps m) (ha : Appended n o o') :
    Catalogued (reps ++ [n]) o' := by
  constructor
  case orderly => exact ha.library ▸ h.orderly
  case size =>
    rw [ha.size, h.size, List.length_append]
    rfl
  case index =>
    rw [ha.library, List.zipIdx_append, Nat.zero_add]
    exact h.index.of_insert h.orderly.comparable hn (h.size ▸ ha.index)
  case distinct =>
    rw [ha.library, List.pairwise_append]
    refine ⟨h.distinct, List.pairwise_singleton _ _, ?_⟩
    intro m hm k hk hs
    rw [List.mem_singleton.1 hk] at hs
    exact hnew ⟨m, hm, hs⟩
  case closed =>
    rw [ha.library]
    intro i m hi x hop
    by_cases hlast : i = reps.length
    · rw [hlast, List.getElem?_concat_length] at hi
      cases hi
      rw [hlast, List.take_left]
      exact hops x hop
    · have hlt : i < reps.length := by
        have := (List.getElem?_eq_some_iff.1 hi).1
        rw [List.length_append, List.length_singleton] at this
        omega
      rw [List.getElem?_append_left hlt] at hi
      rw [List.take_append_of_le_length (Nat.le_of_lt hlt)]
      exact h.closed hi hop

/-- What has the structure of a node of the list is found. -/
theorem Catalogued.found (h : Catalogued reps o) (hn : contains o.library n = true)
    (hentered : Entered o.library reps n) : Found n o := by
  obtain ⟨i, k, hi, hs⟩ := hentered.exists_position
  obtain ⟨e, he⟩ := h.exists_entry hi
  exact ⟨i, e, h.indexOf?_eq hn hi hs, he⟩

/-- A node whose operands have entries gets one, unless the decider has a fault. -/
theorem Catalogued.yields_appended [Decider σ τ] (h : Catalogued reps o)
    (hn : contains o.library n = true)
    (hops : ∀ m, Operand o.library n m → Entered o.library reps m) :
    Yields (OfDecider σ) (lower n) o fun _ o' => Appended n o o' := by
  obtain ⟨kind, ms, hkind, hms, haccepts, hheld⟩ := h.orderly.node hn
  apply Oracle.yields_lower hkind hms haccepts
  · intro hvar
    exact h.orderly.named hn (hvar ▸ hkind)
  · exact h.orderly.key hn
  · intro m hm
    exact h.found (hheld m hm) (hops m ⟨ms, hms, hm⟩)

/-- If it had none of its own before, it is the last of the catalogue then. -/
theorem Catalogued.yields_lower [Decider σ τ] (h : Catalogued reps o)
    (hn : contains o.library n = true) (hnew : ¬ Entered o.library reps n)
    (hops : ∀ m, Operand o.library n m → Entered o.library reps m) :
    Yields (OfDecider σ) (lower n) o fun _ o' =>
      Catalogued (reps ++ [n]) o' ∧ o'.library = o.library := by
  apply (h.yields_appended hn hops).mono
  intro _ o' ha
  exact ⟨h.appended hn hnew hops ha, ha.library⟩

end Oracle

end SatMemo
