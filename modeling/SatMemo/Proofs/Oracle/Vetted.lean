import SatMemo.Proofs.Library.Discrete
import SatMemo.Proofs.Oracle.Catalogue
import SatMemo.Proofs.Oracle.Replaying

/-! # Entries of well-formed formulas

    An oracle over a discrete library is vetted by the list of nodes that its
    entries were made for: these are sane, and so are their operands, which have
    entries too.  That is what lets building trust an entry without a look at the
    operands again: all of its cone is well-formed (`Vetted.wellFormed`).

    Nothing is said of nodes without entries.  A build that was stopped halfway
    leaves a vetted oracle like any other. -/

namespace SatMemo

namespace ClassMap

open Library (contains)

variable {ν ε : Type} [Library ε] {c : ClassMap ν} {lib : ε} {n : NodeId} {v : ν}
  {pairs : List (NodeId × ν)}

/-- The value was stored under the very node. -/
def Stores (c : ClassMap ν) (n : NodeId) (v : ν) : Prop :=
  ∃ k : Nat, (n, v) ∈ (c.buckets[k]?).getD []

theorem Files.stores_iff (h : c.Files lib pairs) : c.Stores n v ↔ (n, v) ∈ pairs := by
  constructor
  · intro ⟨k, hk⟩
    rw [h.buckets k] at hk
    exact (List.mem_filter.1 hk).1
  · intro hmem
    refine ⟨place lib n, ?_⟩
    rw [h.buckets]
    exact List.mem_filter.2 ⟨hmem, decide_eq_true rfl⟩

end ClassMap

namespace Oracle

open Library (contains Same Operand Cone Discrete Steady Sane Openable WellFormed Flaw)

variable {ε σ τ : Type} [Library ε] {o o' : Oracle ε σ τ} {lib : ε}
  {reps ms : List NodeId} {m n : NodeId} {i : Nat}

/-- The nodes `reps` have the entries, in this order. -/
structure Vetted (reps : List NodeId) (o : Oracle ε σ τ) : Prop where
  discrete : Discrete o.library
  size     : o.entries.size = reps.length
  index    : o.index.Files o.library reps.zipIdx
  distinct : reps.Nodup
  sane     : ∀ n ∈ reps, Sane o.library n
  closed   : ∀ n ∈ reps, ∀ m, Operand o.library n m → m ∈ reps

theorem vetted_start [Decider σ τ] {s : σ} (h : Discrete lib) (settings : Settings)
    (watched : Bool) (setup : List Event) : Vetted [] (start lib s settings watched setup) where
  discrete := h
  size := rfl
  index := ClassMap.files_empty lib
  distinct := .nil
  sane := nofun
  closed := nofun

/-- No entry hides a node that is not sane. -/
theorem Vetted.wellFormed (h : Vetted reps o) (hn : n ∈ reps) : WellFormed o.library n := by
  have hcone : ∀ m, Cone o.library n m → m ∈ reps := by
    intro m hm
    induction hm with
    | refl => exact hn
    | tail _ hop ih => exact h.closed _ ih _ hop
  intro m hm
  exact h.sane m (hcone m hm)

theorem Vetted.not_mem_of_flaw (h : Vetted reps o) {e : Error} (hm : Cone o.library n m)
    (hflaw : Flaw o.library m e) : n ∉ reps :=
  fun hn => hflaw.not_wellFormed hm (h.wellFormed hn)

/-! ## Looking up -/

theorem Vetted.held (h : Vetted reps o) (hn : n ∈ reps) : contains o.library n = true :=
  (h.sane n hn).1

theorem Vetted.apart (h : Vetted reps o) : reps.Pairwise fun m n => ¬ Same o.library m n := by
  apply h.distinct.imp_of_mem
  intro m n hm hn hne hs
  exact hne ((h.discrete.same_iff (h.held hm) (h.held hn)).1 hs)

theorem Vetted.entered_iff (h : Vetted reps o) (hn : contains o.library n = true) :
    Entered o.library reps n ↔ n ∈ reps := by
  constructor
  · rintro ⟨k, hk, hs⟩
    exact (h.discrete.same_iff (h.held hk) hn).1 hs ▸ hk
  · intro hmem
    exact ⟨n, hmem, (h.discrete.same_iff hn hn).2 rfl⟩

/-- A look-up finds the place of the very node. -/
theorem Vetted.indexOf?_eq_some_iff (h : Vetted reps o) (hn : contains o.library n = true) :
    indexOf? n o = .ok (some i) o ↔ reps[i]? = some n := by
  rw [indexOf?_eq_some_iff_of_files h.discrete.classified h.index h.apart hn]
  constructor
  · rintro ⟨k, hk, hs⟩
    exact (h.discrete.same_iff (h.held (List.mem_of_getElem? hk)) hn).1 hs ▸ hk
  · intro hi
    exact ⟨n, hi, (h.discrete.same_iff hn hn).2 rfl⟩

theorem Vetted.indexOf?_eq (h : Vetted reps o) (hi : reps[i]? = some n) :
    indexOf? n o = .ok (some i) o :=
  (h.indexOf?_eq_some_iff (h.held (List.mem_of_getElem? hi))).2 hi

theorem Vetted.indexOf?_eq_none (h : Vetted reps o) (hn : contains o.library n = true)
    (hnew : n ∉ reps) : indexOf? n o = .ok none o := by
  rw [indexOf?_eq_none_iff_of_files h.discrete.classified h.index h.apart hn, h.entered_iff hn]
  exact hnew

theorem Vetted.known (h : Vetted reps o)
    (hms : ∀ m ∈ ms, contains o.library m = true) : Known (· ∈ reps) ms o := by
  intro m hm
  refine ⟨hms m hm, ?_, h.indexOf?_eq_none (hms m hm)⟩
  intro hmem
  obtain ⟨i, hi⟩ := List.mem_iff_getElem?.1 hmem
  exact ⟨i, h.indexOf?_eq hi⟩

theorem Vetted.found (h : Vetted reps o) (hn : n ∈ reps) : Found n o := by
  obtain ⟨i, hi⟩ := List.mem_iff_getElem?.1 hn
  have hlt : i < o.entries.size := by
    rw [h.size]
    exact (List.getElem?_eq_some_iff.1 hi).1
  exact ⟨i, _, h.indexOf?_eq hi, Array.getElem?_eq_getElem hlt⟩

theorem Vetted.exists_indexOf? (h : Vetted reps o) (hn : contains o.library n = true) :
    ∃ i?, indexOf? n o = .ok i? o := by
  by_cases hmem : n ∈ reps
  · obtain ⟨i, _, hi, _⟩ := h.found hmem
    exact ⟨some i, hi⟩
  · exact ⟨none, h.indexOf?_eq_none hn hmem⟩

/-! ## What keeps an oracle vetted -/

theorem Vetted.shelved (h : Vetted reps o) (hs : Shelved o o') (hd : Discrete o'.library)
    (hlib : Steady o.library o'.library) : Vetted reps o' where
  discrete := hd
  size := hs.size.trans h.size
  index := by
    rw [hs.index]
    exact h.index.steady hlib
  distinct := h.distinct
  sane := fun n hn => (h.sane n hn).steady hlib
  closed := fun n hn m hop => h.closed n hn m ((hlib.operand_iff (h.held hn)).1 hop)

theorem Vetted.of_library_eq (h : Vetted reps o) (hs : Shelved o o')
    (hlib : o'.library = o.library) : Vetted reps o' :=
  h.shelved hs (hlib ▸ h.discrete) (hlib ▸ Steady.refl _)

/-- A sane node whose operands have entries may get one. -/
theorem Vetted.appended (h : Vetted reps o) (hn : Openable o.library n ms) (hsub : ms ⊆ reps)
    (hnew : n ∉ reps) (ha : Appended n o o') : Vetted (reps ++ [n]) o' := by
  constructor
  case discrete => exact ha.library ▸ h.discrete
  case size =>
    rw [ha.size, h.size, List.length_append]
    rfl
  case index =>
    rw [ha.library, List.zipIdx_append, Nat.zero_add]
    exact h.index.of_insert h.discrete.comparable hn.sane.1 (h.size ▸ ha.index)
  case distinct =>
    refine List.nodup_append.2 ⟨h.distinct, List.nodup_singleton n, ?_⟩
    intro m hm k hk heq
    exact hnew (List.mem_singleton.1 hk ▸ heq ▸ hm)
  case sane =>
    rw [ha.library]
    intro m hm
    obtain hm | hm := List.mem_append.1 hm
    · exact h.sane m hm
    · exact List.mem_singleton.1 hm ▸ hn.sane
  case closed =>
    rw [ha.library]
    intro m hm k hop
    obtain hm | hm := List.mem_append.1 hm
    · exact List.mem_append_left _ (h.closed m hm k hop)
    · rw [List.mem_singleton.1 hm] at hop
      exact List.mem_append_left _ (hsub (hn.mem_of_operand hop))

/-- It gets one, unless the decider has a fault. -/
theorem Vetted.yields_lower [Decider σ τ] (h : Vetted reps o) (hn : Openable o.library n ms)
    (hsub : ms ⊆ reps) : Yields (OfDecider σ) (lower n) o fun _ o' => Appended n o o' := by
  obtain ⟨⟨hc, kind, ms', hkind, hms', haccepts⟩, hms, _⟩ := hn
  rw [hms] at hms'
  cases hms'
  apply Oracle.yields_lower hkind hms haccepts
  · intro hvar
    exact h.discrete.named hc (hvar ▸ hkind)
  · exact h.discrete.key hc
  · intro m hm
    exact h.found (hsub hm)

end Oracle

end SatMemo
