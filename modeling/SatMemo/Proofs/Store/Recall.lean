import Mathlib.Algebra.Group.Nat.Defs
import Mathlib.Tactic.Tauto
import SatMemo.Proofs.Store.Memo

/-! # What a memo table answers, by its history

    A script of requests to a new memo table is answered out of the script itself:
    a lookup finds a value exactly if, since the table was last cleared, the last
    insertion into the slot of the key was of that value under that key
    (`Latest`).  So no lookup gets the value of another key, however many keys
    share a slot, and none gets a value from before a clearing.

    What one request does to a later lookup is `peek?_perform`, and from it follows,
    by induction on the script, what a script does (`peek?_play`).  The counts are
    those of the answers (`counts_play`). -/

namespace SatMemo

namespace Memo

/-! ## Requests and answers -/

/-- A request to a memo table. -/
inductive Request (κ ν : Type) where
  | insert (k : κ) (v : ν)
  | get (k : κ)
  | clear

inductive Answer (ν : Type) where
  | done
  | got (v : Option ν)
deriving Repr, DecidableEq

def Request.isGet {κ ν : Type} : Request κ ν → Bool
  | .get _ => true
  | _      => false

/-- Did a lookup find something? -/
def Answer.isHit {ν : Type} : Answer ν → Bool
  | .got (some _) => true
  | _             => false

/-- Did a lookup find nothing? -/
def Answer.isMiss {ν : Type} : Answer ν → Bool
  | .got none => true
  | _         => false

variable {κ ν : Type} [Keyed κ]

/-- The slot of a key in a table of `2 ^ bits` slots. -/
def slotIn (bits : Nat) (k : κ) : Nat :=
  (Keyed.key k).toNat % 2 ^ bits

/-- The script neither clears the table nor writes to the slot of `k`. -/
def Spares (bits : Nat) (rs : List (Request κ ν)) (k : κ) : Prop :=
  .clear ∉ rs ∧ ∀ k' v, .insert k' v ∈ rs → slotIn bits k' ≠ slotIn bits k

/-- Since the last clearing, the last insertion into the slot of `k` was of `v` under `k`. -/
def Latest (bits : Nat) (rs : List (Request κ ν)) (k : κ) (v : ν) : Prop :=
  ∃ before after, rs = before ++ .insert k v :: after ∧ Spares bits after k

section History

variable {bits : Nat} {rs : List (Request κ ν)} {k : κ} {v : ν}

@[simp] theorem spares_nil : Spares bits ([] : List (Request κ ν)) k := by
  simp [Spares]

/-- A script spares a slot if its first request and the others do. -/
@[simp] theorem spares_cons (r : Request κ ν) :
    Spares bits (r :: rs) k ↔
      (r ≠ .clear ∧ ∀ k' v, r = .insert k' v → slotIn bits k' ≠ slotIn bits k) ∧
        Spares bits rs k := by
  unfold Spares
  constructor
  · intro ⟨hclear, hslot⟩
    refine ⟨⟨?_, ?_⟩, ?_, ?_⟩
    · intro hr
      exact hclear (hr ▸ List.mem_cons_self ..)
    · intro k' v hr
      exact hslot k' v (hr ▸ List.mem_cons_self ..)
    · intro hmem
      exact hclear (List.mem_cons_of_mem _ hmem)
    · intro k' v hmem
      exact hslot k' v (List.mem_cons_of_mem _ hmem)
  · intro ⟨⟨hr, hrslot⟩, hclear, hslot⟩
    refine ⟨?_, ?_⟩
    · intro hmem
      rcases List.mem_cons.1 hmem with heq | hmem
      · exact hr heq.symm
      · exact hclear hmem
    · intro k' v hmem
      rcases List.mem_cons.1 hmem with heq | hmem
      · exact hrslot k' v heq.symm
      · exact hslot k' v hmem

@[simp] theorem not_latest_nil : ¬ Latest bits ([] : List (Request κ ν)) k v := by
  intro ⟨before, after, heq, _⟩
  simp at heq

/-- The latest insertion is among the later requests, or it is the first request and they
    spare its slot. -/
@[simp] theorem latest_cons (r : Request κ ν) :
    Latest bits (r :: rs) k v ↔ Latest bits rs k v ∨ r = .insert k v ∧ Spares bits rs k := by
  constructor
  · intro ⟨before, after, heq, hspares⟩
    cases before with
    | nil =>
      obtain ⟨rfl, rfl⟩ := List.cons.inj heq
      exact .inr ⟨rfl, hspares⟩
    | cons _ before =>
      obtain ⟨_, rfl⟩ := List.cons.inj heq
      exact .inl ⟨before, after, rfl, hspares⟩
  · intro h
    rcases h with ⟨before, after, rfl, hspares⟩ | ⟨rfl, hspares⟩
    · exact ⟨r :: before, after, rfl, hspares⟩
    · exact ⟨[], rs, rfl, hspares⟩

end History

/-! ## Scripts -/

variable [DecidableEq κ]

/-- Carry out a request. -/
def perform (t : Memo κ ν) : Request κ ν → Answer ν × Memo κ ν
  | .insert k v => (.done, t.insert k v)
  | .get k      => (.got (t.get k).1, (t.get k).2)
  | .clear      => (.done, t.clear)

/-- Carry out a script. -/
def play (t : Memo κ ν) : List (Request κ ν) → List (Answer ν) × Memo κ ν
  | []      => ([], t)
  | r :: rs => ((t.perform r).1 :: ((t.perform r).2.play rs).1, ((t.perform r).2.play rs).2)

/-- A request is answered by the table that the requests before it have left. -/
theorem getElem?_play (t : Memo κ ν) (rs : List (Request κ ν)) (i : Nat) :
    (t.play rs).1[i]? = rs[i]?.map fun r => ((t.play (rs.take i)).2.perform r).1 := by
  induction rs generalizing t i with
  | nil => rfl
  | cons r rs ih =>
    cases i with
    | zero => rfl
    | succ i => simpa [play] using ih (t.perform r).2 i

theorem length_play (t : Memo κ ν) (rs : List (Request κ ν)) :
    (t.play rs).1.length = rs.length := by
  induction rs generalizing t with
  | nil => rfl
  | cons r rs ih => exact congrArg (· + 1) (ih _)

/-! ## What a lookup finds -/

section Lookup

variable {t : Memo κ ν} {bits : Nat}

omit [DecidableEq κ] in
theorem slot_eq (h : t.slots.bits = bits) (k : κ) : t.slot k = slotIn bits k := by
  rw [slot, slotIn, h, Nat.one_shiftLeft]

/-- The number of slots stays as it is. -/
theorem bits_perform (t : Memo κ ν) (r : Request κ ν) :
    (t.perform r).2.slots.bits = t.slots.bits := by
  cases r with
  | insert k v =>
    cases t
    rfl
  | get k =>
    rw [perform, get]
    split <;> rfl
  | clear => rfl

/-- After a request a lookup finds what was just inserted under its key, or else what it would
    have found before, if the request spares the slot. -/
theorem peek?_perform (h : t.slots.bits = bits) (r : Request κ ν) (k : κ) (v : ν) :
    (t.perform r).2.peek? k = some v ↔
      r = .insert k v ∨ t.peek? k = some v ∧ Spares bits [r] k := by
  cases r with
  | insert k' v' =>
    rw [perform, peek?_insert, slot_eq h, slot_eq h]
    by_cases hk : k' = k
    · -- The insertion is under the key itself, and in its slot.
      subst hk
      simp
    · by_cases hs : slotIn bits k' = slotIn bits k <;> simp [hk, hs]
  | get k' =>
    rw [perform, peek?_snd_get]
    simp
  | clear => simp [perform]

/-- After a script a lookup finds the latest insertion of the script, or else what it would
    have found before, if the script spares the slot. -/
theorem peek?_play (h : t.slots.bits = bits) (rs : List (Request κ ν)) (k : κ) (v : ν) :
    (t.play rs).2.peek? k = some v ↔
      Latest bits rs k v ∨ t.peek? k = some v ∧ Spares bits rs k := by
  induction rs generalizing t with
  | nil => simp [play]
  | cons r rs ih =>
    have hbits : (t.perform r).2.slots.bits = bits := (bits_perform t r).trans h
    rw [play, ih hbits, peek?_perform h, latest_cons, spares_cons, spares_cons]
    -- Both sides distinguish the latest insertion in `rs`, in `r`, and before `r`.
    simp only [spares_nil, and_true]
    tauto

/-- A lookup in a new table finds the latest insertion. -/
theorem peek?_play_empty (bits : Nat) (rs : List (Request κ ν)) (k : κ) (v : ν) :
    ((empty bits).play rs).2.peek? k = some v ↔ Latest bits rs k v := by
  have hbits : (empty bits : Memo κ ν).slots.bits = bits := rfl
  rw [peek?_play hbits]
  simp

end Lookup

/-! ## The counts -/

/-- One request counts its own answer. -/
theorem counts_perform (t : Memo κ ν) (r : Request κ ν) :
    (t.perform r).2.hits = t.hits + [(t.perform r).1].countP Answer.isHit ∧
      (t.perform r).2.misses = t.misses + [(t.perform r).1].countP Answer.isMiss := by
  cases r with
  | insert k v =>
    cases t
    exact ⟨rfl, rfl⟩
  | get k =>
    rw [perform, get]
    split <;> exact ⟨rfl, rfl⟩
  | clear => exact ⟨rfl, rfl⟩

/-- The counts go up by the answers of a script. -/
theorem counts_play (t : Memo κ ν) (rs : List (Request κ ν)) :
    (t.play rs).2.hits = t.hits + (t.play rs).1.countP Answer.isHit ∧
      (t.play rs).2.misses = t.misses + (t.play rs).1.countP Answer.isMiss := by
  induction rs generalizing t with
  | nil => exact ⟨rfl, rfl⟩
  | cons r rs ih =>
    obtain ⟨hhits, hmisses⟩ := counts_perform t r
    obtain ⟨hhits', hmisses'⟩ := ih (t.perform r).2
    rw [play, hhits', hmisses', hhits, hmisses, ← List.singleton_append (l := Prod.fst _),
      List.countP_append, List.countP_append, Nat.add_assoc, Nat.add_assoc]
    exact ⟨rfl, rfl⟩

/-- Every lookup, and nothing else, is answered with a hit or a miss. -/
theorem countP_answers (t : Memo κ ν) (rs : List (Request κ ν)) :
    (t.play rs).1.countP Answer.isHit + (t.play rs).1.countP Answer.isMiss
      = rs.countP Request.isGet := by
  induction rs generalizing t with
  | nil => rfl
  | cons r rs ih =>
    have hone : [(t.perform r).1].countP Answer.isHit + [(t.perform r).1].countP Answer.isMiss
        = [r].countP Request.isGet := by
      cases r with
      | insert k v => rfl
      | get k =>
        cases hfound : (t.get k).1 <;>
          simp [perform, hfound, Answer.isHit, Answer.isMiss, Request.isGet]
      | clear => rfl
    rw [play, ← List.singleton_append, ← List.singleton_append (l := rs), List.countP_append,
      List.countP_append, List.countP_append, ← ih (t.perform r).2, ← hone]
    omega

/-! ## What a script is answered -/

/-- **No lookup finds a stale or a foreign value.** A new memo table of an allowed size takes any
    script of insertions, lookups and clearings, with any keys in any slots:

    - a lookup finds a value exactly if, since the last clearing, some insertion went to the
      slot of its key and the last of them was of that value under that very key;
    - the hits are the lookups that found something, and hits and misses together are all
      lookups ever made, whatever was cleared in between. -/
theorem play_recalls {bits : Nat} (hbits : bits ≤ 31) (rs : List (Request κ ν)) :
    ∃ t₀ answers t, ofBits bits = .ok t₀ ∧ t₀.play rs = (answers, t) ∧
      answers.length = rs.length ∧
      (∀ i k, rs[i]? = some (.get k) → ∃ found, answers[i]? = some (.got found) ∧
        ∀ v, found = some v ↔ Latest bits (rs.take i) k v) ∧
      t.hits = answers.countP Answer.isHit ∧
      t.hits + t.misses = rs.countP Request.isGet ∧
      t.clear.hits = t.hits ∧ t.clear.misses = t.misses := by
  obtain ⟨hhits, hmisses⟩ := counts_play (empty bits) rs
  have hzero : (empty bits : Memo κ ν).hits = 0 ∧ (empty bits : Memo κ ν).misses = 0 := ⟨rfl, rfl⟩
  rw [hzero.1, Nat.zero_add] at hhits
  rw [hzero.2, Nat.zero_add] at hmisses
  refine ⟨empty bits, _, _, if_pos hbits, rfl, length_play _ rs, ?_, hhits, ?_, rfl, rfl⟩
  · intro i k hi
    refine ⟨_, by rw [getElem?_play, hi]; rfl, fun v => ?_⟩
    rw [fst_get, peek?_play_empty]
  · rw [hhits, hmisses, countP_answers]

/-- Two keys that share one of two slots: the second insertion evicts the first value, and a
    clearing the second. -/
theorem play_recalls_evicting :
    1 ≤ 31 ∧ ∃ t₀ answers t, (ofBits 1 : Except Fault (Memo UInt64 Nat)) = .ok t₀ ∧
      t₀.play [.insert 0 10, .insert 2 20, .get 0, .get 2, .clear, .get 2] = (answers, t) ∧
      answers[2]? = some (.got none) ∧ answers[3]? = some (.got (some 20)) ∧
      answers[5]? = some (.got none) ∧ t.hits + t.misses = 3 := by
  have hbits : 1 ≤ 31 := by decide
  have hslot : slotIn 1 (2 : UInt64) = slotIn 1 (0 : UInt64) := by decide
  obtain ⟨t₀, answers, t, hnew, hplay, -, hfound, -, htotal, -⟩ := play_recalls hbits
    [.insert (0 : UInt64) 10, .insert 2 20, .get 0, .get 2, .clear, .get 2]
  obtain ⟨found₂, h₂, hlatest₂⟩ := hfound 2 0 rfl
  obtain ⟨found₃, h₃, hlatest₃⟩ := hfound 3 2 rfl
  obtain ⟨found₅, h₅, hlatest₅⟩ := hfound 5 2 rfl
  have hnone₂ : found₂ = none := by
    apply Option.eq_none_iff_forall_ne_some.2
    intro v
    rw [ne_eq, hlatest₂]
    simp [hslot]
  have hsome₃ : found₃ = some 20 := (hlatest₃ 20).2 (by simp)
  have hnone₅ : found₅ = none := by
    apply Option.eq_none_iff_forall_ne_some.2
    intro v
    rw [ne_eq, hlatest₅]
    simp
  exact ⟨hbits, t₀, answers, t, hnew, hplay, hnone₂ ▸ h₂, hsome₃ ▸ h₃, hnone₅ ▸ h₅, htotal⟩

end Memo

end SatMemo
