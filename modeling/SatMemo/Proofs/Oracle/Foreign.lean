import SatMemo.Proofs.Cnf.Exact
import SatMemo.Proofs.Library.Simulation
import SatMemo.Proofs.Oracle.Enduring
import SatMemo.Proofs.Oracle.Exactness
import SatMemo.Proofs.Oracle.Replaying

/-! # Foreign handles

    A handle is foreign to an oracle whose library does not hold the node.  A
    foreign handle is refused by whatever would build it, over every library: the
    library is asked whether it holds the node before it is asked anything else.

    Looking up has no such guard, and the first thing that a look-up needs is the
    structural key of the node.  A signal is its own key, so an and-inverter graph
    has an answer and nothing is found.  The n-ary library has no term to take a
    key of, and the look-up ends in a fault, even before anything was built.

    None of this depends on what was decided.  `Throughout` speaks of runs in which
    every call is answered, `Regardless` of those in which questions may be
    refused. -/

namespace SatMemo

open Library (contains)

/-- What reading the term of a node raises that the library does not hold. -/
def Nary.missing (lib : Nary) (n : NodeId) : Fault :=
  if n.raw = 0 then .zeroIndex else .outOfBounds (lib.size + 1) n.raw

namespace Oracle

variable {ε σ τ : Type} [Library ε] [Decider σ τ]

/-! ## What is refused -/

/-- Every foreign handle is refused, by name, and the oracle stays as it is. -/
structure Rejects (o : Oracle ε σ τ) : Prop where
  build         : ∀ ⦃n : NodeId⦄, contains o.library n = false →
    build n o = .error (.error (.unknownNode n)) o
  isSatisfiable : ∀ ⦃n : NodeId⦄, contains o.library n = false →
    isSatisfiable n o = .error (.error (.unknownNode n)) o

/-- No foreign handle is found, and the oracle stays as it is. -/
structure FindsNone (o : Oracle ε σ τ) : Prop where
  entryOf? : ∀ ⦃n : NodeId⦄, contains o.library n = false → entryOf? n o = .ok none o
  status?  : ∀ ⦃n : NodeId⦄, contains o.library n = false → status? n o = .ok none o

/-- Looking a foreign handle up raises a fault. -/
structure Stumbles (fault : ε → NodeId → Fault) (o : Oracle ε σ τ) : Prop where
  entryOf? : ∀ ⦃n : NodeId⦄, contains o.library n = false →
    entryOf? n o = .error (.fault (fault o.library n)) o
  status?  : ∀ ⦃n : NodeId⦄, contains o.library n = false →
    status? n o = .error (.fault (fault o.library n)) o

/-- What holds after every script that uses only handles which it was given before. -/
def Throughout (P : Oracle ε σ τ → Prop) (o₀ : Oracle ε σ τ) : Prop :=
  ∀ script, Reading.empty.Admits script → ∃ answers o, play script [] o₀ = .ok answers o ∧ P o

/-- What holds after every such script, also if questions of it were refused. -/
def Regardless (P : Oracle ε σ τ → Prop) (o₀ : Oracle ε σ τ) : Prop :=
  ∀ script, Reading.empty.Admits script → P (endure script [] o₀).2

section Start

variable [Library.Lawful ε] {δ : Type} [Decider δ τ] {inner : δ → σ} {s₀ : σ} {d₀ : δ} {lib : ε}

theorem throughout_start (hexact : Decider.Exact s₀) (hwf : Library.Lawful.Wf lib)
    {P : Oracle ε σ τ → Prop} (hP : ∀ {pairs o}, o.index.Lists o.library pairs → P o)
    (settings : Settings) (watched : Bool) (setup : List Event) :
    Throughout P (start lib s₀ settings watched setup) := by
  intro script hscript
  have h : Follows s₀ .empty [] (start lib s₀ settings watched setup) :=
    follows_start hwf settings watched setup
  obtain ⟨answers, o, hplay, h'⟩ := h.gives_play hexact hscript
  obtain ⟨reps, hfaithful⟩ := h'.faithful
  exact ⟨answers, o, hplay, hP hfaithful.index⟩

/-- The oracle inside has the library and the index of the one that meets the failures. -/
theorem regardless_start (hinner : Decider.Falters inner) (hexact : Decider.Exact s₀)
    (hd : inner d₀ = s₀) (hwf : Library.Lawful.Wf lib) {P : Oracle ε δ τ → Prop}
    (hP : ∀ {pairs o}, o.index.Lists o.library pairs → P o) (settings : Settings)
    (watched : Bool) (setup : List Event) :
    Regardless P (start lib d₀ settings watched setup) := by
  intro script hscript
  have h : Follows s₀ .empty [] ((start lib d₀ settings watched setup).inside inner) :=
    follows_inside hd hwf settings watched setup
  obtain ⟨asked, h'⟩ := (h.endured hinner hexact hscript).follows
  obtain ⟨reps, hfaithful⟩ := h'.faithful
  exact hP hfaithful.index

end Start

/-! ## Building -/

theorem rejects (o : Oracle ε σ τ) : Rejects o where
  build := fun _ hn => build_of_not_contains hn
  isSatisfiable := by
    intro n hn
    rw [isSatisfiable_eq]
    exact bind_error (build_of_not_contains hn)

/-! ## Looking up -/

section LookingUp

variable {G : Generator} {n : NodeId}

omit [Decider σ τ] in
theorem entryOf?_of_none {o : Oracle ε σ τ} (h : indexOf? n o = .ok none o) :
    entryOf? n o = .ok none o := by
  unfold entryOf?
  rw [bind_ok h]
  rfl

omit [Decider σ τ] in
/-- A fault of the library in a look-up. -/
theorem indexOf?_of_structKey {o : Oracle ε σ τ} {fault : Fault}
    (h : Library.structKey o.library n = .error fault) :
    indexOf? n o = .error (.fault fault) o := by
  have hfind : o.index.find? o.library n = .error fault := by
    unfold ClassMap.find?
    rw [h]
    rfl
  show (orFault (o.index.find? o.library n) : OracleM ε σ τ _) o = _
  rw [hfind]
  rfl

/-- Signals are compared by their numbers, so a foreign one equals none that was stored. -/
theorem Aig.search_foreign {ν : Type} {a : Aig G} (hn : contains a n = false)
    {bucket : List (NodeId × ν)} (hheld : ∀ p ∈ bucket, contains a p.1 = true) :
    ClassMap.search a n bucket = .ok none := by
  induction bucket with
  | nil => rfl
  | cons p rest ih =>
    obtain ⟨m, v⟩ := p
    have hm : contains a m = true := hheld (m, v) (List.mem_cons_self ..)
    have hne : m ≠ n := by
      rintro rfl
      exact Bool.false_ne_true (hn.symm.trans hm)
    have heq : Library.structEq a m n = .ok false := congrArg Except.ok (decide_eq_false hne)
    unfold ClassMap.search
    rw [heq]
    exact ih fun p hp => hheld p (List.mem_cons_of_mem _ hp)

omit [Decider σ τ] in
theorem Aig.findsNone {pairs : List (NodeId × Nat)} {o : Oracle (Aig G) σ τ}
    (h : o.index.Lists o.library pairs) : FindsNone o := by
  have hindex : ∀ ⦃n : NodeId⦄, contains o.library n = false → indexOf? n o = .ok none o := by
    intro n hn
    apply orFault_eq
    have hkey : Library.structKey o.library n = .ok (UInt64.ofNat n.raw) := rfl
    rw [ClassMap.find?_of_structKey hkey, h.buckets]
    exact search_foreign hn fun p hp => h.held p (List.mem_filter.1 hp).1
  constructor
  case entryOf? => exact fun n hn => entryOf?_of_none (hindex hn)
  case status? => exact fun n hn => bind_ok (entryOf?_of_none (hindex hn))

/-- A node that the library does not hold has no term, and so no key. -/
theorem Nary.structKey_foreign {lib : Nary} (hn : contains lib n = false) :
    Library.structKey lib n = .error (lib.missing n) := by
  have hbounds : n.raw = 0 ∨ lib.terms.cells.size < n.raw := by
    have hnot : ¬ (1 ≤ n.raw ∧ n.raw ≤ lib.terms.cells.size) := by
      intro h
      have hheld : contains lib n = true := by
        show (decide (1 ≤ n.raw) && decide (n.raw ≤ lib.terms.cells.size)) = true
        rw [Bool.and_eq_true, decide_eq_true_iff, decide_eq_true_iff]
        exact h
      exact Bool.false_ne_true (hn.symm.trans hheld)
    omega
  have hcell : lib.terms.cell n.raw = .error (lib.missing n) := by
    unfold Arena.cell Nary.missing
    by_cases hzero : n.raw = 0
    · rw [if_pos hzero, if_pos hzero]
    · have hnone : lib.terms.cells[n.raw - 1]? = none :=
        Array.getElem?_eq_none (by omega)
      rw [if_neg hzero, if_neg hzero, hnone]
      rfl
  show ((lib.terms.value n.raw).map Keyed.key : Except Fault UInt64) = _
  unfold Arena.value
  rw [hcell]
  rfl

omit [Decider σ τ] in
theorem Nary.stumbles (o : Oracle Nary σ τ) : Stumbles Nary.missing o := by
  have hentry : ∀ ⦃n : NodeId⦄, contains o.library n = false →
      entryOf? n o = .error (.fault (o.library.missing n)) o :=
    fun n hn => bind_error (indexOf?_of_structKey (structKey_foreign hn))
  constructor
  case entryOf? => exact hentry
  case status? => exact fun n hn => bind_error (hentry hn)

end LookingUp

/-! ## Both libraries -/

/-- **Foreign handles.**  After every script, over either library and either decider, building
    a foreign handle and asking about it are refused and change nothing.  Looking it up finds
    nothing over and-inverter graphs; over n-ary formulas it always raises a fault.  It makes no
    difference whether the solver was interrupted at some of the questions before. -/
theorem foreign_refused (S : Cnf.Solver) (hS : S.Sound) (G : Generator) (s : Settings)
    (hs : s.validate = .ok ()) (watched : Bool) (setup : List Event) :
    ∃ (nary : Nary) (aig : Aig G) (bdd : Bdd),
      Nary.ofBits s.storageBits = .ok nary ∧
      Aig.ofBits s.storageBits s.seed G = .ok aig ∧
      Bdd.ofBits s.storageBits s.memoBits = .ok bdd ∧
      (let forClauses : Encoder S := Encoder.start
       Regardless (fun o => Rejects o ∧ Stumbles Nary.missing o)
          (start nary forClauses s watched setup) ∧
        Regardless (fun o => Rejects o ∧ FindsNone o) (start aig forClauses s watched setup) ∧
        (S.Exact →
          Throughout (fun o => Rejects o ∧ Stumbles Nary.missing o)
            (start nary forClauses s watched setup) ∧
          Throughout (fun o => Rejects o ∧ FindsNone o)
            (start aig forClauses s watched setup))) ∧
      Throughout (fun o => Rejects o ∧ Stumbles Nary.missing o) (start nary bdd s watched setup) ∧
      Throughout (fun o => Rejects o ∧ FindsNone o) (start aig bdd s watched setup) := by
  obtain ⟨nary, aig, bdd, hnary, haig, hbdd, hwf, hwf', hexact⟩ := Settings.exists_parts G hs
  have hlearning : Decider.Exact (Encoder.start : Encoder .learning) :=
    Encoder.exact_start Cnf.Solver.exact_learning
  have hinner := Encoder.falters Cnf.Solver.exact_learning hS
  refine ⟨nary, aig, bdd, hnary, haig, hbdd, ⟨?_, ?_, ?_⟩, ?_, ?_⟩
  · exact regardless_start hinner hlearning rfl hwf
      (fun {_ o} _ => ⟨rejects o, Nary.stumbles o⟩) s watched setup
  · exact regardless_start hinner hlearning rfl hwf'
      (fun {_ o} h => ⟨rejects o, Aig.findsNone h⟩) s watched setup
  · intro hS'
    constructor
    · exact throughout_start (Encoder.exact_start hS') hwf
        (fun {_ o} _ => ⟨rejects o, Nary.stumbles o⟩) s watched setup
    · exact throughout_start (Encoder.exact_start hS') hwf'
        (fun {_ o} h => ⟨rejects o, Aig.findsNone h⟩) s watched setup
  · exact throughout_start hexact hwf
      (fun {_ o} _ => ⟨rejects o, Nary.stumbles o⟩) s watched setup
  · exact throughout_start hexact hwf'
      (fun {_ o} h => ⟨rejects o, Aig.findsNone h⟩) s watched setup

/-- A conjunction was made and decided, and its negation was built.  Nobody gave out the
    handle 42. -/
theorem foreign_refused_conjunction :
    let s : Settings := { storageBits := 4 }
    let script : Script :=
      [.newVariable, .newVariable, .makeAll [0, 1], .isSatisfiable 2, .makeNot 2, .build 3]
    (∃ (nary : Nary) (answers : List Answer) (o : ClausalOracle),
      Nary.ofBits s.storageBits = .ok nary ∧
      play script [] (start nary Encoder.start s false []) = .ok answers o ∧
      o.entries.size = 4 ∧ contains o.library ⟨42⟩ = false ∧
      build ⟨42⟩ o = .error (.error (.unknownNode ⟨42⟩)) o ∧
      isSatisfiable ⟨42⟩ o = .error (.error (.unknownNode ⟨42⟩)) o ∧
      entryOf? ⟨42⟩ o = .error (.fault (.outOfBounds 5 42)) o ∧
      status? ⟨42⟩ o = .error (.fault (.outOfBounds 5 42)) o) ∧
    ∃ (aig : Aig) (bdd : Bdd) (answers : List Answer) (o : DiagramOracle),
      Aig.ofBits s.storageBits s.seed = .ok aig ∧
      Bdd.ofBits s.storageBits s.memoBits = .ok bdd ∧
      play script [] (start aig bdd s false []) = .ok answers o ∧
      o.entries.size = 4 ∧ contains o.library ⟨42⟩ = false ∧
      build ⟨42⟩ o = .error (.error (.unknownNode ⟨42⟩)) o ∧
      isSatisfiable ⟨42⟩ o = .error (.error (.unknownNode ⟨42⟩)) o ∧
      entryOf? ⟨42⟩ o = .ok none o ∧ status? ⟨42⟩ o = .ok none o := by
  intro s script
  have hscript : Reading.empty.Admits script := by
    simp [script, Reading.Admits, Reading.after, Reading.returned, Call.operands, Reading.empty]
  obtain ⟨nary, aig, bdd, hnary, haig, hbdd, ⟨-, -, hencoder⟩, -, hdiagram⟩ :=
    foreign_refused .learning Cnf.Solver.exact_learning.sound .xoshiro s rfl false []
  constructor
  · obtain ⟨answers, o, hplay, hrejects, hstumbles⟩ :=
      (hencoder Cnf.Solver.exact_learning).1 script hscript
    have hsizes : o.entries.size = 4 ∧ o.library.size = 4 := by
      obtain rfl := Except.ok.inj ((Nary.ofBits_eq (by decide)).symm.trans hnary)
      rw [← after_ok hplay]
      decide +kernel
    have hforeign : contains o.library ⟨42⟩ = false := by
      show (decide (1 ≤ 42) && decide (42 ≤ o.library.size)) = false
      rw [hsizes.2]
      rfl
    have hentry := hstumbles.entryOf? hforeign
    have hstatus := hstumbles.status? hforeign
    rw [Nary.missing, if_neg (by decide), hsizes.2] at hentry hstatus
    exact ⟨nary, answers, o, hnary, hplay, hsizes.1, hforeign, hrejects.build hforeign,
      hrejects.isSatisfiable hforeign, hentry, hstatus⟩
  · obtain ⟨answers, o, hplay, hrejects, hnone⟩ := hdiagram script hscript
    have hrun : (do
        let aig : Aig ← Aig.ofBits s.storageBits s.seed
        let bdd ← Bdd.ofBits s.storageBits s.memoBits
        let o := after (play script []) (start aig bdd s false [])
        return (o.entries.size, contains o.library ⟨42⟩)) = .ok (4, false) := by
      decide +kernel
    rw [haig, hbdd] at hrun
    obtain ⟨hsize, hforeign⟩ := Prod.mk.inj (Except.ok.inj hrun)
    rw [after_ok hplay] at hsize hforeign
    exact ⟨aig, bdd, answers, o, haig, hbdd, hplay, hsize, hforeign, hrejects.build hforeign,
      hrejects.isSatisfiable hforeign, hnone.entryOf? hforeign, hnone.status? hforeign⟩

/-- One variable was made, and nobody gave out the handle 42. -/
theorem lookup_foreign_variable :
    ∃ o₀ answers o, ({} : Settings).clausalOracle false = .ok o₀ ∧
      play [.newVariable] [] o₀ = .ok answers o ∧ contains o.library ⟨42⟩ = false ∧
      status? ⟨42⟩ o = .error (.fault (.outOfBounds 2 42)) o ∧
      status? ⟨42⟩ o ≠ .ok none o := by
  have hplay := ok_of_run' (a := [.node ⟨1⟩])
    (p := (play [.newVariable] [] : OracleM Nary Encoder Literal _))
    (o := start (Nary.mk (.empty 16)) Encoder.start {} false Encoder.startEvents)
    (by decide +kernel)
  generalize ho : after _ _ = o at hplay
  have hsize : o.library.size = 1 := by
    rw [← ho]
    decide +kernel
  have hforeign : contains o.library ⟨42⟩ = false := by
    show (decide (1 ≤ 42) && decide (42 ≤ o.library.size)) = false
    rw [hsize]
    rfl
  have hfault := (Nary.stumbles o).status? hforeign
  rw [Nary.missing, if_neg (by decide), hsize] at hfault
  refine ⟨_, _, o, Settings.clausalOracle_eq rfl false, hplay, hforeign, hfault, ?_⟩
  rw [hfault]
  exact nofun

end Oracle

end SatMemo
