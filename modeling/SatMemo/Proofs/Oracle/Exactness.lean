import SatMemo.Oracle.Engine
import SatMemo.Proofs.Bdd.Exact
import SatMemo.Proofs.Cnf.Exact
import SatMemo.Proofs.Library.Nary
import SatMemo.Proofs.Library.Simulation
import SatMemo.Proofs.Oracle.Scripts

/-! # Oracles are exact

    With valid settings both libraries and both deciders can be had, and so can
    the oracles of the two families.  The bounded check has no part in the
    decider that an oracle over diagrams starts with.

    Both libraries are lawful and both deciders are exact, so each library may be
    joined with each decider. -/

namespace SatMemo

/-! ## New oracles -/

namespace Settings

variable {s : Settings} {S : Cnf.Solver} {G : Generator}

theorem bits_le (hs : s.validate = .ok ()) : s.storageBits ≤ 31 ∧ s.memoBits ≤ 31 := by
  unfold validate at hs
  split at hs
  · cases hs
  · split at hs
    · cases hs
    · omega

/-- Both libraries and both deciders can be had new, the former well-formed and the latter
    exact. -/
theorem exists_parts (G : Generator) (hs : s.validate = .ok ()) :
    ∃ (nary : Nary) (aig : Aig G) (bdd : Bdd),
      Nary.ofBits s.storageBits = .ok nary ∧
      Aig.ofBits s.storageBits s.seed G = .ok aig ∧
      Bdd.ofBits s.storageBits s.memoBits = .ok bdd ∧
      Library.Lawful.Wf nary ∧ Library.Lawful.Wf aig ∧ Decider.Exact bdd := by
  obtain ⟨hstorage, hmemo⟩ := bits_le hs
  obtain ⟨bdd, hbdd⟩ := Bdd.exists_ofBits_eq_ok hstorage hmemo
  exact ⟨_, _, bdd, Nary.ofBits_eq hstorage, Aig.ofBits_eq hstorage s.seed, hbdd,
    Nary.wf_empty _, Aig.wf_empty _ _, Bdd.exact_of_ofBits hbdd⟩

theorem checked_eq (hs : s.validate = .ok ()) : s.checked = .ok s := by
  unfold checked
  rw [hs]

theorem clausalOracle_eq (hs : s.validate = .ok ()) (watched : Bool) :
    s.clausalOracle watched S
      = .ok (.start (Nary.mk (.empty s.storageBits)) Encoder.start s watched
          Encoder.startEvents) := by
  unfold clausalOracle
  rw [checked_eq hs]
  simp only [bind, Except.bind]
  rw [Nary.ofBits_eq (bits_le hs).1]
  rfl

/-- Oracles over diagrams, for settings that differ in the bounded check alone. -/
theorem exists_diagramOracle (hs : s.validate = .ok ()) (watched : Bool) :
    ∃ bdd : Bdd, Decider.Exact bdd ∧ ∀ precheck patterns seed,
      { s with precheck, patterns, seed }.diagramOracle watched G
        = .ok (.start (Aig.mk (.empty s.storageBits) 0 (G.ofSeed seed)) bdd
            { s with precheck, patterns, seed } watched []) := by
  obtain ⟨hstorage, hmemo⟩ := bits_le hs
  obtain ⟨bdd, hbdd⟩ := Bdd.exists_ofBits_eq_ok hstorage hmemo
  refine ⟨bdd, Bdd.exact_of_ofBits hbdd, ?_⟩
  intro precheck patterns seed
  have hvalid : { s with precheck, patterns, seed }.validate = .ok () := hs
  unfold diagramOracle
  rw [checked_eq hvalid]
  simp only [bind, Except.bind]
  rw [Aig.ofBits_eq hstorage, hbdd]
  rfl

end Settings

/-! ## Exactness -/

namespace Oracle

/-- **Oracles are exact.**  Let the solver behind the encoder be exact.  With valid settings, new
    libraries and new deciders can be had, and an oracle over one of the libraries and one of
    the deciders answers every script rightly.  The verdicts that are right depend on the script
    alone: two such oracles give the same, whatever their settings are. -/
theorem fresh_exact (S : Cnf.Solver) (hS : S.Exact) (G : Generator) (s : Settings)
    (hs : s.validate = .ok ()) (watched : Bool) (setup : List Event) :
    ∃ (nary : Nary) (aig : Aig G) (bdd : Bdd),
      Nary.ofBits s.storageBits = .ok nary ∧
      Aig.ofBits s.storageBits s.seed G = .ok aig ∧
      Bdd.ofBits s.storageBits s.memoBits = .ok bdd ∧
      Exact (start nary (Encoder.start : Encoder S) s watched setup) ∧
      Exact (start nary bdd s watched setup) ∧
      Exact (start aig (Encoder.start : Encoder S) s watched setup) ∧
      Exact (start aig bdd s watched setup) := by
  obtain ⟨nary, aig, bdd, hnary, haig, hbdd, hwf, hwf', hexact⟩ := Settings.exists_parts G hs
  refine ⟨nary, aig, bdd, hnary, haig, hbdd, ?_, ?_, ?_, ?_⟩
  · exact exact_start (Encoder.exact_start hS) hwf s watched setup
  · exact exact_start hexact hwf s watched setup
  · exact exact_start (Encoder.exact_start hS) hwf' s watched setup
  · exact exact_start hexact hwf' s watched setup

/-- No assignment makes a variable and its complement true: the solver that learns finds that out,
    and so does a diagram. -/
theorem fresh_exact_contradiction :
    let script : Script := [.newVariable, .makeNot 0, .makeAnd 0 1, .isSatisfiable 2]
    ∃ (nary : Nary) (aig : Aig) (bdd : Bdd),
      (∃ answers o, play script [] (start nary (Encoder.start : Encoder .learning) {} false [])
        = .ok answers o ∧ verdicts answers = [false]) ∧
      ∃ answers o, play script [] (start aig bdd {} false []) = .ok answers o ∧
        verdicts answers = [false] := by
  intro script
  obtain ⟨nary, aig, bdd, -, -, -, hclausal, -, -, hdiagram⟩ :=
    fresh_exact .learning Cnf.Solver.exact_learning .xoshiro {} rfl false []
  have hscript : Reading.empty.Admits script := by
    simp [script, Reading.Admits, Reading.after, Reading.returned, Call.operands, Reading.empty]
  have hnone : ¬ (BoolFn.all [.var 0, (BoolFn.var 0).not]).Satisfiable := by
    rintro ⟨α, hα⟩
    cases h : α 0 <;> simp [BoolFn.all_apply, h] at hα
  classical
  have hright : (Reading.empty.run script).asked.map (fun F => decide F.Satisfiable) = [false] :=
    congrArg (· :: []) (decide_eq_false hnone)
  obtain ⟨answers, o, hplay, hagrees⟩ := hclausal script hscript
  obtain ⟨answers', o', hplay', hagrees'⟩ := hdiagram script hscript
  exact ⟨nary, aig, bdd, ⟨answers, o, hplay, hagrees.verdicts.trans hright⟩,
    answers', o', hplay', hagrees'.verdicts.trans hright⟩

end Oracle

end SatMemo
