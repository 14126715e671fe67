import SatMemo.Proofs.Library.Simulation
import SatMemo.Proofs.Library.Source
import SatMemo.Proofs.Oracle.Coupling
import SatMemo.Proofs.Oracle.Scripts
import SatMemo.Proofs.Oracle.Exactness

/-! # The bounded check is optional

    Two oracles over and-inverter graphs whose settings differ in the bounded
    check alone are `Paired`: they have the same nodes, the same decider and the
    same entries, and have decided as many questions.  Making and building do not
    look at anything else, and a question that one of them leaves to the check and
    the other to the decider gets one answer, since both are right. -/

namespace SatMemo

namespace Oracle

variable {G : Generator} {s s' : Settings} {o o' o₁ o₁' : DiagramOracle G} {n : NodeId} {i : Nat} {b : Bool}
  {e : Entry Edge} {make : Aig G → Grown (Aig G)}

/-- The oracles differ in the settings `s` and `s'`, in the random words, in what was checked
    and in what is only reported. -/
structure Paired (s s' : Settings) (o o' : DiagramOracle G) : Prop where
  library   : ∃ g, o'.library = o.library.withSource g
  decider   : o'.decider = o.decider
  index     : o'.index = o.index
  entries   : o'.entries = o.entries
  varCount  : o'.varCount = o.varCount
  settings  : o.settings = s
  settings' : o'.settings = s'
  decided   : o'.stats.queries + o'.stats.checkHits = o.stats.queries + o.stats.checkHits
  /-- Without the check, no question is left to it. -/
  spared    : s.precheck = false → o.stats.checkHits = 0
  spared'   : s'.precheck = false → o'.stats.checkHits = 0

/-! ## Making and building -/

theorem Paired.grow (h : Paired s s' o o') (hmake : Aig.Undrawn make) :
    (o'.grow make).1 = (o.grow make).1 ∧ Paired s s' (o.grow make).2 (o'.grow make).2 := by
  obtain ⟨g, hg⟩ := h.library
  have hgrown := hmake o.library g
  rw [grow_eq, grow_eq, hg, hgrown]
  exact ⟨rfl, ⟨g, rfl⟩, h.decider, h.index, h.entries, h.varCount, h.settings, h.settings',
    h.decided, h.spared, h.spared'⟩

theorem coupling_paired : Coupling (Paired (G := G) s s') where
  alike := by
    intro o o' h
    obtain ⟨g, hg⟩ := h.library
    refine ⟨h.index, h.entries, ?_, ?_, ?_, ?_, ?_, ?_, ?_⟩
    case refine_5 =>
      rw [hg]
      exact Aig.label_withSource o.library g
    all_goals
      rw [hg]
      rfl
  make := by
    intro q o o' h
    have hdecider := h.decider
    cases o with
    | mk library decider index entries checked varCount settings stats watched journal =>
      cases o' with
      | mk library' decider' index' entries' checked' varCount' settings' stats' watched' _ =>
        dsimp only at hdecider
        subst hdecider
        unfold Ends callDecider
        dsimp only
        rcases q.run decider' with ⟨fault | x, d, events⟩
        · exact ⟨rfl, h.library, rfl, h.index, h.entries, h.varCount, h.settings, h.settings',
            h.decided, h.spared, h.spared'⟩
        · exact ⟨rfl, h.library, rfl, h.index, h.entries, h.varCount, h.settings, h.settings',
            h.decided, h.spared, h.spared'⟩
  event := fun _ h => { h with library := h.library }
  entry := fun e h => { h with entries := congrArg (·.push e) h.entries }
  hit := fun h => { h with library := h.library }
  miss := fun _ h => { h with index := rfl }

/-! ## Consulting -/

/-- A part of a consultation that decides `count` questions and leaves the entries `es`. -/
structure Tallies (count : Nat) (es : Array (Entry Edge)) (o o' : DiagramOracle G) : Prop where
  library  : ∃ g, o'.library = o.library.withSource g
  decider  : o'.decider = o.decider
  index    : o'.index = o.index
  entries  : o'.entries = es
  varCount : o'.varCount = o.varCount
  settings : o'.settings = o.settings
  decided  : o'.stats.queries + o'.stats.checkHits = o.stats.queries + o.stats.checkHits + count
  spared   : o.settings.precheck = false → o'.stats.checkHits = o.stats.checkHits

theorem tallies_refl (o : DiagramOracle G) : Tallies 0 o.entries o o :=
  ⟨⟨o.library.source, rfl⟩, rfl, rfl, rfl, rfl, rfl, rfl, fun _ => rfl⟩

theorem Tallies.trans {k k' : Nat} {es es' : Array (Entry Edge)} {o₁ o₂ o₃ : DiagramOracle G}
    (h : Tallies k es o₁ o₂) (h' : Tallies k' es' o₂ o₃) : Tallies (k + k') es' o₁ o₃ where
  library := by
    obtain ⟨g, hg⟩ := h.library
    obtain ⟨g', hg'⟩ := h'.library
    exact ⟨g', hg'.trans (hg ▸ rfl)⟩
  decider := h'.decider.trans h.decider
  index := h'.index.trans h.index
  entries := h'.entries
  varCount := h'.varCount.trans h.varCount
  settings := h'.settings.trans h.settings
  decided := by
    rw [h'.decided, h.decided]
    omega
  spared := by
    intro hoff
    have hoff' : o₂.settings.precheck = false := h.settings ▸ hoff
    exact (h'.spared hoff').trans (h.spared hoff)

/-- Nothing is decided. -/
def aside (G : Generator) : Passage (Aig G) Bdd Edge where
  rel   := fun o o' => Tallies 0 o.entries o o'
  refl  := tallies_refl
  trans := fun h h' => h.entries ▸ h.trans h'

theorem overlooks_aside : Overlooks (aside G) where
  check := fun o _ _ => { tallies_refl o with library := ⟨_, rfl⟩ }
  checks := fun o _ => { tallies_refl o with index := rfl }
  checked := fun o _ => { tallies_refl o with index := rfl }
  journal := fun o _ => { tallies_refl o with index := rfl }

/-- The check has no verdict if it is not wanted. -/
theorem yields_checkVerdict? (n : NodeId) (o : DiagramOracle G) :
    Yields (fun _ => True) (checkVerdict? n) o fun verdict? o' =>
      Tallies 0 o.entries o o' ∧ (o.settings.precheck = false → verdict? = none) := by
  by_cases hwanted : o.settings.precheck = true
  · have hkeeps : Keeps (aside G) (fun _ => True) (checkVerdict? n) :=
      keeps_checkVerdict? overlooks_aside (fun _ => trivial) n
    apply (hkeeps.yields o).mono
    intro verdict? o' h
    exact ⟨h, fun hoff => absurd (hoff.symm.trans hwanted) Bool.false_ne_true⟩
  · have hnone : checkVerdict? n o = .ok none o := by
      show (if o.settings.precheck = true then _ else _ : OracleM (Aig G) Bdd Edge _) o = _
      rw [if_neg hwanted]
      rfl
    exact Gives.yields ⟨none, o, hnone, tallies_refl o, fun _ => rfl⟩

/-- Asking a diagram changes none. -/
theorem gives_query (x : Edge) (o : DiagramOracle G) :
    Gives (queryDecider x) o fun _ o' =>
      Tallies 1 o.entries o
        { o' with stats := { o'.stats with queries := o'.stats.queries + 1 } } := by
  have hcall : Decider.query o.decider x = ⟨.ok (.ok (Bdd.isSatisfiable x)), o.decider, []⟩ := rfl
  unfold queryDecider
  refine Gives.step (callDecider_eq hcall) (Gives.pure ?_)
  exact { tallies_refl o with decided := Nat.add_right_comm .. }

/-- Diagrams have their constant false from the start. -/
theorem gives_recordVerdict (he : o.entries[i]? = some e) (hopen : e.status = .unknown)
    (b : Bool) :
    Gives (recordVerdict i b) o fun _ o' =>
      Tallies 0 (o.entries.setIfInBounds i (e.settled .zero b)) o o' := by
  have hcall : Decider.makeFalse o.decider = ⟨.ok .zero, o.decider, []⟩ := rfl
  have hdecided : e.decided b .zero = .ok (e.settled .zero b) := Entry.decided_eq hopen b .zero
  unfold recordVerdict
  refine Gives.step (callDecider_eq hcall) (Gives.step (entryAt_eq he) ?_)
  refine Gives.step (orFault_eq hdecided) ⟨(), _, rfl, ?_⟩
  exact { tallies_refl o with entries := rfl }

/-- What a consultation of an open entry comes to, if it comes to a verdict. -/
theorem yields_consult_open (he : o.entries[i]? = some e) (hopen : e.status = .unknown) :
    Yields (fun _ => True) (consult n i) o fun b o' =>
      Tallies 1 (o.entries.setIfInBounds i (e.settled .zero b)) o o' := by
  have hrecord {o₁ : DiagramOracle G} (b : Bool) (h₁ : Tallies 1 o.entries o o₁) :
      Yields (fun _ => True) (recordVerdict i b >>= fun _ => pure b) o₁ fun b o' =>
        Tallies 1 (o.entries.setIfInBounds i (e.settled .zero b)) o o' := by
    apply Yields.bind (gives_recordVerdict (h₁.entries ▸ he) hopen b).yields
    intro _ o₂ h₂
    rw [h₁.entries] at h₂
    exact Gives.yields (Gives.pure (h₁.trans h₂))
  have hunknown : e.status.verdict? = none := by
    rw [hopen]
    rfl
  unfold consult
  refine Yields.step (entryAt_eq he) ?_
  rw [hunknown]
  apply (yields_checkVerdict? n o).bind
  intro verdict? o₁ ⟨h₁, hoff⟩
  cases verdict? with
  | some b =>
    -- The check has a verdict, so it was wanted.
    have hcounted : Tallies 1 o.entries o
        { o₁ with stats := { o₁.stats with checkHits := o₁.stats.checkHits + 1 } } :=
      { h₁ with
        decided := congrArg (· + 1) h₁.decided
        spared := fun h => nomatch hoff h }
    exact Yields.step rfl (hrecord b hcounted)
  | none =>
    apply Yields.bind (gives_query e.object o₁).yields
    intro b o₂ h₂
    refine Yields.step rfl ?_
    have hreport : Keeps (aside G) (fun _ => True) (reportQuery n b) :=
      keeps_reportQuery overlooks_aside (fun _ => trivial) n b
    apply (hreport.yields _).bind
    intro _ o₃ h₃
    have h₃ : Tallies 0 o₂.entries _ o₃ := h₃
    have hentries : o₂.entries = o.entries := h₂.entries.trans h₁.entries
    rw [hentries] at h₃
    exact hrecord b ((h₁.trans h₂).trans h₃)

/-- A verdict that is known is given as it is. -/
theorem consult_known {v : Bool} (he : o.entries[i]? = some e) (hv : e.status.verdict? = some v) :
    consult n i o = .ok v o := by
  unfold consult
  rw [bind_ok (entryAt_eq he), hv]
  rfl

/-! ## Both sides -/

/-- Paired oracles that come to the same verdict are paired again. -/
theorem Paired.consult (h : Paired s s' o o') (hp : consult n i o = .ok b o₁)
    (hp' : consult n i o' = .ok b o₁') : Paired s s' o₁ o₁' := by
  cases he : o.entries[i]? with
  | none =>
    have herror : Oracle.consult n i o = .error (.fault (.outOfBounds o.entries.size i)) o :=
      bind_error (entryAt_eq_error he)
    cases herror.symm.trans hp
  | some e =>
    have he' : o'.entries[i]? = some e := h.entries ▸ he
    cases hv : e.status.verdict? with
    | some v =>
      cases (consult_known he hv).symm.trans hp
      cases (consult_known he' hv).symm.trans hp'
      exact h
    | none =>
      have hopen := Status.eq_unknown_of_verdict? hv
      have h₁ := (yields_consult_open he hopen).of_ok hp
      have h₁' := (yields_consult_open he' hopen).of_ok hp'
      constructor
      case library =>
        obtain ⟨g, hg⟩ := h.library
        obtain ⟨g₁, hg₁⟩ := h₁.library
        obtain ⟨g₁', hg₁'⟩ := h₁'.library
        rw [hg₁', hg, hg₁]
        exact ⟨g₁', rfl⟩
      case decider => rw [h₁'.decider, h.decider, h₁.decider]
      case index => rw [h₁'.index, h.index, h₁.index]
      case entries => rw [h₁'.entries, h.entries, h₁.entries]
      case varCount => rw [h₁'.varCount, h.varCount, h₁.varCount]
      case settings => exact h₁.settings.trans h.settings
      case settings' => exact h₁'.settings.trans h.settings'
      case decided => rw [h₁'.decided, h.decided, h₁.decided]
      case spared =>
        intro hoff
        exact (h₁.spared (h.settings ▸ hoff)).trans (h.spared hoff)
      case spared' =>
        intro hoff
        exact (h₁'.spared (h.settings' ▸ hoff)).trans (h.spared' hoff)

theorem Paired.making {f : DiagramOracle G → NodeId × DiagramOracle G} {a a' : Answer}
    (hmade : (f o').1 = (f o).1 ∧ Paired s s' (f o).2 (f o').2)
    (hp : making f o = .ok a o₁) (hp' : making f o' = .ok a' o₁') :
    a' = a ∧ Paired s s' o₁ o₁' := by
  cases hp
  cases hp'
  exact ⟨congrArg Answer.node hmade.1, hmade.2⟩

/-- A new variable has the same name on both sides. -/
theorem Paired.newVariable (h : Paired s s' o o') :
    (Oracle.newVariable o').1 = (Oracle.newVariable o).1 ∧
      Paired s s' (Oracle.newVariable o).2 (Oracle.newVariable o').2 := by
  have hcounted : Paired s s' { o with varCount := o.varCount + 1 }
      { o' with varCount := o'.varCount + 1 } :=
    { h with varCount := congrArg (· + 1) h.varCount }
  have hgrown := hcounted.grow (Aig.undrawn_variable (variableName o.varCount))
  unfold Oracle.newVariable
  rw [h.varCount] at hgrown ⊢
  exact hgrown

section Scripts

variable {s₀ : Bdd} {r : Reading} {answers : List Answer}

/-- A call on paired oracles for which the same reading holds. -/
theorem Paired.perform (h : Paired s s' o o') (hexact : Decider.Exact s₀)
    (hf : Follows s₀ r answers o) (hf' : Follows s₀ r answers o') (c : Call Nat)
    (hc : ∀ k ∈ c.operands, k < r.handles.length) :
    Gives (perform (c.map (handle answers))) o fun a o₁ =>
      Gives (perform (c.map (handle answers))) o' fun a' o₁' =>
        a' = a ∧ Paired s s' o₁ o₁' ∧ Follows s₀ (r.after c) (answers ++ [a]) o₁ ∧
          Follows s₀ (r.after c) (answers ++ [a]) o₁' := by
  obtain ⟨a, o₁, hp, hf₁⟩ := hf.gives_perform hexact c hc
  obtain ⟨a', o₁', hp', hf₁'⟩ := hf'.gives_perform hexact c hc
  suffices hsame : a' = a ∧ Paired s s' o₁ o₁' by
    obtain ⟨rfl, hpaired⟩ := hsame
    exact ⟨a', o₁, hp, a', o₁', hp', rfl, hpaired, hf₁, hf₁'⟩
  cases c with
  | makeTrue => exact Paired.making (h.grow Aig.undrawn_true) hp hp'
  | makeFalse => exact Paired.making (h.grow Aig.undrawn_false) hp hp'
  | newVariable => exact Paired.making h.newVariable hp hp'
  | makeNot k => exact Paired.making (h.grow (Aig.undrawn_not _)) hp hp'
  | makeAnd j k => exact Paired.making (h.grow (Aig.undrawn_and _)) hp hp'
  | makeOr j k => exact Paired.making (h.grow (Aig.undrawn_or _)) hp hp'
  | makeAll ks => exact Paired.making (h.grow (Aig.undrawn_and _)) hp hp'
  | makeAny ks => exact Paired.making (h.grow (Aig.undrawn_or _)) hp hp'
  | build k =>
    have hbuild : Couples (Paired (G := G) s s') (Oracle.perform (.build (handle answers k)))
        (Oracle.perform (.build (handle answers k))) :=
      (coupling_paired.build _).bind fun i => Couples.pure (Answer.entry i)
    exact hbuild.of_ok h hp hp'
  | isSatisfiable k =>
    obtain ⟨b, o₂, hask, hverdict⟩ := exists_of_bind_ok hp
    obtain ⟨b', o₂', hask', hverdict'⟩ := exists_of_bind_ok hp'
    cases hverdict
    cases hverdict'
    -- Both answers are the one that is right.
    have hb : b' = b := by
      have hverdicts := hf₁'.verdicts.trans hf₁.verdicts.symm
      unfold verdicts at hverdicts
      rw [List.filterMap_append, List.filterMap_append] at hverdicts
      have hlast := List.append_cancel_left hverdicts
      exact (List.cons.inj hlast).1
    subst hb
    obtain ⟨i, o₃, hbuild, hconsult⟩ := exists_of_bind_ok hask
    obtain ⟨i', o₃', hbuild', hconsult'⟩ := exists_of_bind_ok hask'
    obtain ⟨rfl, hpaired⟩ := (coupling_paired.build _).of_ok h hbuild hbuild'
    exact ⟨rfl, hpaired.consult hconsult hconsult'⟩

/-- A script on paired oracles, and how far it has come after `k` calls. -/
theorem Paired.play (h : Paired s s' o o') (hexact : Decider.Exact s₀)
    (hf : Follows s₀ r answers o) (hf' : Follows s₀ r answers o') {script : Script}
    (hscript : r.Admits script) :
    ∃ more : List Answer, ∀ k, ∃ o₁ o₁',
      play (script.take k) answers o = .ok (answers ++ more.take k) o₁ ∧
      play (script.take k) answers o' = .ok (answers ++ more.take k) o₁' ∧ Paired s s' o₁ o₁' := by
  induction script generalizing r answers o o' with
  | nil =>
    refine ⟨[], fun k => ⟨o, o', ?_⟩⟩
    rw [List.take_nil, List.take_nil, List.append_nil]
    exact ⟨rfl, rfl, h⟩
  | cons c script ih =>
    obtain ⟨hc, hscript⟩ := hscript
    obtain ⟨_, o₁, hp, a, o₁', hp', rfl, h₁, hf₁, hf₁'⟩ := h.perform hexact hf hf' c hc
    obtain ⟨more, hplay⟩ := ih h₁ hf₁ hf₁' hscript
    refine ⟨a :: more, fun k => ?_⟩
    cases k with
    | zero =>
      rw [List.take_zero, List.take_zero, List.append_nil]
      exact ⟨o, o', rfl, rfl, h⟩
    | succ k =>
      obtain ⟨o₂, o₂', hrun, hrun', h₂⟩ := hplay k
      rw [List.append_assoc] at hrun hrun'
      exact ⟨o₂, o₂', (bind_ok hp).trans hrun, (bind_ok hp').trans hrun', h₂⟩

end Scripts

/-! ## New oracles -/

theorem paired_start (aig : Aig G) (g : G.State) (bdd : Bdd) (watched : Bool) :
    Paired s s' (start aig bdd s watched []) (start (aig.withSource g) bdd s' watched []) :=
  ⟨⟨g, rfl⟩, rfl, rfl, rfl, rfl, rfl, rfl, rfl, fun _ => rfl, fun _ => rfl⟩

/-- **The bounded check is only an optimisation.**  Of two oracles over diagrams whose
    settings differ in the bounded check alone, every script gets the same answers, and after
    any number `k` of its calls they have the same entries, which are about the same
    diagrams, and have decided as many questions.  If the first leaves none to the check, it
    has put as many queries as the second has put or saved.  It makes no difference which
    words `G` draws for the check. -/
theorem precheck_optional (G : Generator) (s : Settings) (hs : s.validate = .ok ()) (precheck : Bool)
    (patterns : Nat) (seed : UInt64) (watched : Bool) (script : Script)
    (hscript : Reading.empty.Admits script) :
    ∃ o₀ o₀' : DiagramOracle G, s.diagramOracle watched G = .ok o₀ ∧
      { s with precheck, patterns, seed }.diagramOracle watched G = .ok o₀' ∧
      ∃ answers : List Answer, ∀ k, ∃ o o', play (script.take k) [] o₀ = .ok (answers.take k) o ∧
        play (script.take k) [] o₀' = .ok (answers.take k) o' ∧
        o'.entries = o.entries ∧ o'.decider = o.decider ∧
        o'.stats.queries + o'.stats.checkHits = o.stats.queries + o.stats.checkHits ∧
        (s.precheck = false → o.stats.queries = o'.stats.queries + o'.stats.checkHits) := by
  obtain ⟨bdd, hexact, hnew⟩ := Settings.exists_diagramOracle (G := G) hs watched
  have hfollows (settings : Settings) (seed : UInt64) : Follows bdd .empty []
      (start (Aig.mk (.empty s.storageBits) 0 (G.ofSeed seed)) bdd settings watched []) :=
    follows_start (Aig.wf_empty _ _) settings watched []
  have hpaired : Paired s { s with precheck, patterns, seed }
      (start (Aig.mk (.empty s.storageBits) 0 (G.ofSeed s.seed)) bdd s watched [])
      (start (Aig.mk (.empty s.storageBits) 0 (G.ofSeed seed)) bdd
        { s with precheck, patterns, seed } watched []) :=
    paired_start _ _ bdd watched
  refine ⟨_, _, hnew s.precheck s.patterns s.seed, hnew precheck patterns seed, ?_⟩
  obtain ⟨answers, hplay⟩ := hpaired.play hexact (hfollows _ _) (hfollows _ _) hscript
  refine ⟨answers, fun k => ?_⟩
  obtain ⟨o, o', hrun, hrun', h⟩ := hplay k
  refine ⟨o, o', hrun, hrun', h.entries, h.decider, h.decided, ?_⟩
  intro hoff
  have hspared := h.spared hoff
  have hdecided := h.decided
  omega

/-- A variable is asked about, with the check and without. -/
theorem precheck_optional_newVariable :
    ∃ (o₀ o₀' o o' : DiagramOracle) (answers : List Answer),
      ({} : Settings).diagramOracle false = .ok o₀ ∧
      ({ precheck := true } : Settings).diagramOracle false = .ok o₀' ∧
      play [.newVariable, .isSatisfiable 0] [] o₀ = .ok answers o ∧
      play [.newVariable, .isSatisfiable 0] [] o₀' = .ok answers o' ∧
      o'.entries = o.entries ∧ o.stats.queries = o'.stats.queries + o'.stats.checkHits := by
  obtain ⟨o₀, o₀', hnew, hnew', answers, hplay⟩ :=
    precheck_optional .xoshiro {} rfl true 8 0x5eed false [.newVariable, .isSatisfiable 0]
      (by simp [Reading.Admits, Reading.after, Reading.returned, Call.operands, Reading.empty])
  obtain ⟨o, o', hrun, hrun', hentries, -, -, hqueries⟩ := hplay 2
  refine ⟨o₀, o₀', o, o', answers.take 2, hnew, ?_, hrun, ?_, hentries, ?_⟩
  · exact hnew'
  · exact hrun'
  · exact hqueries rfl

end Oracle

end SatMemo
