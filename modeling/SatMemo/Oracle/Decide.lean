import SatMemo.Oracle.Build

/-! # Deciding formulas

    A verdict is looked up before it is worked out.  If it has to be, the
    library's bounded check may save the query to the decider; either way the
    verdict is recorded, and an unsatisfiable formula's object becomes the
    constant false. -/

namespace SatMemo

namespace Oracle

variable {ε σ τ : Type} [Library ε] [Decider σ τ]

/-- Record a verdict in an entry. -/
def recordVerdict (i : Nat) (satisfiable : Bool) : OracleM ε σ τ Unit := do
  let falsity ← callDecider Decider.makeFalse
  let e ← orFault ((← entryAt i).decided satisfiable falsity)
  modify fun o => { o with entries := o.entries.setIfInBounds i e }

/-- The outcome of the bounded check of a formula, which is run once for each class. -/
def checkStatus (n : NodeId) : OracleM ε σ τ Status := do
  let o ← get
  match ← orFault (o.checked.find? o.library n) with
  | some status => return status
  | none        =>
      let status ← callLibrary fun lib => Library.checkBounded lib n o.settings.patterns
      modify fun o => { o with stats := { o.stats with checks := o.stats.checks + 1 } }
      report (.checked n status)
      let o ← get
      let checked ← orFault (o.checked.insert o.library n status)
      set { o with checked }
      return status

/-- The verdict of the bounded check, if it is wanted and has one. -/
def checkVerdict? (n : NodeId) : OracleM ε σ τ (Option Bool) := do
  if (← get).settings.precheck then
    return (← checkStatus n).verdict?
  else
    return none

/-- The verdict of the decider on an object. -/
def queryDecider (object : τ) : OracleM ε σ τ Bool := do
  match ← callDecider fun d => Decider.query d object with
  | .ok satisfiable => return satisfiable
  | .error error    => throw (.error (.decider error))

/-- Report an answered query, if it is to be reported and somebody reads it. -/
def reportQuery (n : NodeId) (satisfiable : Bool) : OracleM ε σ τ Unit := do
  let o ← get
  if 4 < o.settings.verbosity && o.watched then
    report (.asked (← ask fun lib => Library.print lib n) satisfiable)

/-- Is a formula satisfiable? -/
def isSatisfiable (n : NodeId) : OracleM ε σ τ Bool := do
  let i ← build n
  let e ← entryAt i
  match e.status.verdict? with
  | some satisfiable => return satisfiable
  | none             =>
      match ← checkVerdict? n with
      | some satisfiable =>
          modify fun o =>
            { o with stats := { o.stats with checkHits := o.stats.checkHits + 1 } }
          recordVerdict i satisfiable
          return satisfiable
      | none =>
          let satisfiable ← queryDecider e.object
          modify fun o => { o with stats := { o.stats with queries := o.stats.queries + 1 } }
          reportQuery n satisfiable
          recordVerdict i satisfiable
          return satisfiable

end Oracle

end SatMemo
