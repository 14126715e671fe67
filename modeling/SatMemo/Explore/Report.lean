import SatMemo.Explore.Options

/-! # The report of an exploration

    What the command line prints: the options first, then, if all went well, the
    numbers of paths and what the memory was good for. -/

namespace SatMemo

/-- The counts on one line. -/
def Stats.text (s : Stats) : String :=
  "Stats \x7b " ++ ", ".intercalate
    [s!"hits: {s.hits}", s!"misses: {s.misses}", s!"solver_calls: {s.queries}",
     s!"precheck_calls: {s.checks}", s!"precheck_hits: {s.checkHits}"] ++ " \x7d"

/-- The lines about a finished exploration. -/
def Exploration.lines {S : Cnf.Solver} {G : Generator} (x : Exploration S G) (inputs : Nat) :
    List String :=
  [s!"backend: {x.engine.family.name}",
   s!"inputs: {inputs}",
   s!"feasible paths: {x.feasible}",
   s!"pruned paths: {x.pruned}",
   s!"cache entries: {x.engine.entryCount}",
   s!"stats: {x.engine.stats.text}"]

/-- What a run of the command line comes to. -/
structure Report where
  exitCode : UInt8
  lines    : List String
  /-- What went wrong, if something did. -/
  problem? : Option String := none

/-- The exit code for a problem: a fault ends the run harder than an error does. -/
def Exploration.Problem.exitCode : Exploration.Problem → UInt8
  | .stop (.fault _) => 101
  | .stop (.error _) => 1
  | .noInputs _      => 1

namespace Report

/-- Is there an exploration to report on? -/
def isFinished (r : Report) : Bool :=
  r.exitCode = 0 && !r.lines.isEmpty

/-- Explore the random program that the options describe. -/
def ofOptions (o : Options) : Report :=
  let args := s!"args = {o.text}"
  match o.settings with
  | .error error => { exitCode := 1, lines := [args], problem? := some error.message }
  | .ok settings =>
      match Exploration.ofSettings settings o.program with
      | .error problem =>
          { exitCode := problem.exitCode, lines := [args], problem? := some problem.message }
      | .ok x          => { exitCode := 0, lines := args :: x.lines o.vars }

/-- Run a command line. -/
def ofArgs (args : List String) : Report :=
  match Options.ofArgs args with
  | .ok o               => ofOptions o
  | .error .information => { exitCode := 0, lines := [] }
  | .error .usage       =>
      { exitCode := 2, lines := [], problem? := some "these arguments are not understood" }

end Report

end SatMemo
