import SatMemo.Explore.Report

/-! # The command line

    Prints the report and the time it took, and exits with the report's code. -/

namespace SatMemo

/-- Milliseconds as seconds with three places. -/
def secondsText (milliseconds : Nat) : String :=
  let rest := toString (milliseconds % 1000)
  s!"{milliseconds / 1000}." ++ "".pushn '0' (3 - rest.length) ++ rest

/-- Run a command line: the report goes to standard output, what went wrong to standard
    error. -/
def runCommandLine (args : List String) : IO UInt32 := do
  let start ← IO.monoMsNow
  let report := Report.ofArgs args
  for line in report.lines do
    IO.println line
  if report.isFinished then
    IO.println s!"total time: {secondsText ((← IO.monoMsNow) - start)} s"
  if let some problem := report.problem? then
    IO.eprintln s!"error: {problem}"
  return report.exitCode.toUInt32

end SatMemo

def main (args : List String) : IO UInt32 :=
  SatMemo.runCommandLine args
