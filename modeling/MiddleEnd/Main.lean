import MiddleEnd.CommandLine

/-!
# The program

Runs the command line on the arguments of the process.  The time shown in
the statistics is that of a first run, whose output is not used.
-/

open MiddleEnd

/-- The name under which the program introduces itself. -/
def programName : String := "middle-end"

/-- Runs the command line and writes what it leaves. -/
def main (arguments : List String) : IO UInt32 := do
  let started ← IO.monoNanosNow
  let untimed := CommandLine.run programName 0 arguments
  let written := untimed.out.utf8ByteSize + untimed.err.utf8ByteSize
  let stopped ← if written = 0 then pure started else IO.monoNanosNow
  let elapsed : Int := (stopped - started) / 1000
  let output := CommandLine.run programName elapsed arguments
  (← IO.getStdout).putStr output.out
  (← IO.getStderr).putStr output.err
  pure (UInt32.ofNat output.exitCode)
