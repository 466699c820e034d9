import Stencil.CommandLine

/-!
# The program

Reads the command line, files and the standard input, and writes what the run gives. Bytes that are
no UTF-8 count as unreadable.

## Main definitions

* `main`: the program.
-/

open Stencil

/-- The text of a file, if it can be read. -/
def readFileText? (path : String) : IO (Option String) := do
  try
    return String.fromUTF8? (← IO.FS.readBinFile path)
  catch _ =>
    return none

/-- The text of the standard input, if it can be read. -/
def readInputText? : IO (Option String) := do
  try
    return String.fromUTF8? (← (← IO.getStdin).readBinToEnd)
  catch _ =>
    return none

/-- Runs the command line. -/
def main (args : List String) : IO UInt32 := do
  let outcome ← CommandLine.run ⟨readFileText?, readInputText?⟩ args
  for report in outcome.reports do
    IO.eprintln report.header
    IO.eprintln ("  " ++ report.location)
  if let some failure := outcome.failure then
    IO.eprint failure.message
  IO.print outcome.output
  return outcome.exitCode.toUInt32
