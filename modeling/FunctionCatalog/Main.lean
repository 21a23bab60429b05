import FunctionCatalog.Demo

/-
  FunctionCatalog: the command line prints the demonstration.
-/

open FunctionCatalog in
def main : IO UInt32 := do
  match (Demo.transcript.run.run {}).1 with
  | .ok text =>
    IO.print text
    return 0
  | .error fault =>
    IO.eprintln (fault.message?.getD "The demonstration failed.")
    return 1
