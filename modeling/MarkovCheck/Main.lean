import MarkovCheck.Demo

/-!
# Command line

`check` takes a formula and the switches `--dot` and `--iterative`; `tour` takes nothing.
-/

open MarkovCheck

/-- Runs the demonstration named by the first argument. -/
def main (args : List String) : IO UInt32 := do
  let outcome := match args with
    | "tour" :: _ => Demo.tour
    | "check" :: rest => Demo.check rest
    | rest => Demo.check rest
  IO.print outcome.printed
  return UInt32.ofNat outcome.code
