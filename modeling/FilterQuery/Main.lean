/-
The program: arguments to an invocation, the file of its schema, and what
the invocation prints.
-/
import FilterQuery.Invocation.Arguments

namespace FilterQuery

/-- The text in a file, if the file can be read and holds valid text. -/
def readText? (path : Text) : IO (Option Text) := do
  try
    let bytes ← IO.FS.readBinFile (String.ofList path)
    return (String.fromUTF8? bytes).map String.toList
  catch _ => return none

/-- Prints what the arguments ask for, or why there is nothing to print.
The exit code is 0 for what was asked for, 1 for a failure, and 2 for
arguments that are wrong. -/
def answer (args : List Text) : IO UInt32 := do
  match Invocation.ofArguments args with
  | .error refusal =>
      let text := String.ofList refusal.message
      if refusal = .usage then
        IO.eprintln text
        return 2
      else
        IO.println text
        return 0
  | .ok i =>
      match i.run (← readText? i.schema) with
      | .ok printed =>
          IO.println (String.ofList printed)
          return 0
      | .error failure =>
          IO.eprintln ("error: " ++ String.ofList failure.message)
          return 1

end FilterQuery

def main (args : List String) : IO UInt32 :=
  FilterQuery.answer (args.map String.toList)
