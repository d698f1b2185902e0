import Tracemark.Cli.Report

/-! The command line program. -/

set_option autoImplicit false

open Tracemark

/-- The files that arguments name, as far as they can be read. -/
def readAll (arguments : List String) : IO (List (String × Text)) :=
  arguments.filterMapM fun (path : String) => do
    let content ← (IO.FS.readFile path).toBaseIO
    return content.toOption.map fun text => (path, text.toList)

def main (arguments : List String) : IO UInt32 := do
  match Cli.Request.ofArguments? false arguments with
  | some (.run command) =>
    let found ← readAll (command.file :: command.config.toList)
    let result := Cli.runCommand (fun path => found.lookup path) command
    IO.print (String.ofList result.output)
    IO.eprint result.errors
    return result.exitCode.toUInt32
  | _ =>
    let result := Cli.run (fun _ => none) arguments
    IO.print (String.ofList result.output)
    return result.exitCode.toUInt32
