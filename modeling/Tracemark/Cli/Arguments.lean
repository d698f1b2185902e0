import Tracemark.Offsets.Settings

/-! Command line arguments.

A command takes one document and options in any order. An option that takes a value takes it from
the same argument, behind an equals sign, or from the next one. Each option may be given once.
Behind `--` an argument is never an option. Before the command, short flags may share one hyphen.
-/

set_option autoImplicit false

namespace Tracemark.Cli

open Tracemark.Alignment (Strategy)

inductive Action where
  /-- The document as HTML, with or without offsets. -/
  | render (offsets : Bool)
  /-- The annotated elements. -/
  | spans
  /-- The lines and how they were aligned. -/
  | index
  deriving DecidableEq, Repr

structure Command where
  action : Action
  file : String
  debug : Bool := false
  strategy : Option Strategy := none
  config : Option String := none
  deriving DecidableEq, Repr

inductive Request where
  | run (command : Command)
  | version
  deriving DecidableEq, Repr

inductive CommandName where
  | render
  | spans
  | index
  deriving DecidableEq, Repr

def CommandName.ofString? : String → Option CommandName
  | "render" => some render
  | "spans" => some spans
  | "index" => some index
  | _ => none

structure Gathered where
  verbose : Bool := false
  debug : Bool := false
  noOffsets : Bool := false
  strategy : Option Strategy := none
  config : Option String := none
  file : Option String := none
  deriving DecidableEq, Repr

namespace Gathered

def setFlag? (gathered : Gathered) (name : CommandName) (flag : String) : Option Gathered :=
  match flag with
  | "--verbose" => if gathered.verbose then none else some { gathered with verbose := true }
  | "--debug" => if gathered.debug then none else some { gathered with debug := true }
  | "--no-offsets" =>
    if gathered.noOffsets ∨ name ≠ .render then none else some { gathered with noOffsets := true }
  | _ => none

def setOption? (gathered : Gathered) (option value : String) : Option Gathered :=
  match option, value with
  | "--strategy", "diff" =>
    if gathered.strategy.isSome then none else some { gathered with strategy := some .diff }
  | "--strategy", "sequential" =>
    if gathered.strategy.isSome then none else some { gathered with strategy := some .sequential }
  | "--config", path =>
    if gathered.config.isSome ∨ path = "" then none else some { gathered with config := some path }
  | _, _ => none

def setFile? (gathered : Gathered) (path : String) : Option Gathered :=
  if gathered.file.isSome ∨ path = "" then none else some { gathered with file := some path }

def toCommand? (gathered : Gathered) (name : CommandName) : Option Command :=
  gathered.file.map fun file =>
    { action :=
        match name with
        | .render => .render !gathered.noOffsets
        | .spans => .spans
        | .index => .index
      file
      debug := gathered.debug
      strategy := gathered.strategy
      config := gathered.config }

end Gathered

/-- An argument that starts with a hyphen and is more than that hyphen. -/
def isOption (argument : String) : Bool :=
  match argument.toList with
  | '-' :: _ :: _ => true
  | _ => false

def splitOption (argument : String) : String × Option String :=
  let characters := argument.toList
  match characters.dropWhile (· ≠ '=') with
  | [] => (argument, none)
  | _ :: value => (String.ofList (characters.takeWhile (· ≠ '=')), some (String.ofList value))

def takesValue (option : String) : Bool := option = "--strategy" || option = "--config"

inductive Token where
  | flag (name : String)
  | option (name value : String)
  | file (path : String)
  deriving DecidableEq, Repr

/-- Split the arguments behind the name of a command. `pending` is an option that waits for its
value. -/
def tokens? (pending : Option String) : List String → Option (List Token)
  | [] => if pending.isSome then none else some []
  | argument :: rest =>
    match pending with
    | some name =>
      if isOption argument then none
      else (tokens? none rest).map (.option name argument :: ·)
    | none =>
      if argument = "--" then some (rest.map .file)
      else if argument = "-v" then (tokens? none rest).map (.flag "--verbose" :: ·)
      else if isOption argument then
        match splitOption argument with
        | (name, some value) => (tokens? none rest).map (.option name value :: ·)
        | (name, none) =>
          if takesValue name then tokens? (some name) rest
          else (tokens? none rest).map (.flag name :: ·)
      else (tokens? none rest).map (.file argument :: ·)

def Gathered.add? (name : CommandName) (gathered : Gathered) : Token → Option Gathered
  | .flag flag => gathered.setFlag? name flag
  | .option option value => gathered.setOption? option value
  | .file path => gathered.setFile? path

def Command.ofArguments? (name : CommandName) (arguments : List String) : Option Command := do
  let gathered ← (← tokens? none arguments).foldlM (Gathered.add? name) {}
  gathered.toCommand? name

inductive Opening where
  | verbose (isSet : Bool)
  | version
  deriving DecidableEq, Repr

def Opening.ofLetters? (verbose : Bool) : List Char → Option Opening
  | [] => some (.verbose verbose)
  | 'v' :: letters => if verbose then none else ofLetters? true letters
  -- What stands behind a flag for the version is not read.
  | 'V' :: _ => some .version
  | _ => none

def Opening.ofArgument? (verbose : Bool) (argument : String) : Option Opening :=
  match argument with
  | "--verbose" => if verbose then none else some (.verbose true)
  | "--version" => some .version
  | argument => ofLetters? verbose (argument.toList.drop 1)

/-- Read all arguments. Before the command only the flags that every command knows may stand. -/
def Request.ofArguments? (verbose : Bool) : List String → Option Request
  | [] => none
  | argument :: rest =>
    if isOption argument then
      match Opening.ofArgument? verbose argument with
      | some (.verbose verbose) => ofArguments? verbose rest
      | some .version => some .version
      | none => none
    else do
      let name ← CommandName.ofString? argument
      return .run (← Command.ofArguments? name rest)

end Tracemark.Cli
