import Tracemark.Cli.Arguments
import Tracemark.Json
import Tracemark.Offsets.Attributor
import Tracemark.Offsets.SettingsFile

/-! What commands print.

A run is a function of the arguments and of what files hold. It ends with text to print, with a
message about what went wrong, or with nothing when the arguments ask for no command.
-/

set_option autoImplicit false

namespace Tracemark.Cli

open Tracemark.Alignment (EditKind EditOp RestoreMap Strategy)
open Tracemark.Offsets (LineRecord NodeSpan Settings Tracker)

inductive Result where
  | printed (text : Text)
  | failed (message : String)
  | misused
  deriving DecidableEq, Repr

namespace Result

def exitCode : Result → Nat
  | printed _ => 0
  | failed _ => 1
  | misused => 2

def output : Result → Text
  | printed text => text
  | _ => []

def errors : Result → String
  | failed message => "Error: " ++ message ++ "\n"
  | _ => ""

end Result

abbrev Files := String → Option Text

def versionLine : Text := "blockdoc 0.1.0\n".toList

def strategyName : Strategy → Text
  | .diff => "diff".toList
  | .sequential => "sequential".toList

def kindName : EditKind → Text
  | .equal => "equal".toList
  | .replace => "replace".toList
  | .delete => "delete".toList
  | .insert => "insert".toList

def spanReport (source : Text) (span : NodeSpan) : Json :=
  .object [
    ("tag", .string span.tag.toList),
    ("start", .number span.start),
    ("end", .number span.stop),
    ("start_accurate", .optional .bool span.startAccurate),
    ("end_accurate", .optional .bool span.endAccurate),
    ("text", .string ((source.slice? span.start span.stop).getD []))]

def lineReport (line : LineRecord) : Json :=
  .object [("end", .number line.stop), ("start", .number line.start), ("text", .string line.text)]

def rangeReport (range : Interval) : Json :=
  .object [("end", .number range.stop), ("start", .number range.start)]

def operationReport (op : EditOp) : Json :=
  .object [("kind", .string (kindName op.kind)), ("mutated", rangeReport op.mutated),
    ("original", rangeReport op.source)]

def restoreReport (map : RestoreMap) : Json :=
  .object [("fold_continuations", .bool map.foldContinuations),
    ("ops", .list (map.script.map operationReport))]

/-- The lines of a document and how they were aligned, with all names in alphabetical order. -/
def indexReport (strategy : Strategy) (tracker : Tracker) : Json :=
  .object [
    ("lines", .list (tracker.index.records.map lineReport)),
    ("mutated", .list (tracker.mutatedLines.map .string)),
    ("restore", .optional restoreReport tracker.restoreMap?),
    ("strategy", .string (strategyName strategy))]

/-- The settings of a command: those of its file, with its options on top. -/
def settings? (files : Files) (command : Command) : Option Settings := do
  let settings ←
    match command.config with
    | none => some ({} : Settings)
    | some path => (Settings.load (files path)).toOption
  return {
    settings with
    debug := settings.debug || command.debug
    strategy := command.strategy.getD settings.strategy }

def render (source : Text) (settings : Option Settings) : Except Fault Session :=
  match settings with
  | none => Compiler.reference.render source
  | some settings => (Offsets.extension settings Compiler.reference).render source

def report (action : Action) (source : Text) (settings : Settings) : Except Fault Text := do
  match action with
  | .render offsets =>
    let session ← render source (if offsets then some settings else none)
    return Html.render session.tree
  | .spans =>
    let session ← render source (some settings)
    let spans ← Offsets.collectSpans session.tree settings.attributeLead
    return (Json.list (spans.map (spanReport source))).render
  | .index =>
    let session ← render source (some settings)
    return (Json.optional (indexReport settings.strategy) session.tracker?).render

def runCommand (files : Files) (command : Command) : Result :=
  match files command.file with
  | none => .failed ("Failed to read " ++ command.file)
  | some source =>
    -- Settings are read after the document, and only when they are needed.
    let settings :=
      if command.action = .render false then some {} else settings? files command
    match settings with
    | none => .failed ("Failed to load config " ++ command.config.getD "")
    | some settings =>
      match report command.action source settings with
      | .ok text => .printed (text ++ ['\n'])
      | .error _ => .failed ("Failed to render " ++ command.file)

def run (files : Files) (arguments : List String) : Result :=
  match Request.ofArguments? false arguments with
  | none => .misused
  | some .version => .printed versionLine
  | some (.run command) => runCommand files command

end Tracemark.Cli
