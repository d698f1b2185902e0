import Tracemark.Compiler
import Tracemark.Offsets.Settings

/-! The offsets layer: stages and a handler that write offsets onto elements.

One stage records the untouched lines before all others run, and one aligns what they have made of
them. The handler stands above the grammar. It claims the lines of a block, has the block parsed by
the handlers below it, and writes the offsets of those lines onto the elements that came of it.
-/

set_option autoImplicit false

namespace Tracemark.Offsets

open Tracemark.Alignment (Differ Strategy)

def captureDocument : Stage where
  name := "capture_document"
  run session lines := (session.setTracker (.ofLines lines), lines)

def alignDocument (strategy : Strategy) (differ : Differ) : Stage where
  name := "align_document"
  run session lines :=
    match session.tracker? with
    | some tracker => (session.setTracker (tracker.align strategy lines differ), lines)
    | none => (session, lines)

def produced (before after : List NodeId) : List NodeId :=
  match after.filter (· ∉ before) with
  -- A parse that has made none may have moved an older child to the end.
  | [] => if after.getLast? ≠ before.getLast? then after.getLast?.toList else []
  | fresh => fresh

/-- Write an origin onto what came of a block under `parent`. Gives the element that later blocks
may go on with, if one was stamped. -/
def writeOrigin (stamper : Stamper) (tree : Tree) (parent : NodeId)
    (lastEmitted : Option NodeId) (origin : Origin) :
    List NodeId → Except Fault (Option NodeId × Tree)
  -- A block that made nothing went on with the last child.
  | [] => do
    match ← tree.lastChild? parent with
    | none => return (none, tree)
    | some last => return (none, (← stamper.patch tree last origin).2)
  -- A block that made only the element stamped last has moved it, which keeps its start.
  | [only] => do
    if some only = lastEmitted then return (none, ← stamper.extend tree only origin)
    else return (some only, ← stamper.stamp tree only origin)
  | nodes => do
    let tree ← nodes.foldlM (fun tree node => stamper.stamp tree node origin) tree
    return (nodes.getLast?, tree)

def attributor (settings : Settings) : Handler where
  name := "offsets"
  accepts session _ block := (session.tracker?.map (·.wants block)).getD false
  run reparse session parent block rest := do
    let some (span, claimed) := session.tracker?.bind (·.claim block) | return .declined session
    let session := session.setTracker { claimed with guard := claimed.guard.enter }
    let before ← session.tree.children parent
    let session ← reparse session parent [block]
    let some tracker := session.tracker? | return .handled session rest
    let tracker := { tracker with guard := tracker.guard.exit }
    let nodes := produced before (← session.tree.children parent)
    match tracker.annotate span with
    | .error _ => return .handled (session.setTracker tracker) rest
    | .ok (origin, tracker) =>
      let stamper : Stamper :=
        { names := .ofLead settings.attributeLead
          document := if settings.debug then some tracker.index.document else none }
      let (emitted, tree) ←
        writeOrigin stamper session.tree parent tracker.lastEmitted origin nodes
      let tracker := { tracker with lastEmitted := emitted.or tracker.lastEmitted }
      return .handled ((session.setTree tree).setTracker tracker) rest

/-- The offsets layer with a diff and some settings. -/
def extensionBy (differ : Differ) (settings : Settings) : Extension := fun compiler =>
  ((compiler.addStage 1000 captureDocument).addStage 0
    (alignDocument settings.strategy differ)).addHandler 200 (attributor settings)

def extension : Settings → Extension := extensionBy .shortest

end Tracemark.Offsets
