import Tracemark.Proofs.Offsets.Delegation

/-! Compilers with the offsets layer.

The layer records the source lines before any other stage runs, and aligns what the stages in between
have made of them. Those stages may change lines as they like and may leave what they find in the
session, but they keep their hands off the tree and the tracker.
-/

set_option autoImplicit false

namespace Tracemark

namespace Stage

/-- A stage that prepares lines: it leaves the tree and the tracker of a session alone. -/
structure Prepares (stage : Stage) : Prop where
  tree : ∀ session lines, (stage.run session lines).1.tree = session.tree
  tracker? : ∀ session lines, (stage.run session lines).1.tracker? = session.tracker?

theorem runAll_append (first second : List Stage) (session : Session) (lines : List Text) :
    runAll (first ++ second) session lines =
      runAll second (runAll first session lines).1 (runAll first session lines).2 := by
  simp [runAll, List.foldl_append]

theorem runAll_cons (stage : Stage) (rest : List Stage) (session : Session) (lines : List Text) :
    runAll (stage :: rest) session lines =
      runAll rest (stage.run session lines).1 (stage.run session lines).2 :=
  rfl

theorem runAll_prepares {stages : List Stage} (prepares : ∀ stage ∈ stages, stage.Prepares)
    (session : Session) (lines : List Text) :
    (runAll stages session lines).1.tree = session.tree ∧
      (runAll stages session lines).1.tracker? = session.tracker? := by
  induction stages generalizing session lines with
  | nil => exact ⟨rfl, rfl⟩
  | cons stage rest ih =>
    have law := prepares stage List.mem_cons_self
    have later := ih (fun other member => prepares other (List.mem_cons_of_mem _ member))
      (stage.run session lines).1 (stage.run session lines).2
    rw [runAll_cons, later.1, later.2]
    exact ⟨law.tree session lines, law.tracker? session lines⟩

end Stage

namespace Offsets

open Tracemark.Alignment (Differ RestoreMap)
open Tracemark.Dispatch (run turns weight)
open Tracemark.Grammar (members)

structure Staged (differ : Differ) (settings : Settings) (between : List Stage)
    (compiler : Compiler) : Prop where
  stages : compiler.stages.items =
    captureDocument :: (between ++ [alignDocument settings.strategy differ])
  prepares : ∀ stage ∈ between, stage.Prepares

structure Traced (differ : Differ) (settings : Settings) (between : List Stage)
    (compiler : Compiler) : Prop where
  stages : compiler.stages.items =
    captureDocument :: (between ++ [alignDocument settings.strategy differ])
  handlers : compiler.handlers.items = attributor settings :: members
  prepares : ∀ stage ∈ between, stage.Prepares

def prepared (between : List Stage) (source : Text) : Session × List Text :=
  Stage.runAll between (Session.new.setTracker (.ofLines source.lines)) source.lines

def preparedLines (between : List Stage) (source : Text) : List Text := (prepared between source).2

def preparedBlocks (between : List Stage) (source : Text) : List Text :=
  (Text.joinLines (preparedLines between source)).blocks

def startTracker (differ : Differ) (settings : Settings) (between : List Stage) (source : Text) :
    Tracker :=
  (Tracker.ofLines source.lines).align settings.strategy (preparedLines between source) differ

def startSession (differ : Differ) (settings : Settings) (between : List Stage) (source : Text) :
    Session :=
  (prepared between source).1.setTracker (startTracker differ settings between source)

variable {differ : Differ} {settings : Settings} {between : List Stage} {compiler : Compiler}

theorem restoreMap?_startTracker (source : Text) :
    (startTracker differ settings between source).restoreMap? =
      some (.align settings.strategy source.lines (preparedLines between source) differ) :=
  Tracker.restoreMap?_align _ _ _ _

namespace Staged

theorem tree_startSession (staged : Staged differ settings between compiler) (source : Text) :
    (startSession differ settings between source).tree = Tree.empty :=
  (Stage.runAll_prepares staged.prepares _ _).1

theorem runAll_eq (staged : Staged differ settings between compiler) (source : Text) :
    Stage.runAll compiler.stages.items .new source.lines =
      (startSession differ settings between source, preparedLines between source) := by
  have tracked : (prepared between source).1.tracker? = some (.ofLines source.lines) := by
    rw [prepared, (Stage.runAll_prepares staged.prepares _ _).2, Session.tracker?_setTracker]
  rw [staged.stages, Stage.runAll_cons, Stage.runAll_append]
  change (alignDocument settings.strategy differ).run (prepared between source).1
    (prepared between source).2 = _
  simp only [alignDocument, tracked]
  rfl

theorem facing (staged : Staged differ settings between compiler) (source : Text)
    (unbroken : ∀ line ∈ preparedLines between source, '\n' ∉ line) :
    Facing 0 (preparedBlocks between source) (startTracker differ settings between source)
      (startSession differ settings between source) := by
  refine ⟨Session.tracker?_setTracker _ _, Tracker.unclaimed_start rfl unbroken, rfl, ?_, ?_⟩
  · rw [staged.tree_startSession]
    exact Tree.ordered_empty
  · intro node member
    cases member

end Staged

namespace Traced

theorem staged (traced : Traced differ settings between compiler) :
    Staged differ settings between compiler :=
  ⟨traced.stages, traced.prepares⟩

/-- A source is rendered by its turns, each of which goes through the layer. -/
theorem followed (traced : Traced differ settings between compiler) (source : Text)
    (unbroken : ∀ line ∈ preparedLines between source, '\n' ∉ line) :
    ∃ list session, compiler.turns source = .ok list ∧ compiler.render source = .ok session ∧
      Followed settings 0 (preparedBlocks between source)
        (startSession differ settings between source) list session := by
  have size : compiler.handlers.size = 9 := by
    have length := congrArg List.length traced.handlers
    simpa [Registry.items, Registry.size, members] using length
  obtain ⟨list, session, ran, followed⟩ := turns_followed settings (traced.staged.facing source unbroken)
    (show weight (preparedBlocks between source) + 2 ≤
      weight (preparedBlocks between source) + compiler.handlers.size + 1 by omega)
  refine ⟨list, session, ?_, ?_, followed⟩
  · rw [Compiler.turns, traced.staged.runAll_eq, traced.handlers]
    exact ran
  · rw [Compiler.render, traced.staged.runAll_eq]
    change run compiler.handlers.items _ _ _ _ = _
    rw [Dispatch.run_eq_lastSession, traced.handlers]
    change (turns (attributor settings :: members)
      (weight (preparedBlocks between source) + compiler.handlers.size + 1)
      (startSession differ settings between source) Tree.root
      (preparedBlocks between source)).map _ = _
    rw [ran]
    exact congrArg Except.ok followed.lastSession_eq

end Traced

def referenceStages : List Stage := [.normalizeWhitespace, .frontMatter, .fencedCode]

theorem referenceStages_prepare : ∀ stage ∈ referenceStages, stage.Prepares := by
  intro stage member
  simp only [referenceStages, List.mem_cons, List.not_mem_nil, or_false] at member
  rcases member with rfl | rfl | rfl <;> exact ⟨fun _ _ => rfl, fun _ _ => rfl⟩

theorem traced_extension_reference (differ : Differ) (settings : Settings) :
    Traced differ settings referenceStages (extensionBy differ settings .reference) :=
  ⟨rfl, rfl, referenceStages_prepare⟩

theorem traced_extension_grammar (differ : Differ) (settings : Settings) :
    Traced differ settings [] (extensionBy differ settings .grammar) :=
  ⟨rfl, rfl, by simp⟩

end Offsets

end Tracemark
