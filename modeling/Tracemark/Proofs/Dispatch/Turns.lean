import Tracemark.Compiler
import Tracemark.Proofs.Tree.Links

/-! The turns of a run.

A run takes one block after another off its queue. Its turns list these blocks with the sessions
before and after each of them, so what a document owes to one of its blocks can be told. The turns are
made by the same steps as the run, and the run ends in the session after the last of them.
-/

set_option autoImplicit false

namespace Tracemark

structure Turn where
  block : Text
  before : Session
  after : Session

namespace Turn

def created (turn : Turn) : List NodeId :=
  (turn.after.tree.childrenOf Tree.root).filter (· ∉ turn.before.tree.childrenOf Tree.root)

theorem filter_not_mem_append {before fresh : List NodeId} (new : ∀ node ∈ fresh, node ∉ before) :
    (before ++ fresh).filter (· ∉ before) = fresh := by
  rw [List.filter_append, List.filter_eq_nil_iff.2 (by simp), List.nil_append,
    List.filter_eq_self]
  simpa using new

theorem created_eq {turn : Turn} {fresh : List NodeId}
    (children : turn.after.tree.childrenOf Tree.root =
      turn.before.tree.childrenOf Tree.root ++ fresh)
    (distinct : (turn.after.tree.childrenOf Tree.root).Nodup) : turn.created = fresh := by
  rw [children] at distinct
  rw [created, children]
  exact filter_not_mem_append fun node new old =>
    (List.nodup_append.1 distinct).2.2 node old node new rfl

end Turn

namespace Dispatch

def turns (handlers : List Handler) :
    (budget : Nat) → Session → NodeId → List Text → Except Fault (List Turn)
  | 0, _, _, _ => throw .exhausted
  | _ + 1, _, _, [] => return []
  | budget + 1, before, parent, block :: rest => do
    let (after, queue) ← offer (run handlers budget) parent block rest handlers before
    return ⟨block, before, after⟩ :: (← turns handlers budget after parent queue)

def lastSession (start : Session) (turns : List Turn) : Session :=
  (turns.getLast?.map (·.after)).getD start

theorem lastSession_cons (start : Session) (turn : Turn) (turns : List Turn) :
    lastSession start (turn :: turns) = lastSession turn.after turns := by
  cases turns with
  | nil => rfl
  | cons next rest => simp [lastSession, List.getLast?_cons]

theorem run_eq_lastSession (handlers : List Handler) (budget : Nat) (session : Session)
    (parent : NodeId) (queue : List Text) : run handlers budget session parent queue =
      (turns handlers budget session parent queue).map (lastSession session) := by
  induction budget generalizing session queue with
  | zero => rfl
  | succ budget ih =>
    cases queue with
    | nil => rfl
    | cons block rest =>
      simp only [run, turns, bind, Except.bind]
      cases offered : offer (run handlers budget) parent block rest handlers session with
      | error fault => rfl
      | ok taken =>
        obtain ⟨after, queue⟩ := taken
        simp only [ih]
        cases turns handlers budget after parent queue with
        | error fault => rfl
        | ok later =>
          change Except.ok _ = Except.ok _
          rw [lastSession_cons]

end Dispatch

namespace Compiler

def turns (compiler : Compiler) (source : Text) : Except Fault (List Turn) :=
  let (session, lines) := Stage.runAll compiler.stages.items .new source.lines
  let queue := (Text.joinLines lines).blocks
  Dispatch.turns compiler.handlers.items (Dispatch.weight queue + compiler.handlers.size + 1) session
    Tree.root queue

end Compiler

end Tracemark
