import Tracemark.Session

/-! Stages: changes to the lines of a document before its blocks are parsed.

A stage turns lines into lines and may leave something in the session. It may change, drop, split or
inject lines as it likes.
-/

set_option autoImplicit false

namespace Tracemark

structure Stage where
  name : String
  run : Session → List Text → Session × List Text

namespace Stage

def ofLines (name : String) (change : List Text → List Text) : Stage :=
  ⟨name, fun session lines => (session, change lines)⟩

def runAll (stages : List Stage) (session : Session) (lines : List Text) :
    Session × List Text :=
  stages.foldl (fun (session, lines) stage => stage.run session lines) (session, lines)

end Stage

end Tracemark
