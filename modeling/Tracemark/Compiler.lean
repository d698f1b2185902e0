import Tracemark.Grammar.Reference
import Tracemark.Stage.FencedCode
import Tracemark.Stage.FrontMatter
import Tracemark.Stage.Whitespace

/-! Compilers: the stages and handlers that a document goes through. -/

set_option autoImplicit false

namespace Tracemark

structure Compiler where
  stages : Registry Stage := {}
  handlers : Handlers := {}

abbrev Extension := Compiler → Compiler

namespace Compiler

def bare : Compiler := {}

def addStage (compiler : Compiler) (priority : Int) (stage : Stage) : Compiler :=
  { compiler with stages := compiler.stages.register stage.name priority stage }

def addHandler (compiler : Compiler) (priority : Int) (handler : Handler) : Compiler :=
  { compiler with handlers := Grammar.add compiler.handlers priority handler }

def grammar : Compiler := { handlers := Grammar.reference }

def reference : Compiler :=
  ((grammar.addStage 30 .normalizeWhitespace).addStage 25 .frontMatter).addStage 20 .fencedCode

/-- Run the stages over the lines of a source and parse what they leave. Lines end at line feeds
only. -/
def render (compiler : Compiler) (source : Text) : Except Fault Session :=
  let (session, lines) := Stage.runAll compiler.stages.items .new source.lines
  compiler.handlers.parseDocument session lines

end Compiler

end Tracemark
