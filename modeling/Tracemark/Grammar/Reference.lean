import Tracemark.Dispatch
import Tracemark.Grammar.Container
import Tracemark.Grammar.Split

/-! The reference grammar: a small set of handlers in the style of Markdown. -/

set_option autoImplicit false

namespace Tracemark.Grammar

def add (handlers : Handlers) (priority : Int) (handler : Handler) : Handlers :=
  handlers.register handler.name priority handler

def addReference (handlers : Handlers) : Handlers :=
  [(100, empty), (80, indentedCode), (70, heading), (50, rule), (40, list), (20, blockquote),
    (15, stash), (10, paragraph)].foldl
    (fun handlers (priority, handler) => add handlers priority handler) handlers

def reference : Handlers := addReference .empty

end Tracemark.Grammar
