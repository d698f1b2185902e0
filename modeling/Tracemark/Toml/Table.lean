import Tracemark.Toml.Value

/-! Building tables.

A dotted key makes the tables on its path, or goes on with tables that dotted keys have made. A
header makes the tables on its path too, and such a table may get a header of its own later.
Nothing else can be added to, and no key can be written twice.
-/

set_option autoImplicit false

namespace Tracemark.Toml

namespace Entries

def add? (entries : Entries) (key : Text) (value : Value) : Option Entries :=
  match entries.get? key with
  | none => some (entries.insert key value)
  | some _ => none

def erase (entries : Entries) (key : Text) : Entries :=
  ⟨entries.entries.filter (·.1 ≠ key)⟩

variable {α : Type}

/-- Change the table at the end of a path, which starts in a table of the given form, and give
what the change gives. Tables that are missing are made in the form `fresh`; `passes` says which
tables the path may lead through. An array of tables stands for the last of them. -/
def descend? (fresh : TableForm) (passes : TableForm → Bool)
    (change : TableForm → Entries → Option (α × Entries)) :
    (path : List Text) → TableForm → Entries → Option (α × Entries)
  | [], form, entries => change form entries
  | key :: path, _, entries =>
    match entries.get? key with
    | none =>
      (descend? fresh passes change path fresh {}).map fun (found, inner) =>
        (found, entries.insert key (.table fresh inner))
    | some (.table form inner) =>
      if passes form then
        (descend? fresh passes change path form inner).map fun (found, inner) =>
          (found, entries.insert key (.table form inner))
      else none
    | some (.tables items) =>
      match items.getLast? with
      | some (form, inner) =>
        (descend? fresh passes change path form inner).map fun (found, inner) =>
          (found, entries.insert key (.tables (items.dropLast ++ [(form, inner)])))
      | none => none
    | some _ => none

/-- Write a value under a dotted key. A table that the path ends in must have been made by dotted
keys itself. -/
def writeDotted? (fresh : TableForm) (passes : TableForm → Bool) (form : TableForm)
    (entries : Entries) (path : List Text) (key : Text) (value : Value) : Option Entries :=
  (descend? fresh passes
    (fun reached inner =>
      if path = [] ∨ reached = fresh then (inner.add? key value).map (((), ·)) else none)
    path form entries).map (·.2)

def writeLine? (entries : Entries) (path : List Text) (key : Text) (value : Value) :
    Option Entries :=
  entries.writeDotted? .dotted (fun form => form = .dotted || form = .implied) .header path key
    value

def writeInline? (entries : Entries) (path : List Text) (key : Text) (value : Value) :
    Option Entries :=
  entries.writeDotted? .inlineDotted (· = .inlineDotted) .inline path key value

def atHeader? (entries : Entries) (path : List Text) (change : Entries → Option (α × Entries)) :
    Option (α × Entries) :=
  descend? .implied (fun form => form ≠ .inline && form ≠ .inlineDotted) (fun _ => change) path
    .header entries

/-- Take the table under a key out, for a header of its own. There may be none, or one that
headers of tables inside it have made. -/
def takeImplied? (entries : Entries) (key : Text) : Option (Entries × Entries) :=
  match entries.get? key with
  | none => some ({}, entries)
  | some (.table .implied inner) => some (inner, entries.erase key)
  | some _ => none

def addRepeated? (entries : Entries) (key : Text) (table : Entries) : Option Entries :=
  match entries.get? key with
  | none => some (entries.insert key (.tables [(.header, table)]))
  | some (.tables items) => some (entries.insert key (.tables (items ++ [(.header, table)])))
  | some _ => none

end Entries

structure Header where
  path : List Text
  key : Text
  repeated : Bool
  deriving DecidableEq, Repr

/-- A document that is being read: the tables that are done, and the one that is open under a
header. Before the first header the open table is the document itself. -/
structure Draft where
  done : Entries := {}
  header : Option Header := none
  current : Entries := {}

namespace Draft

def close? (draft : Draft) : Option Entries :=
  match draft.header with
  | none => some draft.current
  | some header =>
    (draft.done.atHeader? header.path fun entries =>
      let closed :=
        if header.repeated then entries.addRepeated? header.key draft.current
        else entries.add? header.key (.table .header draft.current)
      closed.map (((), ·))).map (·.2)

def open? (draft : Draft) (header : Header) : Option Draft := do
  let done ← draft.close?
  if header.repeated then return { done, header := some header }
  let (current, done) ← done.atHeader? header.path (·.takeImplied? header.key)
  return { done, header := some header, current }

def write? (draft : Draft) (path : List Text) (key : Text) (value : Value) : Option Draft :=
  (draft.current.writeLine? path key value).map fun current => { draft with current }

end Draft

end Tracemark.Toml
