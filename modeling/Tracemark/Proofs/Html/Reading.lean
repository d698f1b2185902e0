import Tracemark.Html

/-! Reading written documents.

A reader cuts a text at its angle brackets into tags, each with the character data behind it. It refuses
a bracket that is not the first or the last character of a tag. Values and data are read with the five
entities undone. What is written of tags and data in turn is read back as it was, whatever the values
and the data hold.
-/

set_option autoImplicit false

namespace Tracemark.Html

/-! Entities. -/

def unescape : Text → Text
  | '&' :: 'a' :: 'm' :: 'p' :: ';' :: rest => '&' :: unescape rest
  | '&' :: 'l' :: 't' :: ';' :: rest => '<' :: unescape rest
  | '&' :: 'g' :: 't' :: ';' :: rest => '>' :: unescape rest
  | '&' :: 'q' :: 'u' :: 'o' :: 't' :: ';' :: rest => '"' :: unescape rest
  | '&' :: '#' :: '3' :: '9' :: ';' :: rest => '\'' :: unescape rest
  | c :: rest => c :: unescape rest
  | [] => []

variable {c : Char} {text : Text}

theorem unescape_cons (plain : c ≠ '&') (rest : Text) : unescape (c :: rest) = c :: unescape rest := by
  rw [unescape.eq_def]
  split <;> simp_all

theorem escapeChar_of_plain (plain : c ∉ ['&', '<', '>', '"', '\'']) : escapeChar c = [c] := by
  unfold escapeChar
  split <;> simp_all

theorem unescape_escapeChar (c : Char) (rest : Text) :
    unescape (escapeChar c ++ rest) = c :: unescape rest := by
  by_cases marked : c ∈ ['&', '<', '>', '"', '\'']
  · simp only [List.mem_cons, List.not_mem_nil, or_false] at marked
    rcases marked with rfl | rfl | rfl | rfl | rfl <;> rfl
  · rw [escapeChar_of_plain marked]
    exact unescape_cons (fun same => marked (same ▸ List.mem_cons_self)) rest

theorem unescape_escape (text : Text) : unescape (escape text) = text := by
  induction text with
  | nil => rfl
  | cons c rest ih =>
    rw [escape, List.flatMap_cons, unescape_escapeChar]
    exact congrArg (c :: ·) ih

theorem not_mem_escape (marked : c ∈ ['<', '>', '"', '\'']) : c ∉ escape text := by
  intro member
  obtain ⟨d, -, member⟩ := List.mem_flatMap.1 member
  by_cases special : d ∈ ['&', '<', '>', '"', '\'']
  · simp only [List.mem_cons, List.not_mem_nil, or_false] at special marked
    rcases special with rfl | rfl | rfl | rfl | rfl <;>
      rcases marked with rfl | rfl | rfl | rfl <;> revert member <;> decide
  · rw [escapeChar_of_plain special, List.mem_singleton] at member
    exact special (member ▸ List.mem_cons_of_mem _ marked)

/-! Names. -/

def isPlain (name : String) : Bool :=
  name ≠ "" && name.toList.all fun c =>
    !Text.isBlankChar c && c ∉ ['<', '>', '&', '"', '\'', '=', '/']

theorem not_mem_of_isPlain {name : String} (plain : isPlain name = true)
    (special : Text.isBlankChar c = true ∨ c ∈ ['<', '>', '&', '"', '\'', '=', '/']) :
    c ∉ name.toList := by
  intro member
  simp only [isPlain, Bool.and_eq_true, List.all_eq_true, Bool.not_eq_true', decide_eq_true_eq] at plain
  obtain ⟨visible, allowed⟩ := plain.2 c member
  rcases special with blank | mark
  · rw [visible] at blank
    cases blank
  · exact allowed mark

/-! Tags and data. -/

inductive Tag where
  | opened (name : String) (attributes : Attributes)
  | single (name : String) (attributes : Attributes)
  | closed (name : String)
  deriving DecidableEq, Repr

structure Piece where
  tag : Tag
  data : Text
  deriving DecidableEq, Repr

namespace Tag

def body : Tag → Text
  | opened name attributes => name.toList ++ attributes.entries.flatMap valuePair
  | single name attributes => name.toList ++ attributes.entries.flatMap valuePair ++ " /".toList
  | closed name => '/' :: name.toList

def names : Tag → List String
  | opened name attributes | single name attributes => name :: attributes.keys
  | closed name => [name]

end Tag

def written (pieces : List Piece) : Text :=
  pieces.flatMap fun piece => '<' :: piece.tag.body ++ '>' :: escape piece.data

/-! Readers. -/

def readName? (text : Text) : Option String :=
  if isPlain (String.ofList text) then some (String.ofList text) else none

def readValues? : List Text → Option (List (String × Text) × Text)
  | [] => none
  | [last] => some ([], last)
  | mark :: value :: rest => do
    let name ← readName? mark.tail.dropLast
    let (others, last) ← readValues? rest
    if mark = ' ' :: name.toList ++ ['='] then return ((name, unescape value) :: others, last)
    else none

def readTag? : Text → Option Tag
  | '/' :: name => (readName? name).map .closed
  | body => do
    let name ← readName? (body.takeWhile (· ≠ ' '))
    let (values, last) ← readValues? ((body.dropWhile (· ≠ ' ')).splitOn '"')
    if last = [] then return .opened name ⟨values⟩
    else if last = " /".toList then return .single name ⟨values⟩
    else none

def readPiece? (part : Text) : Option Piece :=
  match part.splitOn '>' with
  | [body, data] => (readTag? body).map (⟨·, unescape data⟩)
  | _ => none

/-- The tags of a document that begins with one, each with the data behind it. -/
def read? (text : Text) : Option (List Piece) :=
  match text.splitOn '<' with
  | [] :: parts => parts.mapM readPiece?
  | _ => none

/-! What is written is read back. -/

variable {name : String} {attributes : Attributes} {tag : Tag} {piece : Piece} {pieces : List Piece}

theorem readName?_toList (plain : isPlain name = true) : readName? name.toList = some name := by
  rw [readName?, String.ofList_toList, if_pos plain]

theorem readValues?_written (last : Text) (unquoted : '"' ∉ last) {entries : List (String × Text)}
    (plain : ∀ entry ∈ entries, isPlain entry.1 = true) :
    readValues? ((entries.flatMap valuePair ++ last).splitOn '"') = some (entries, last) := by
  induction entries with
  | nil =>
    rw [List.flatMap_nil, List.nil_append, List.splitOn_eq_singleton unquoted]
    rfl
  | cons entry rest ih =>
    rw [List.forall_mem_cons] at plain
    obtain ⟨name, value⟩ := entry
    have mark : '"' ∉ ' ' :: name.toList ++ ['='] := by
      have absent := not_mem_of_isPlain (c := '"') plain.1 (.inr (by decide))
      simpa using absent
    have cut : ((name, value) :: rest).flatMap valuePair ++ last =
        (' ' :: name.toList ++ ['=']) ++ '"' :: (escape value ++ '"' ::
          (rest.flatMap valuePair ++ last)) := by
      simp [valuePair]
    rw [cut, List.splitOn_append_cons_self_of_not_mem mark,
      List.splitOn_append_cons_self_of_not_mem (not_mem_escape (by decide))]
    simp [readValues?, readName?_toList plain.1, ih plain.2, unescape_escape]

theorem readTag?_named {rest last : Text} {values : List (String × Text)} (plain : isPlain name = true)
    (ends : rest.head? = none ∨ rest.head? = some ' ')
    (found : readValues? (rest.splitOn '"') = some (values, last)) :
    readTag? (name.toList ++ rest) =
      if last = [] then some (.opened name ⟨values⟩)
      else if last = " /".toList then some (.single name ⟨values⟩) else none := by
  have visible : ∀ c ∈ name.toList, decide (c ≠ ' ') = true := by
    intro c member
    refine decide_eq_true fun same => ?_
    exact not_mem_of_isPlain plain (.inl (by decide)) (same ▸ member)
  have taken : (name.toList ++ rest).takeWhile (· ≠ ' ') = name.toList := by
    rw [List.takeWhile_append_of_pos visible]
    cases rest <;> simp_all
  have left : (name.toList ++ rest).dropWhile (· ≠ ' ') = rest := by
    rw [List.dropWhile_append_of_pos visible]
    cases rest <;> simp_all
  have open_name : ∀ others, name.toList ++ rest ≠ '/' :: others := by
    intro others same
    cases chars : name.toList with
    | nil =>
      rw [isPlain, String.toList_eq_nil_iff.1 chars] at plain
      cases plain
    | cons first following =>
      rw [chars] at same
      cases same
      exact not_mem_of_isPlain plain (.inr (by decide)) (chars ▸ List.mem_cons_self)
  unfold readTag?
  split
  · next others same => exact absurd same (open_name others)
  · rw [taken, left, readName?_toList plain, found]
    rfl

theorem head?_values (attributes : Attributes) (last : Text) (ends : last.head? = none ∨ last.head? = some ' ') :
    (attributes.entries.flatMap valuePair ++ last).head? = none ∨
      (attributes.entries.flatMap valuePair ++ last).head? = some ' ' := by
  obtain ⟨entries⟩ := attributes
  cases entries with
  | nil => exact ends
  | cons entry rest => exact .inr rfl

theorem readTag?_body (plain : ∀ name ∈ tag.names, isPlain name = true) :
    readTag? tag.body = some tag := by
  cases tag with
  | closed name =>
    rw [Tag.body, readTag?, readName?_toList (plain name List.mem_cons_self)]
    rfl
  | opened name attributes =>
    obtain ⟨named, keys⟩ := List.forall_mem_cons.1 plain
    have values := readValues?_written [] List.not_mem_nil
      fun entry member => keys entry.1 (List.mem_map_of_mem member)
    rw [Tag.body, ← List.append_nil (attributes.entries.flatMap valuePair),
      readTag?_named named (head?_values attributes [] (.inl rfl)) values]
    rfl
  | single name attributes =>
    obtain ⟨named, keys⟩ := List.forall_mem_cons.1 plain
    have values := readValues?_written " /".toList (by decide)
      fun entry member => keys entry.1 (List.mem_map_of_mem member)
    rw [Tag.body, List.append_assoc,
      readTag?_named named (head?_values attributes _ (.inr rfl)) values]
    rfl

-- Neither names nor values hold a bracket.
theorem bracket_not_mem_body (bracket : c = '<' ∨ c = '>')
    (plain : ∀ name ∈ tag.names, isPlain name = true) : c ∉ tag.body := by
  have absent {name : String} (plain : isPlain name = true) : c ∉ name.toList :=
    not_mem_of_isPlain plain (.inr (by rcases bracket with rfl | rfl <;> decide))
  have undone (text : Text) : c ∉ escape text :=
    not_mem_escape (by rcases bracket with rfl | rfl <;> decide)
  have mark : c ∉ [' ', '=', '"', '/'] := by rcases bracket with rfl | rfl <;> decide
  simp only [List.mem_cons, List.not_mem_nil, or_false, not_or] at mark
  have values {attributes : Attributes} (plain : ∀ key ∈ attributes.keys, isPlain key = true) :
      c ∉ attributes.entries.flatMap valuePair := by
    intro member
    obtain ⟨entry, listed, member⟩ := List.mem_flatMap.1 member
    have key := absent (plain entry.1 (List.mem_map_of_mem listed))
    simp [valuePair, mark, key, undone] at member
  cases tag with
  | closed name => simp [Tag.body, mark, absent (plain name List.mem_cons_self)]
  | opened name attributes =>
    obtain ⟨named, keys⟩ := List.forall_mem_cons.1 plain
    exact List.not_mem_append (absent named) (values keys)
  | single name attributes =>
    obtain ⟨named, keys⟩ := List.forall_mem_cons.1 plain
    refine List.not_mem_append (List.not_mem_append (absent named) (values keys)) ?_
    simp [mark]

def Plain (pieces : List Piece) : Prop :=
  ∀ piece ∈ pieces, ∀ name ∈ piece.tag.names, isPlain name = true

theorem readPiece?_written (plain : ∀ name ∈ piece.tag.names, isPlain name = true) :
    readPiece? (piece.tag.body ++ '>' :: escape piece.data) = some piece := by
  rw [readPiece?, List.splitOn_append_cons_self_of_not_mem (bracket_not_mem_body (.inr rfl) plain),
    List.splitOn_eq_singleton (not_mem_escape (by decide))]
  simp [readTag?_body plain, unescape_escape]

-- Every opening bracket begins a piece.
theorem splitOn_written {first : Text} (unmarked : '<' ∉ first) (plain : Plain pieces) :
    (first ++ written pieces).splitOn '<' =
      first :: pieces.map fun piece => piece.tag.body ++ '>' :: escape piece.data := by
  induction pieces generalizing first with
  | nil =>
    rw [written, List.flatMap_nil, List.append_nil]
    exact List.splitOn_eq_singleton unmarked
  | cons piece rest ih =>
    obtain ⟨here, later⟩ := List.forall_mem_cons.1 plain
    have unmarked' : '<' ∉ piece.tag.body ++ '>' :: escape piece.data := by
      have body := bracket_not_mem_body (.inl rfl) here
      have data : '<' ∉ escape piece.data := not_mem_escape (by decide)
      simp [body, data]
    rw [List.map_cons, ← ih unmarked' later]
    exact List.splitOn_append_cons_self_of_not_mem unmarked _

theorem read?_written (plain : Plain pieces) : read? (written pieces) = some pieces := by
  rw [read?, ← List.nil_append (written pieces), splitOn_written List.not_mem_nil plain]
  change (pieces.map _).mapM readPiece? = some pieces
  induction pieces with
  | nil => rfl
  | cons piece rest ih =>
    obtain ⟨here, later⟩ := List.forall_mem_cons.1 plain
    rw [List.map_cons, List.mapM_cons, ih later, readPiece?_written here]
    rfl

end Tracemark.Html
