import Mathlib.Data.List.TakeWhile
import Tracemark.Proofs.OrderedMap
import Tracemark.Proofs.Text.BlockLines
import Tracemark.Proofs.Text.Kept
import Tracemark.Stage.FrontMatter

/-! Front matter is read back as it was written.

An entry is written as a line with its key and its value, and a line indented by four spaces for each
text that goes on with the value. No such line is taken for anything else, whatever the texts look
like: an indented line is no entry, and a line that starts with a key is neither blank nor indented. So
the lines of an entry put its whole value under its key, and the blank line behind the last entry is
the last line that goes.
-/

set_option autoImplicit false

namespace Tracemark.FrontMatter

structure Continues (text : Text) : Prop where
  some_char : text ≠ []
  trimmed : text.trim = text
  unbroken : '\n' ∉ text

instance (text : Text) : Decidable (Continues text) :=
  decidable_of_iff (text ≠ [] ∧ text.trim = text ∧ '\n' ∉ text)
    ⟨fun all => ⟨all.1, all.2.1, all.2.2⟩,
      fun continues => ⟨continues.some_char, continues.trimmed, continues.unbroken⟩⟩

structure Entry where
  key : Text
  value : Text
  continuations : List Text := []
  some_char : key ≠ [] := by decide
  keyed : key.all isKeyChar = true := by decide
  trimmed : value.trim = value := by decide
  unbroken : '\n' ∉ value := by decide
  continues : ∀ text ∈ continuations, Continues text := by decide

def continuationLine (text : Text) : Text := List.replicate 4 ' ' ++ text

namespace Entry

def name (entry : Entry) : Text := entry.key.map Char.toLower

def whole (entry : Entry) : Text := Text.joinLines (entry.value :: entry.continuations)

def firstLine (entry : Entry) : Text := entry.key ++ ':' :: ' ' :: entry.value

def lines (entry : Entry) : List Text :=
  entry.firstLine :: entry.continuations.map continuationLine

end Entry

variable {metadata : Metadata} {key? : Option Text} {consumed : Nat} {c : Char}
  {key value text line : Text} {rest : List Text}

/-! Single lines. -/

theorem isBlankChar_of_isKeyChar (keyed : isKeyChar c = true) : Text.isBlankChar c = false := by
  change (((decide (65 ≤ c.val ∧ c.val ≤ 90) || (97 ≤ c.val && c.val ≤ 122)) ||
    (48 ≤ c.val && c.val ≤ 57)) || c = '_' || c = '-') = true at keyed
  have bounds : 0x20 < c.toNat ∧ c.toNat < 0x7f := by
    simp only [Bool.or_eq_true, Bool.and_eq_true, decide_eq_true_eq, UInt32.le_iff_toNat_le,
      UInt32.reduceToNat] at keyed
    rcases keyed with (letter | rfl) | rfl
    · unfold Char.toNat
      omega
    · decide
    · decide
  simp only [Text.isBlankChar, Text.blankRanges, List.any_cons, List.any_nil, Bool.or_false,
    Bool.or_eq_false_iff, Bool.and_eq_false_iff, decide_eq_false_iff_not]
  omega

theorem Continues.exists_cons (continues : Continues text) :
    ∃ c rest, text = c :: rest ∧ Text.isBlankChar c = false := by
  obtain ⟨c, rest, rfl⟩ := List.exists_cons_of_ne_nil continues.some_char
  have started := Text.trimStart_trim (c :: rest)
  rw [continues.trimmed] at started
  have visible := List.dropWhile_eq_self_iff.1 started (by simp)
  exact ⟨c, rest, rfl, by simpa using visible⟩

theorem ne_space_of_visible (visible : Text.isBlankChar c = false) : c ≠ ' ' := by
  rintro rfl
  exact absurd visible (by decide)

theorem isBlank_continuationLine (continues : Continues text) :
    (continuationLine text).isBlank = false := by
  obtain ⟨c, rest, rfl, visible⟩ := continues.exists_cons
  simp [continuationLine, Text.isBlank, visible]

-- The indent ends where the text starts.
theorem indent_continuationLine (continues : Continues text) :
    (continuationLine text).takeWhile (· = ' ') = List.replicate 4 ' ' ∧
      (continuationLine text).dropWhile (· = ' ') = text := by
  obtain ⟨c, rest, rfl, visible⟩ := continues.exists_cons
  simp [continuationLine, List.replicate, ne_space_of_visible visible]

theorem entry?_continuationLine (continues : Continues text) :
    entry? (continuationLine text) = none := by
  obtain ⟨indent, -⟩ := indent_continuationLine continues
  simp only [indent, entry?, List.length_replicate]
  split
  · rw [if_neg (by omega)]
  · rfl

theorem continuation?_continuationLine (continues : Continues text) :
    continuation? (continuationLine text) = some text := by
  obtain ⟨indent, dedented⟩ := indent_continuationLine continues
  rw [continuation?, indent, dedented, List.length_replicate,
    if_pos ⟨Nat.le_refl 4, continues.unbroken⟩, continues.trimmed]

theorem Entry.exists_key_eq_cons (entry : Entry) :
    ∃ c rest, entry.key = c :: rest ∧ Text.isBlankChar c = false := by
  obtain ⟨c, rest, same⟩ := List.exists_cons_of_ne_nil entry.some_char
  refine ⟨c, rest, same, ?_⟩
  have keyed := entry.keyed
  rw [same, List.all_cons, Bool.and_eq_true] at keyed
  exact isBlankChar_of_isKeyChar keyed.1

theorem Entry.isBlank_firstLine (entry : Entry) : entry.firstLine.isBlank = false := by
  obtain ⟨c, rest, same, visible⟩ := entry.exists_key_eq_cons
  simp [firstLine, same, Text.isBlank, visible]

theorem Entry.entry?_firstLine (entry : Entry) :
    entry? entry.firstLine = some (entry.name, entry.value) := by
  obtain ⟨c, rest, same, visible⟩ := entry.exists_key_eq_cons
  have visible := ne_space_of_visible visible
  have indent : entry.firstLine.takeWhile (· = ' ') = [] := by
    simp [firstLine, same, visible]
  have unindented : entry.firstLine.dropWhile (· = ' ') = entry.firstLine := by
    simp [firstLine, same, visible]
  have keyed := List.all_eq_true.1 entry.keyed
  have key : entry.firstLine.takeWhile isKeyChar = entry.key := by
    rw [firstLine, List.takeWhile_append_of_pos keyed, List.takeWhile_cons_of_neg (by decide),
      List.append_nil]
  have value : entry.firstLine.dropWhile isKeyChar = ':' :: ' ' :: entry.value := by
    rw [firstLine, List.dropWhile_append_of_pos keyed, List.dropWhile_cons_of_neg (by decide)]
  have started : Text.trimStart (' ' :: entry.value) = entry.value := by
    have fixed := Text.trimStart_trim entry.value
    rw [entry.trimmed] at fixed
    rw [Text.trimStart, List.dropWhile_cons_of_pos (by decide)]
    exact fixed
  simp [indent, entry?, unindented, key, value, started, entry.some_char, entry.unbroken,
    entry.trimmed, name]

/-! Reading. -/

theorem read_entry (fresh : line.isBlank = false) (found : entry? line = some (key, value)) :
    read metadata key? consumed (line :: rest) =
      read (metadata.insert key value) (some key) (consumed + 1) rest := by
  simp only [read, fresh, Bool.false_eq_true, if_false, found]

theorem read_continuation {whole : Text} (fresh : line.isBlank = false) (other : entry? line = none)
    (found : continuation? line = some value) (held : metadata.get? key = some whole) :
    read metadata (some key) consumed (line :: rest) =
      read (metadata.insert key (whole ++ '\n' :: value)) (some key) (consumed + 1) rest := by
  simp only [read, fresh, Bool.false_eq_true, if_false, other, found, held, Option.getD_some]

theorem read_blank (blank : line.isBlank = true) (some_line : 0 < consumed) :
    read metadata key? consumed (line :: rest) = (metadata, consumed + 1) := by
  simp only [read, blank, if_true, Nat.ne_of_gt some_line, if_false]

/-- Texts that go on with a value are put behind what is there of it. -/
theorem read_continuations {texts values : List Text} (some_value : values ≠ [])
    (continues : ∀ text ∈ texts, Continues text) (metadata : Metadata) :
    read (metadata.insert key (Text.joinLines values)) (some key) consumed
        (texts.map continuationLine ++ rest) =
      read (metadata.insert key (Text.joinLines (values ++ texts))) (some key)
        (consumed + texts.length) rest := by
  induction texts generalizing values consumed with
  | nil => simp
  | cons text texts ih =>
    obtain ⟨here, later⟩ := List.forall_mem_cons.1 continues
    have joined : Text.joinLines values ++ '\n' :: text = Text.joinLines (values ++ [text]) := by
      rw [Text.joinLines_append some_value (List.cons_ne_nil _ _), Text.joinLines_singleton]
    rw [List.map_cons, List.cons_append,
      read_continuation (isBlank_continuationLine here) (entry?_continuationLine here)
        (continuation?_continuationLine here) (OrderedMap.get?_insert_self ..),
      OrderedMap.insert_insert, joined, ih (by simp) later]
    simp [Nat.add_assoc, Nat.add_comm 1]

theorem Entry.read_lines (entry : Entry) : read metadata key? consumed (entry.lines ++ rest) =
    read (metadata.insert entry.name entry.whole) (some entry.name) (consumed + entry.lines.length)
      rest := by
  have count : consumed + 1 + entry.continuations.length = consumed + entry.lines.length := by
    rw [lines, List.length_cons, List.length_map]
    omega
  -- The first line leaves the value alone, for the others to go on with.
  calc
    read metadata key? consumed (entry.lines ++ rest)
      = read (metadata.insert entry.name (Text.joinLines [entry.value])) (some entry.name)
          (consumed + 1) (entry.continuations.map continuationLine ++ rest) := by
        rw [Text.joinLines_singleton]
        exact read_entry entry.isBlank_firstLine entry.entry?_firstLine
    _ = read (metadata.insert entry.name entry.whole) (some entry.name)
          (consumed + 1 + entry.continuations.length) rest :=
        read_continuations (List.cons_ne_nil _ _) entry.continues metadata
    _ = _ := by rw [count]

theorem read_entries (entries : List Entry) (blank : line.isBlank = true)
    (some_line : 0 < consumed + (entries.flatMap Entry.lines).length) :
    read metadata key? consumed (entries.flatMap Entry.lines ++ line :: rest) =
      (metadata.insertAll (entries.map fun entry => (entry.name, entry.whole)),
        consumed + (entries.flatMap Entry.lines).length + 1) := by
  -- A blank line at the head would be left, so some line has to stand before it.
  induction entries generalizing metadata key? consumed with
  | nil => exact read_blank blank some_line
  | cons entry entries ih =>
    rw [List.flatMap_cons, List.length_append, ← Nat.add_assoc] at some_line
    rw [List.flatMap_cons, List.append_assoc, entry.read_lines, ih some_line, List.length_append,
      Nat.add_assoc consumed]
    rfl

/-! Documents. -/

/-- Entries as they are kept: each name where it came first, with the value that came last. -/
structure Keeps (metadata : Metadata) (entries : List Entry) : Prop where
  keys : metadata.keys = (entries.map (·.name)).eraseDups
  values : ∀ key, metadata.get? key = (entries.reverse.find? (·.name = key)).map (·.whole)

theorem keeps_insertAll (entries : List Entry) :
    Keeps (OrderedMap.empty.insertAll (entries.map fun entry => (entry.name, entry.whole)))
      entries where
  keys := by
    rw [OrderedMap.keys_insertAll_empty, List.map_map]
    rfl
  values key := by
    rw [OrderedMap.get?_insertAll, OrderedMap.get?_empty, Option.or_none, ← List.map_reverse,
      List.find?_map, Option.map_map]
    rfl

/-- Front matter leaves a tail of the lines. Of lines that were written for entries, with a blank line
behind them, all entries are kept and exactly the lines behind the blank line are left. -/
theorem frontMatter_reads_back (session : Session) (lines : List Text) :
    (Stage.frontMatter.run session lines).2 <:+ lines ∧
    ∀ (entries : List Entry) (blank : Text) (body : List Text), entries ≠ [] →
      session.metadata = OrderedMap.empty → blank.isBlank = true →
      lines = entries.flatMap Entry.lines ++ blank :: body →
      ∃ metadata, Keeps metadata entries ∧
        Stage.frontMatter.run session lines = ({ session with metadata }, body) := by
  refine ⟨List.drop_suffix _ _, ?_⟩
  rintro entries blank body some_entry fresh blank_line rfl
  have some_line : 0 < 0 + (entries.flatMap Entry.lines).length := by
    obtain ⟨entry, others, rfl⟩ := List.exists_cons_of_ne_nil some_entry
    simp [Entry.lines]
  refine ⟨_, keeps_insertAll entries, ?_⟩
  simp only [Stage.frontMatter, fresh, read_entries entries blank_line some_line]
  rw [Nat.zero_add, List.append_cons, List.drop_left' (by simp)]

theorem frontMatter_reads_back_repeated : ∃ metadata : Metadata,
    Stage.frontMatter.run {} ["Title: one".toList, "Date: a: b".toList, "    x: y".toList,
        "TITLE: ".toList, "    key: z".toList, [], [], "body: 1".toList] =
      ({ metadata }, [[], "body: 1".toList]) ∧
    metadata.keys = ["title".toList, "date".toList] ∧
    metadata.get? "title".toList = some "\nkey: z".toList ∧
    metadata.get? "date".toList = some "a: b\nx: y".toList := by
  obtain ⟨metadata, keeps, ran⟩ := (frontMatter_reads_back {} _).2
    [{ key := "Title".toList, value := "one".toList },
      { key := "Date".toList, value := "a: b".toList, continuations := ["x: y".toList] },
      { key := "TITLE".toList, value := [], continuations := ["key: z".toList] }]
    [] [[], "body: 1".toList] (List.cons_ne_nil _ _) rfl rfl rfl
  exact ⟨metadata, ran, keeps.keys.trans (by decide), (keeps.values _).trans (by decide),
    (keeps.values _).trans (by decide)⟩

end Tracemark.FrontMatter
