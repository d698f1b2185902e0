import Tracemark.Proofs.Grammar.Shape

/-! The content of what the grammar writes.

Nothing but blanks, digits and markup is taken from a text, and the rest is written once and in its
order. Whatever is written goes behind all that was written before it: a branch goes on at its end, or
a new one follows it. So a step of a derivation adds what its block keeps to what the branches keep.
-/

set_option autoImplicit false

namespace Tracemark

open Tracemark.Text (kept kept_append kept_dropWhile kept_eq_nil kept_map isKept_of_blank
  isKept_of_digit isKept_of_mark isKept_of_space)

def Branch.ownText (branch : Branch) : Text := branch.text.getD []

namespace LineShape

variable {line text : Text}

theorem kept_unindent? (found : unindent? line = some text) : kept text = kept line := by
  unfold unindent? at found
  split at found
  · cases found
    exact kept_dropWhile isKept_of_space line
  · cases found

theorem kept_dedent (line : Text) : kept (dedent line) = kept line := by
  let indent : Text := (line.take tabWidth).takeWhile (· = ' ')
  have front : indent <+: line := (List.takeWhile_prefix _).trans (List.take_prefix _ _)
  have whole : indent ++ dedent line = line := List.prefix_iff_eq_append.1 front
  have blank : kept indent = [] := Text.kept_takeWhile isKept_of_space _
  rw [← whole, kept_append, blank, List.nil_append, whole]

theorem kept_dropSpace (text : Text) : kept (dropSpace text) = kept text := by
  unfold dropSpace
  split
  · exact (Text.kept_cons_of_passed (isKept_of_blank rfl) _).symm
  · rfl

theorem kept_marker? {kind : ListKind} (found : marker? line = some (kind, text)) :
    kept text = kept line := by
  unfold marker? at found
  split at found
  · cases found
    exact (Text.kept_cons_of_passed (isKept_of_mark (by decide)) _).symm
  · cases found
    exact (Text.kept_cons_of_passed (isKept_of_mark (by decide)) _).symm
  · cases found
    exact (Text.kept_cons_of_passed (isKept_of_mark (by decide)) _).symm
  · split at found
    · next behind =>
      cases found
      have digits : kept (line.dropWhile Text.isDecimalDigit) = kept line :=
        kept_dropWhile (fun _ => isKept_of_digit) line
      rw [← digits, behind]
      exact (Text.kept_cons_of_passed (isKept_of_mark (by decide)) _).symm
    · cases found

theorem kept_item? {kind : ListKind} (found : item? line = some (kind, text)) :
    kept text = kept line := by
  obtain ⟨unindented, indent, found⟩ := Option.bind_eq_some_iff.1 found
  obtain ⟨⟨other, rest⟩, marker, found⟩ := Option.bind_eq_some_iff.1 found
  obtain ⟨-, found⟩ := Option.ite_none_right_eq_some.1 found
  cases found
  rw [kept_dropWhile isKept_of_space, kept_marker? marker, kept_unindent? indent]

theorem kept_quoted? (found : quoted? line = some text) : kept text = kept line := by
  unfold quoted? at found
  split at found
  · next rest indent =>
    cases found
    rw [kept_dropSpace, ← kept_unindent? indent]
    exact (Text.kept_cons_of_passed (isKept_of_mark (by decide)) _).symm
  · cases found

theorem kept_of_isHeadingEnd (ended : isHeadingEnd text = true) : kept text = [] := by
  have passes (c : Char) (mark : decide (c = '#') = true) : Text.isKept c = false :=
    isKept_of_mark (by simp [of_decide_eq_true mark, Text.marks])
  simp only [isHeadingEnd, Bool.or_eq_true, decide_eq_true_eq] at ended
  rw [← kept_dropWhile isKept_of_space, ← kept_dropWhile passes, ← kept_dropWhile isKept_of_space]
  rcases ended with none | feed
  · rw [none]
    rfl
  · rw [feed]
    exact Text.kept_of_isBlank (by decide)

theorem kept_beforeHeadingEnd (text : Text) : kept (beforeHeadingEnd text) = kept text := by
  fun_induction beforeHeadingEnd text with
  | case1 => rfl
  | case2 c rest ended => exact (kept_of_isHeadingEnd ended).symm
  | case3 c rest _ ih => rw [← List.singleton_append, kept_append, ih, ← kept_append, List.singleton_append]

theorem kept_heading? {heading : Heading} (found : heading? line = some heading) :
    kept heading.title = kept line := by
  let level : Nat := min 6 (line.takeWhile (· = '#')).length
  have front : line.take level <+: line.takeWhile (· = '#') :=
    List.prefix_of_prefix_length_le (List.take_prefix _ _) (List.takeWhile_prefix _) (by
      rw [List.length_take]
      exact Nat.le_trans (Nat.min_le_left _ _) (Nat.min_le_right _ _))
  have opened : kept (line.drop level) = kept line := by
    have marked : kept (line.take level) = [] := by
      apply kept_eq_nil
      intro c member
      have mark := List.mem_takeWhile_imp (front.subset member)
      exact isKept_of_mark (by simp [of_decide_eq_true mark, Text.marks])
    have whole := kept_append (line.take level) (line.drop level)
    rwa [List.take_append_drop, marked, List.nil_append, eq_comm] at whole
  unfold heading? at found
  simp only at found
  split at found
  · cases found
  · split at found
    · cases found
      rw [Text.kept_trim, kept_beforeHeadingEnd, kept_dropWhile isKept_of_space, opened]
    · split at found
      · next ended =>
        cases found
        rw [← opened, kept_of_isHeadingEnd ended]
        rfl
      · cases found

theorem kept_of_isRule (ruled : isRule line = true) : kept line = [] := by
  unfold isRule at ruled
  split at ruled
  · next mark rest indent =>
    simp only [Bool.and_eq_true, Bool.or_eq_true, decide_eq_true_eq, List.all_eq_true] at ruled
    obtain ⟨⟨marked, others⟩, -⟩ := ruled
    have marked : Text.isKept mark = false := by
      apply isKept_of_mark
      rcases marked with (rfl | rfl) | rfl <;> decide
    rw [← kept_unindent? indent, Text.kept_cons_of_passed marked]
    apply kept_eq_nil
    intro c member
    rcases others c member with rfl | rfl
    · exact marked
    · exact isKept_of_blank rfl
  · cases ruled

end LineShape

namespace Grammar

open Branch (allOf)
open LineShape (ListKind cut? heading? item? quoted?)

/-! Blocks. -/

variable {block : Text} {rest : List Text}

@[simp] theorem kept_putBack (text : Text) (queue : List Text) :
    kept (putBack text queue).flatten = kept text ++ kept queue.flatten := by
  unfold putBack
  split
  · next blank => rw [Text.kept_of_isBlank blank, List.nil_append]
  · rw [List.flatten_cons, kept_append]

theorem kept_code (block : Text) :
    kept (codeOf block) ++ kept (behindCode block).flatten = kept block := by
  let isCode (line : Text) : Bool := LineShape.isIndented line || line.isBlank
  have code : kept (codeOf block) = kept (block.lines.takeWhile isCode).flatten := by
    rw [codeOf, Text.kept_dropTrailingFeeds, Text.kept_joinLines, kept_map LineShape.kept_dedent]
  have behind : kept (behindCode block).flatten = kept (block.lines.dropWhile isCode).flatten := by
    unfold behindCode
    split
    · next none => rw [none]
    · rw [List.flatten_singleton, Text.kept_joinLines]
  rw [code, behind, ← kept_append, ← List.flatten_append, List.takeWhile_append_dropWhile,
    Text.kept_lines]

theorem kept_cut? {α : Type} {shape : Text → Option α} {cut : LineShape.Cut α}
    (found : cut? shape block = some cut) :
    ∃ line, shape line = some cut.found ∧
      kept cut.before ++ kept line ++ kept cut.behind = kept block := by
  obtain ⟨front, line, behind, same, shaped, before, after⟩ := exists_of_cut? found
  refine ⟨line, shaped, ?_⟩
  rw [before, after, ← Text.kept_lines block, same]
  simp

theorem kept_paragraphText (block : Text) : kept (paragraphText block) = kept block := by
  rw [paragraphText, Text.kept_joinLines, List.flatten_filter_ne_nil, kept_map Text.kept_trim,
    Text.kept_lines]

theorem kept_unquote (block : Text) : kept (unquote block) = kept block := by
  have keeps (line : Text) : kept ((quoted? line).getD line) = kept line := by
    cases found : quoted? line with
    | none => rfl
    | some text => exact LineShape.kept_quoted? found
  rw [unquote, Text.kept_joinLines, kept_map keeps, Text.kept_lines]

theorem kept_itemBodies (kind : ListKind) (lines : List Text) :
    kept (itemBodies kind lines).flatten.flatten =
      kept (lines.dropWhile fun line => (item? line).map (·.1) ≠ some kind).flatten := by
  induction lines with
  | nil => rfl
  | cons line rest ih =>
    cases found : item? line with
    | none => simp [itemBodies, found, ih]
    | some item =>
      obtain ⟨other, text⟩ := item
      by_cases same : other = kind
      · subst same
        have body := kept_map LineShape.kept_dedent
          (rest.takeWhile fun line => (item? line).map (·.1) ≠ some other)
        rw [List.dropWhile_cons_of_neg (by simp [found]), itemBodies, found]
        simp only [if_true, List.flatten_cons, List.flatten_append, kept_append, ih, body,
          LineShape.kept_item? found]
        rw [List.append_assoc, ← kept_append (List.flatten _), ← List.flatten_append,
          List.takeWhile_append_dropWhile]
      · rw [List.dropWhile_cons_of_pos (by simp [found, same]), itemBodies, found]
        simpa only [same, if_false] using ih

theorem kept_listBodies {kind : ListKind} {first : Text}
    (marked : item? block.firstLine = some (kind, first)) :
    kept (itemBodies kind block.lines).flatten.flatten = kept block := by
  obtain ⟨line, rest, same⟩ := Text.exists_lines_eq_cons block
  have start := Text.firstLine_eq_head_lines block
  rw [same, List.head?_cons, Option.some.injEq] at start
  rw [kept_itemBodies, ← Text.kept_lines block, same, start,
    List.dropWhile_cons_of_neg (by simp [marked])]

/-! Branches. -/

/-- What the texts of branches keep, each before those below it. -/
def content (forest : List Branch) : Text := kept ((allOf forest).flatMap Branch.ownText)

variable {forest front before after children : List Branch} {stash : Stash} {tag : String}
  {text : Option Text} {attributes : Attributes}

@[simp] theorem content_nil : content [] = [] := rfl

@[simp] theorem content_append (first second : List Branch) :
    content (first ++ second) = content first ++ content second := by
  simp [content]

@[simp] theorem content_node : content [.node tag text attributes children] =
    kept (text.getD []) ++ content children := by
  simp [content, Branch.ownText]

@[simp] theorem content_code (code : Text) :
    content [codeBranch attributes code] = kept code := by
  simp [codeBranch]

/-- A container keeps what stands in front of it, its own text, and what it holds. -/
theorem content_opens (opens : Opens tag forest front text attributes children) :
    content front ++ kept (text.getD []) ++ content children = content forest := by
  cases opens <;> simp

/-- What a derivation adds to the content. -/
def Adds (stash : Stash) : Work → List Branch → List Branch → Prop
  | .blocks queue, before, after =>
    Flow stash before → content after = content before ++ kept queue.flatten
  | .items bodies, before, after =>
    Items stash before → content after = content before ++ kept bodies.flatten.flatten

/-- Every derivation adds what its work keeps, as long as nothing comes from the stash. -/
theorem Derives.adds (none : stash.fragments = []) {work : Work}
    (derives : Derives stash work before after) : Adds stash work before after := by
  induction derives with
  | done => simp [Adds]
  | empty _ _ ih =>
    intro flow
    rw [ih flow]
    simp
  | @newCode block _ _ _ _ apart _ ih =>
    intro flow
    rw [ih (flow.code _ fun last atEnd pre => absurd pre (flow.code_apart apart last atEnd))]
    simp [← kept_code block]
  | @moreCode block _ _ _ _ _ _ _ _ _ _ _ ih =>
    intro flow
    obtain ⟨rfl, rfl⟩ := flow.lone_code
    rw [ih (flow.moreCode _)]
    simp [← kept_code block]
  | heading found first _ ihFront ihBehind =>
    intro flow
    obtain ⟨line, shaped, parts⟩ := kept_cut? found
    rw [ihBehind ((first.keeps flow).leaf (headingTag_mem (level_of_heading? shaped))), content_append,
      ihFront flow]
    simp [← parts, LineShape.kept_heading? shaped]
  | rule found first _ ihFront ihBehind =>
    intro flow
    obtain ⟨line, shaped, parts⟩ := kept_cut? found
    have ruled := LineShape.kept_of_isRule (Option.ite_none_right_eq_some.1 shaped).1
    rw [ihBehind ((first.keeps flow).leaf (by decide)), content_append, ihFront flow]
    simp [← parts, ruled]
  | list marked opens items _ ihItems ihRest =>
    intro flow
    have start := items_listed flow opens
    obtain ⟨items', filled⟩ := items.keeps start
    rw [ihRest (flow.listed opens items' (filled (.inl (itemBodies_ne_nil marked)))), content_append,
      content_node, ihItems start, kept_listBodies marked, ← content_opens opens]
    simp
  | quote _ opens inside _ ihInside ihRest =>
    intro flow
    have start := flow_quoted flow opens
    rw [ihRest (flow.quoted opens (inside.keeps start)), content_append, content_node, ihInside start,
      Text.kept_blocks, kept_unquote, ← content_opens opens]
    simp
  | stash resolved _ _ =>
    obtain ⟨number, -, held⟩ := Option.bind_eq_some_iff.1 resolved
    simp [Stash.get?, none] at held
  | @paragraph block _ _ _ written _ ih =>
    intro flow
    rw [ih (flow.paragraph written)]
    simp [kept_paragraphText block]
  | @nothing block _ _ _ blank _ ih =>
    intro flow
    rw [ih flow]
    simp [← kept_paragraphText block, blank]
  | noItem => simp [Adds]
  | tight _ _ ihInside ih =>
    intro items
    have inside := ihInside (flow_nil stash)
    rw [ih items.tight]
    simpa using inside
  | loose inside _ ihInside ihRest =>
    intro items
    rw [ihRest (items.loose (inside.keeps (flow_nil stash))), content_append, content_node,
      ihInside (flow_nil stash)]
    simp

/-- The grammar loses no content, repeats none, and leaves it in order: what the texts keep is what the
elements keep, read from the root downwards. -/
theorem reference_content (texts : List Text) :
    ∃ after whole, reference.parseTexts Session.new Tree.root texts = .ok after ∧
      after.tree.branch? after.tree.size Tree.root = some whole ∧
      kept (whole.all.flatMap Branch.ownText) = kept texts.flatten := by
  have held : Tree.root < Session.new.tree.size := Nat.one_pos
  obtain ⟨tree, ran, grown, derives⟩ := parseTexts_derives Tree.ordered_empty held texts
  obtain ⟨element, found, -, text, -⟩ := grown.exists_get?_top Tree.ordered_empty rfl
  have added : content (tree.branches Tree.root) = kept texts.flatten := by
    rw [derives.adds rfl (flow_nil _), Text.kept_flatMap_blocks]
    rfl
  refine ⟨_, _, ran, Tree.branch?_size found, ?_⟩
  rw [Branch.all_node, List.flatMap_cons, kept_append, Branch.ownText, Branch.text_node, text, ← added]
  rfl

end Grammar

end Tracemark
