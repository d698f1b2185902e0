import Mathlib.Data.List.Chain
import Mathlib.Tactic.IntervalCases
import Tracemark.Proofs.Grammar.DerivedRun
import Tracemark.Proofs.Text.Kept

/-! The shape of what the grammar writes.

Lists hold items and nothing else does, code stands in preformatted blocks, and leaves hold nothing.
A block that could go on with the one before it does not stand beside it. These are rules on a branch
and its children, and each step of a derivation keeps them for the branches under an element, provided
that no item and no code is among these branches themselves.
-/

set_option autoImplicit false

namespace Tracemark

namespace Branch

def listTags : List String := ["ul", "ol"]

def leafTags : List String := ["p", "h1", "h2", "h3", "h4", "h5", "h6", "hr", "code"]

/-- Siblings that stand side by side: no two lists of a kind, no two quotes, and no two code blocks
unless the stash holds code. -/
def Apart (stash : Stash) (first second : Branch) : Prop :=
  first.tag = second.tag → first.tag ∉ ["ul", "ol", "blockquote"] ∧
    (stash.fragments = [] → first.tag ≠ "pre")

def Tidy (text : Text) : Prop :=
  text ≠ [] ∧ ∀ line ∈ text.lines, line ≠ [] ∧ line.trim = line

structure Shaped (stash : Stash) (branch : Branch) : Prop where
  items : ∀ child ∈ branch.children, child.tag = "li" ↔ branch.tag ∈ listTags
  filled : branch.tag ∈ listTags → branch.children ≠ []
  item : branch.tag = "li" → branch.text = none ∨ branch.children = []
  coded : ∀ child ∈ branch.children, child.tag = "code" → branch.tag = "pre"
  code : branch.tag = "pre" →
    ∃ code text, branch.children = [code] ∧ code.tag = "code" ∧ code.text = some text
  leaf : branch.tag ∈ leafTags → branch.children = []
  paragraph : branch.tag = "p" → ∃ text, branch.text = some text ∧ Tidy text
  apart : branch.children.IsChain (Apart stash)

end Branch

namespace Grammar

open Branch (Apart Shaped Tidy allOf leafTags listTags)
open Tracemark.LineShape (Heading ListKind cut? heading? item?)

variable {stash : Stash} {tag : String} {text : Option Text} {attributes : Attributes}
  {children forest front back before after : List Branch} {branch : Branch}

/-- Branches that may stand under any element that is no list and no code block. -/
structure Flow (stash : Stash) (forest : List Branch) : Prop where
  shaped : ∀ branch ∈ allOf forest, branch.Shaped stash
  inner : ∀ branch ∈ forest, branch.tag ≠ "li" ∧ branch.tag ≠ "code"
  apart : forest.IsChain (Apart stash)

/-- Branches that may stand under a list. -/
structure Items (stash : Stash) (forest : List Branch) : Prop where
  shaped : ∀ branch ∈ allOf forest, branch.Shaped stash
  item : ∀ branch ∈ forest, branch.tag = "li"

/-! Forests that grow at their end. -/

theorem forall_mem_allOf_concat {holds : Branch → Prop} :
    (∀ branch ∈ allOf (front ++ [.node tag text attributes children]), holds branch) ↔
      (∀ branch ∈ allOf front, holds branch) ∧ holds (.node tag text attributes children) ∧
        ∀ branch ∈ allOf children, holds branch := by
  rw [Branch.allOf_append, List.forall_mem_append, Branch.allOf_cons, Branch.allOf_nil,
    List.append_nil, Branch.all_node, List.forall_mem_cons]

theorem flow_nil (stash : Stash) : Flow stash [] := ⟨by simp, by simp, .nil⟩

theorem items_nil (stash : Stash) : Items stash [] := ⟨by simp, by simp⟩

theorem Flow.of_append (flow : Flow stash (front ++ back)) : Flow stash front where
  shaped branch member := flow.shaped branch (by simp [member])
  inner branch member := flow.inner branch (by simp [member])
  apart := (List.isChain_append.1 flow.apart).1

theorem Flow.concat (flow : Flow stash front)
    (shaped : Shaped stash (.node tag text attributes children))
    (below : ∀ branch ∈ allOf children, branch.Shaped stash) (inner : tag ≠ "li" ∧ tag ≠ "code")
    (apart : ∀ last ∈ front.getLast?, Apart stash last (.node tag text attributes children)) :
    Flow stash (front ++ [.node tag text attributes children]) where
  shaped := forall_mem_allOf_concat.2 ⟨flow.shaped, shaped, below⟩
  inner := List.forall_mem_append.2 ⟨flow.inner, List.forall_mem_singleton.2 inner⟩
  apart := by
    refine List.isChain_append.2 ⟨flow.apart, .singleton _, ?_⟩
    intro last atEnd next new
    cases new
    exact apart last atEnd

theorem Flow.last (flow : Flow stash (front ++ [.node tag text attributes children])) :
    Shaped stash (.node tag text attributes children) ∧
      (∀ branch ∈ allOf children, branch.Shaped stash) ∧
      ∀ last ∈ front.getLast?, Apart stash last (.node tag text attributes children) := by
  obtain ⟨-, shaped, below⟩ := forall_mem_allOf_concat.1 flow.shaped
  exact ⟨shaped, below, fun last atEnd => (List.isChain_append.1 flow.apart).2.2 last atEnd _ rfl⟩

theorem Items.concat (items : Items stash forest)
    (shaped : Shaped stash (.node "li" text attributes children))
    (below : ∀ branch ∈ allOf children, branch.Shaped stash) :
    Items stash (forest ++ [.node "li" text attributes children]) where
  shaped := forall_mem_allOf_concat.2 ⟨items.shaped, shaped, below⟩
  item := List.forall_mem_append.2 ⟨items.item, List.forall_mem_singleton.2 rfl⟩

theorem Items.apart (items : Items stash forest) : forest.IsChain (Apart stash) := by
  rw [List.isChain_iff_forall_rel_of_append_cons_cons]
  intro first second before after same _
  rw [items.item first (by simp [same])]
  exact ⟨by simp, fun _ => by simp⟩

/-! Shaped branches. -/

theorem shaped_leaf (plain : tag ∉ ["ul", "ol", "pre"])
    (tidy : tag = "p" → ∃ tidy, text = some tidy ∧ Tidy tidy) :
    Shaped stash (.node tag text attributes []) where
  items := by simp
  filled list := absurd list fun list => plain (by simp_all [listTags])
  item _ := .inr rfl
  coded := by simp
  code pre := absurd pre fun pre => plain (by simp_all)
  leaf _ := rfl
  paragraph := tidy
  apart := .nil

theorem shaped_flow (plain : tag ∉ ["ul", "ol", "pre"] ++ leafTags) (bare : tag = "li" → text = none)
    (flow : Flow stash children) : Shaped stash (.node tag text attributes children) where
  items child member := iff_of_false (flow.inner child member).1 fun list =>
    plain (by simp_all [listTags])
  filled list := absurd list fun list => plain (by simp_all [listTags])
  item item := .inl (bare item)
  coded child member coded := absurd coded (flow.inner child member).2
  code pre := absurd pre fun pre => plain (by simp_all)
  leaf leaf := absurd leaf fun leaf => plain (List.mem_append_right _ leaf)
  paragraph paragraph := absurd paragraph fun paragraph => plain (by simp_all [leafTags])
  apart := flow.apart

theorem shaped_list (kind : ListKind) (items : Items stash children) (filled : children ≠ []) :
    Shaped stash (.node kind.tag text attributes children) where
  items child member :=
    iff_of_true (items.item child member) (by cases kind <;> simp [ListKind.tag, listTags])
  filled _ := filled
  item item := absurd item (by cases kind <;> simp [ListKind.tag])
  coded child member coded := absurd (coded.symm.trans (items.item child member)) (by decide)
  code pre := absurd pre (by cases kind <;> simp [ListKind.tag])
  leaf leaf := absurd leaf (by cases kind <;> simp [ListKind.tag, leafTags])
  paragraph paragraph := absurd paragraph (by cases kind <;> simp [ListKind.tag])
  apart := items.apart

theorem shaped_code {code : Text} {inner : Attributes} :
    Shaped stash (.node "pre" text attributes [.node "code" (some code) inner []]) where
  items := by simp [listTags]
  filled := by simp
  item := by simp
  coded := by simp
  code _ := ⟨_, code, rfl, rfl, rfl⟩
  leaf := by simp [leafTags]
  paragraph := by simp
  apart := .singleton _

theorem Flow.code_apart (flow : Flow stash forest) (apart : ¬EndsInCode forest) :
    ∀ last ∈ forest.getLast?, last.tag ≠ "pre" := by
  intro last atEnd pre
  obtain ⟨front, rfl⟩ := List.getLast?_eq_some_iff.1 atEnd
  obtain ⟨tag, text, attributes, children⟩ := last
  cases pre
  obtain ⟨code, _, same, coded, -⟩ := flow.last.1.code rfl
  cases same
  exact apart ⟨front, text, attributes, code, [], rfl, coded⟩

/-- A container keeps its place when what it holds is replaced. -/
theorem Flow.refill (flow : Flow stash forest) (opens : Opens tag forest front text attributes children)
    (inner : tag ≠ "li" ∧ tag ≠ "code" ∧ tag ≠ "pre") {children' : List Branch}
    (shaped : Shaped stash (.node tag text attributes children'))
    (below : ∀ branch ∈ allOf children', branch.Shaped stash) :
    Flow stash (front ++ [.node tag text attributes children']) := by
  cases opens with
  | last => exact flow.of_append.concat shaped below ⟨inner.1, inner.2.1⟩ flow.last.2.2
  | fresh other =>
    refine flow.concat shaped below ⟨inner.1, inner.2.1⟩ fun last atEnd same => ?_
    exact absurd same (other last atEnd)

/-! What a step writes. -/

theorem flow_quoted (flow : Flow stash forest)
    (opens : Opens "blockquote" forest front text attributes children) : Flow stash children := by
  cases opens with
  | fresh _ => exact flow_nil stash
  | last =>
    obtain ⟨shaped, below, -⟩ := flow.last
    refine ⟨below, fun branch member => ⟨fun item => ?_, fun code => ?_⟩, shaped.apart⟩
    · exact absurd ((shaped.items branch member).1 item) (by simp [listTags])
    · exact absurd (shaped.coded branch member code) (by simp)

theorem items_listed {kind : ListKind} (flow : Flow stash forest)
    (opens : Opens kind.tag forest front text attributes children) : Items stash children := by
  cases opens with
  | fresh _ => exact items_nil stash
  | last =>
    obtain ⟨shaped, below, -⟩ := flow.last
    refine ⟨below, fun branch member => (shaped.items branch member).2 ?_⟩
    cases kind <;> simp [ListKind.tag, listTags]

theorem itemBodies_ne_nil {kind : ListKind} {block first : Text}
    (marked : item? block.firstLine = some (kind, first)) : itemBodies kind block.lines ≠ [] := by
  obtain ⟨line, rest, same⟩ := Text.exists_lines_eq_cons block
  have start := Text.firstLine_eq_head_lines block
  rw [same, List.head?_cons, Option.some.injEq] at start
  rw [same, itemBodies, start, marked]
  simp

theorem tidy_paragraphText {block : Text} (written : paragraphText block ≠ []) :
    Tidy (paragraphText block) := by
  let pieces : List Text := (block.lines.map Text.trim).filter (· ≠ [])
  have some_piece : pieces ≠ [] := fun none => written (congrArg Text.joinLines none)
  have unbroken : ∀ piece ∈ pieces, '\n' ∉ piece := by
    intro piece member feed
    obtain ⟨line, listed, rfl⟩ := List.mem_map.1 (List.mem_filter.1 member).1
    exact Text.not_mem_of_mem_lines listed (Text.trim_subset line feed)
  refine ⟨written, ?_⟩
  rw [paragraphText, Text.lines_joinLines some_piece unbroken]
  intro piece member
  obtain ⟨listed, filled⟩ := List.mem_filter.1 member
  obtain ⟨line, -, rfl⟩ := List.mem_map.1 listed
  exact ⟨of_decide_eq_true filled, Text.trim_trim line⟩

theorem level_of_heading? {line : Text} {heading : Heading} (found : heading? line = some heading) :
    1 ≤ heading.level ∧ heading.level ≤ 6 := by
  unfold heading? at found
  simp only at found
  split at found
  · cases found
  · next some_mark =>
    have bounds : 1 ≤ min 6 (line.takeWhile (· = '#')).length ∧
        min 6 (line.takeWhile (· = '#')).length ≤ 6 := ⟨by omega, Nat.min_le_left _ _⟩
    split at found
    · cases found
      exact bounds
    · split at found
      · cases found
        exact bounds
      · cases found

def freeTags : List String := ["h1", "h2", "h3", "h4", "h5", "h6", "hr"]

theorem headingTag_mem {level : Nat} (bounds : 1 ≤ level ∧ level ≤ 6) :
    headingTag level ∈ freeTags := by
  obtain ⟨some_mark, few⟩ := bounds
  interval_cases level <;> decide

theorem Flow.leaf (flow : Flow stash forest) (member : tag ∈ freeTags) :
    Flow stash (forest ++ [.node tag text attributes []]) := by
  have apart (other : String) (none : other ∉ freeTags) : tag ≠ other := fun same =>
    none (same ▸ member)
  apply flow.concat
  · apply shaped_leaf
    · simp [apart "ul" (by decide), apart "ol" (by decide), apart "pre" (by decide)]
    · exact fun same => absurd same (apart "p" (by decide))
  · simp
  · exact ⟨apart "li" (by decide), apart "code" (by decide)⟩
  · intro last _ same
    rw [same]
    simp [apart "ul" (by decide), apart "ol" (by decide), apart "blockquote" (by decide),
      apart "pre" (by decide)]

theorem Flow.paragraph (flow : Flow stash forest) {block : Text} (written : paragraphText block ≠ []) :
    Flow stash (forest ++ [.node "p" (some (paragraphText block)) {} []]) := by
  apply flow.concat
  · exact shaped_leaf (by decide) fun _ => ⟨_, rfl, tidy_paragraphText written⟩
  · simp
  · decide
  · intro last _ same
    rw [same]
    simp

theorem Flow.code (flow : Flow stash forest) (code : Text)
    (apart : ∀ last ∈ forest.getLast?, last.tag = "pre" → stash.fragments ≠ []) :
    Flow stash (forest ++ [codeBranch attributes code]) := by
  apply flow.concat shaped_code
  · have leaf : Shaped stash (.node "code" (some code) attributes []) :=
      shaped_leaf (by decide) (by simp)
    simpa using leaf
  · decide
  · intro last atEnd same
    rw [same]
    exact ⟨by simp, fun none => absurd none (apart last atEnd same)⟩

section

variable {old : Option Text} {inner : Attributes} {others : List Branch}

theorem Flow.lone_code (flow : Flow stash
    (front ++ [.node "pre" text attributes (.node "code" old inner children :: others)])) :
    children = [] ∧ others = [] := by
  obtain ⟨shaped, below, -⟩ := flow.last
  obtain ⟨only, _, same, -⟩ := shaped.code rfl
  have leaf := below (.node "code" old inner children) (by simp)
  exact ⟨leaf.leaf (by simp [leafTags]), (List.cons.inj same).2⟩

theorem Flow.moreCode (flow : Flow stash
    (front ++ [.node "pre" text attributes (.node "code" old inner children :: others)]))
    (code : Text) : Flow stash
      (front ++ [.node "pre" text attributes (.node "code" (some code) inner children :: others)]) := by
  obtain ⟨rfl, rfl⟩ := flow.lone_code
  apply flow.of_append.concat shaped_code _ (by decide) flow.last.2.2
  have leaf : Shaped stash (.node "code" (some code) inner []) := shaped_leaf (by decide) (by simp)
  simpa using leaf

end

theorem Flow.listed {kind : ListKind} (flow : Flow stash forest)
    (opens : Opens kind.tag forest front text attributes children) {children' : List Branch}
    (items : Items stash children') (filled : children' ≠ []) :
    Flow stash (front ++ [.node kind.tag text attributes children']) := by
  apply flow.refill opens _ (shaped_list kind items filled) items.shaped
  cases kind <;> decide

theorem Flow.quoted (flow : Flow stash forest)
    (opens : Opens "blockquote" forest front text attributes children) {children' : List Branch}
    (inside : Flow stash children') :
    Flow stash (front ++ [.node "blockquote" text attributes children']) :=
  flow.refill opens (by decide) (shaped_flow (by decide) (by simp) inside) inside.shaped

theorem Items.tight (items : Items stash forest) :
    Items stash (forest ++ [.node "li" text {} []]) :=
  items.concat (shaped_leaf (by decide) (by simp)) (by simp)

theorem Items.loose (items : Items stash forest) (inside : Flow stash children) :
    Items stash (forest ++ [.node "li" none {} children]) :=
  items.concat (shaped_flow (by decide) (fun _ => rfl) inside) inside.shaped

def Keeps (stash : Stash) : Work → List Branch → List Branch → Prop
  | .blocks _, before, after => Flow stash before → Flow stash after
  | .items bodies, before, after =>
    Items stash before → Items stash after ∧ (bodies ≠ [] ∨ before ≠ [] → after ≠ [])

/-- Every derivation keeps the shape of the branches it works on. -/
theorem Derives.keeps {work : Work} (derives : Derives stash work before after) :
    Keeps stash work before after := by
  induction derives with
  | done => exact id
  | empty _ _ ih => exact ih
  | newCode _ apart _ ih =>
    intro flow
    apply ih
    exact flow.code _ fun last atEnd pre => absurd pre (flow.code_apart apart last atEnd)
  | moreCode _ _ ih => exact fun flow => ih (flow.moreCode _)
  | heading found _ _ ihFront ihBehind =>
    intro flow
    obtain ⟨_, line, _, -, shaped, -, -⟩ := exists_of_cut? found
    exact ihBehind ((ihFront flow).leaf (headingTag_mem (level_of_heading? shaped)))
  | rule _ _ _ ihFront ihBehind => exact fun flow => ihBehind ((ihFront flow).leaf (by decide))
  | list marked opens _ _ ihItems ihRest =>
    intro flow
    obtain ⟨items, filled⟩ := ihItems (items_listed flow opens)
    exact ihRest (flow.listed opens items (filled (.inl (itemBodies_ne_nil marked))))
  | quote _ opens _ _ ihInside ihRest =>
    intro flow
    exact ihRest (flow.quoted opens (ihInside (flow_quoted flow opens)))
  | stash resolved _ ih =>
    intro flow
    apply ih
    obtain ⟨number, -, held⟩ := Option.bind_eq_some_iff.1 resolved
    apply flow.code
    intro _ _ _ none
    simp [Stash.get?, none] at held
  | paragraph written _ ih => exact fun flow => ih (flow.paragraph written)
  | nothing _ _ ih => exact ih
  | noItem => exact fun items => ⟨items, fun some_item => some_item.resolve_left (absurd rfl)⟩
  | tight _ _ _ ih =>
    intro items
    obtain ⟨items', filled⟩ := ih items.tight
    exact ⟨items', fun _ => filled (.inr (by simp))⟩
  | loose _ _ ihInside ihRest =>
    intro items
    obtain ⟨items', filled⟩ := ihRest (items.loose (ihInside (flow_nil _)))
    exact ⟨items', fun _ => filled (.inr (by simp))⟩

/-- Whatever texts are parsed, what the grammar writes has its shape at every depth. -/
theorem reference_shape (stash : Stash) (texts : List Text) :
    ∃ after whole, reference.parseTexts { Session.new with stash } Tree.root texts = .ok after ∧
      after.tree.branch? after.tree.size Tree.root = some whole ∧ whole.tag = "div" ∧
      ∀ branch ∈ whole.all, branch.Shaped stash := by
  let session : Session := { Session.new with stash }
  have held : Tree.root < session.tree.size := Nat.one_pos
  obtain ⟨tree, ran, grown, derives⟩ := parseTexts_derives Tree.ordered_empty held texts
  obtain ⟨element, found, tag, -⟩ := grown.exists_get?_top Tree.ordered_empty rfl
  have nothing : session.tree.branches Tree.root = [] := rfl
  have flow : Flow stash (tree.branches Tree.root) := by
    apply derives.keeps
    rw [nothing]
    exact flow_nil stash
  have top : element.tag = "div" := tag
  refine ⟨_, _, ran, Tree.branch?_size found, top, ?_⟩
  rw [Branch.all_node, List.forall_mem_cons]
  rw [top]
  exact ⟨shaped_flow (by decide) (by simp) flow, flow.shaped⟩

end Grammar

end Tracemark
