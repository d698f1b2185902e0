import Tracemark.Proofs.Grammar.DerivedRun
import Tracemark.Proofs.Grammar.Marked

/-! Listed texts.

A text is written as an item by a bullet and a space in front of its first line and four spaces in front
of its other lines. Items that are written one below another are one block, in which the lines behind
bullets are all the items there are, and the indentation is taken off again as it was put on. So the
block becomes a list, with one item for each text that is made of what the text becomes alone.
-/

set_option autoImplicit false

namespace Tracemark

open Tracemark.Dispatch (run weight)
open Tracemark.LineShape (dedent heading? isRule item? unindent?)
open Tracemark.Tree (Grows)

namespace LineShape

def indented (line : Text) : Text := List.replicate tabWidth ' ' ++ line

variable (line : Text)

theorem unindent?_indented : unindent? (indented line) = none := by
  have deep : ((indented line).takeWhile (· = ' ')).length = 4 + (line.takeWhile (· = ' ')).length := by
    simp [indented, tabWidth, List.replicate]
    omega
  rw [unindent?, if_neg (by omega)]

theorem item?_indented : item? (indented line) = none := by
  rw [item?, unindent?_indented]
  rfl

theorem isRule_indented : isRule (indented line) = false := by
  rw [isRule, unindent?_indented]

theorem heading?_indented : heading? (indented line) = none := rfl

theorem dedent_indented : dedent (indented line) = line := rfl

end LineShape

namespace Grammar

open LineShape (indented)

def bullets : List Char := ['*', '+', '-']

def itemLines (mark : Char) (text : Text) : List Text :=
  (mark :: ' ' :: text.firstLine) :: text.lines.tail.map indented

def listed (mark : Char) (texts : List Text) : Text := Text.joinLines (texts.flatMap (itemLines mark))

/-- The first line of a text is an item's behind a mark: it has no spaces of its own in front, and does
not make a rule of the mark. -/
structure Listable (mark : Char) (text : Text) : Prop where
  flush : text.firstLine.head? ≠ some ' '
  noRule : isRule (mark :: ' ' :: text.firstLine) = false

instance (mark : Char) (text : Text) : Decidable (Listable mark text) :=
  decidable_of_iff (text.firstLine.head? ≠ some ' ' ∧ isRule (mark :: ' ' :: text.firstLine) = false)
    ⟨fun both => ⟨both.1, both.2⟩, fun listable => ⟨listable.flush, listable.noRule⟩⟩

variable {mark : Char} {text first : Text} {texts : List Text}

/-! Lines. -/

theorem mem_bullets : mark ∈ bullets ↔ mark = '*' ∨ mark = '+' ∨ mark = '-' := by
  simp [bullets]

theorem item?_marked (bullet : mark ∈ bullets) (flush : first.head? ≠ some ' ') :
    item? (mark :: ' ' :: first) = some (.unordered, first) := by
  have kept : first.dropWhile (· = ' ') = first := by
    cases first with
    | nil => rfl
    | cons c rest => exact List.dropWhile_cons_of_neg (by simpa using flush)
  have found : item? (mark :: ' ' :: first) = some (.unordered, first.dropWhile (· = ' ')) := by
    rcases mem_bullets.1 bullet with rfl | rfl | rfl <;> rfl
  rw [found, kept]

theorem heading?_marked (bullet : mark ∈ bullets) (line : Text) : heading? (mark :: line) = none := by
  rcases mem_bullets.1 bullet with rfl | rfl | rfl <;> rfl

theorem cons_firstLine (text : Text) : text.firstLine :: text.lines.tail = text.lines := by
  obtain ⟨line, rest, same⟩ := Text.exists_lines_eq_cons text
  have start := Text.firstLine_eq_head_lines text
  rw [same, List.head?_cons, Option.some.injEq] at start
  rw [same, ← start, List.tail_cons]

theorem forall_itemLines {property : Text → Prop}
    (marked : ∀ text ∈ texts, property (mark :: ' ' :: text.firstLine))
    (below : ∀ line, '\n' ∉ line → property (indented line)) :
    ∀ line ∈ texts.flatMap (itemLines mark), property line := by
  intro line member
  obtain ⟨text, inside, member⟩ := List.mem_flatMap.1 member
  rcases List.mem_cons.1 member with rfl | member
  · exact marked text inside
  · obtain ⟨line, held, rfl⟩ := List.mem_map.1 member
    exact below line (Text.not_mem_of_mem_lines (List.mem_of_mem_tail held))

theorem itemLines_ne_nil (some_text : texts ≠ []) : texts.flatMap (itemLines mark) ≠ [] := by
  obtain ⟨text, others, rfl⟩ := List.exists_cons_of_ne_nil some_text
  exact List.cons_ne_nil _ _

theorem unbroken_itemLines (bullet : mark ∈ bullets) :
    ∀ line ∈ texts.flatMap (itemLines mark), '\n' ∉ line := by
  apply forall_itemLines
  · intro text _
    have notFeed : mark ≠ '\n' := by
      rintro rfl
      exact absurd bullet (by decide)
    have unbroken : '\n' ∉ text.firstLine :=
      fun member => absurd (List.mem_takeWhile_imp member) (by simp)
    simp [unbroken, Ne.symm notFeed]
  · intro line unbroken
    simp [indented, tabWidth, List.replicate, unbroken]

theorem lines_listed (bullet : mark ∈ bullets) (some_text : texts ≠ []) :
    (listed mark texts).lines = texts.flatMap (itemLines mark) :=
  Text.lines_joinLines (itemLines_ne_nil some_text) (unbroken_itemLines bullet)

theorem blocks_listed (bullet : mark ∈ bullets) (some_text : texts ≠ []) :
    (listed mark texts).blocks = [listed mark texts] := by
  apply Text.blocks_joinLines_of_ne_nil (itemLines_ne_nil some_text) (unbroken_itemLines bullet)
  exact forall_itemLines (fun _ _ => List.cons_ne_nil _ _) fun _ _ => List.cons_ne_nil _ _

theorem exists_listed_eq_cons (mark : Char) (some_text : texts ≠ []) :
    ∃ rest, listed mark texts = mark :: rest := by
  obtain ⟨text, others, rfl⟩ := List.exists_cons_of_ne_nil some_text
  obtain ⟨more, whole⟩ := Text.exists_joinLines_eq_append (mark :: ' ' :: text.firstLine)
    (text.lines.tail.map indented ++ others.flatMap (itemLines mark))
  exact ⟨_, whole⟩

/-! Items. -/

-- Indented lines before the first item belong to none.
theorem itemBodies_indented (kind : LineShape.ListKind) (lines rest : List Text) :
    itemBodies kind (lines.map indented ++ rest) = itemBodies kind rest := by
  induction lines with
  | nil => rfl
  | cons line lines ih =>
    rw [List.map_cons, List.cons_append, itemBodies, LineShape.item?_indented]
    exact ih

theorem itemBodies_listed (bullet : mark ∈ bullets) (listable : ∀ text ∈ texts, Listable mark text) :
    itemBodies .unordered (texts.flatMap (itemLines mark)) = texts.map Text.lines := by
  induction texts with
  | nil => rfl
  | cons text texts ih =>
    obtain ⟨here, later⟩ := List.forall_mem_cons.1 listable
    let isOther (line : Text) : Bool := (item? line).map (·.1) ≠ some .unordered
    have below : ∀ line ∈ text.lines.tail.map indented, isOther line = true := by
      intro line member
      obtain ⟨line, -, rfl⟩ := List.mem_map.1 member
      simp [isOther, LineShape.item?_indented]
    -- The next item starts where the indented lines end.
    have next : (texts.flatMap (itemLines mark)).takeWhile isOther = [] := by
      cases texts with
      | nil => rfl
      | cons text texts =>
        rw [List.flatMap_cons, itemLines, List.cons_append]
        apply List.takeWhile_cons_of_neg
        simp [isOther, item?_marked bullet (later text List.mem_cons_self).flush]
    have taken : (text.lines.tail.map indented ++ texts.flatMap (itemLines mark)).takeWhile isOther =
        text.lines.tail.map indented := by
      rw [List.takeWhile_append_of_pos below, next, List.append_nil]
    have restored : (text.lines.tail.map indented).map dedent = text.lines.tail := by
      simp [Function.comp_def, LineShape.dedent_indented]
    have body : text.firstLine :: ((text.lines.tail.map indented ++
        texts.flatMap (itemLines mark)).takeWhile isOther).map dedent = text.lines := by
      rw [taken, restored, cons_firstLine]
    rw [List.flatMap_cons, itemLines, List.cons_append, itemBodies, item?_marked bullet here.flush]
    simp only [if_true]
    rw [itemBodies_indented, ih later, List.map_cons]
    exact congrArg (· :: _) body

/-! Lists. -/

theorem exists_item?_listed (bullet : mark ∈ bullets) (some_text : texts ≠ [])
    (listable : ∀ text ∈ texts, Listable mark text) :
    ∃ first, item? (listed mark texts).firstLine = some (.unordered, first) := by
  have start := Text.firstLine_eq_head_lines (listed mark texts)
  rw [lines_listed bullet some_text] at start
  obtain ⟨text, others, rfl⟩ := List.exists_cons_of_ne_nil some_text
  rw [List.flatMap_cons, itemLines, List.cons_append, List.head?_cons, Option.some.injEq] at start
  rw [← start]
  exact ⟨_, item?_marked bullet (listable text List.mem_cons_self).flush⟩

/-- No handler before the lists takes items. -/
theorem rejected_listed (bullet : mark ∈ bullets) (some_text : texts ≠ [])
    (listable : ∀ text ∈ texts, Listable mark text) (session : Session) (parent : NodeId) :
    ∀ handler ∈ [empty, indentedCode, heading, rule],
      handler.accepts session parent (listed mark texts) = false := by
  obtain ⟨rest, same⟩ := exists_listed_eq_cons mark some_text
  have lines := lines_listed bullet some_text
  rw [same] at lines ⊢
  have visible : Text.isBlankChar mark = false := by
    rcases mem_bullets.1 bullet with rfl | rfl | rfl <;> rfl
  apply rejected_of_marked visible
  · rw [lines]
    exact forall_itemLines (fun text _ => heading?_marked bullet _)
      fun line _ => LineShape.heading?_indented line
  · rw [lines]
    exact forall_itemLines (fun text member => (listable text member).noRule)
      fun line _ => LineShape.isRule_indented line

/-- Each item is written behind the items that are there, with what its text becomes alone. An item is
the youngest element of the tree when its text is parsed. -/
theorem writeItems_alone (session : Session) {parent : NodeId} {budget : Nat}
    (light : ∀ text ∈ texts, weight text.blocks < budget) (ordered : session.tree.Ordered)
    (valid : parent < session.tree.size) :
    ∃ inners after,
      List.Forall₂ (fun text inner =>
        reference.parseText (session.setTree .empty) Tree.root text = .ok inner) texts inners ∧
      writeItems (run members budget) parent (texts.map Text.lines) session =
        .ok (session.setTree after) ∧
      Grows parent session.tree after ∧
      after.branches parent = session.tree.branches parent ++
        inners.map fun inner => tightened inner.tree.forest := by
  induction texts generalizing session with
  | nil => exact ⟨[], session.tree, .nil, rfl, .refl ordered, (List.append_nil _).symm⟩
  | cons text texts ih =>
    obtain ⟨small, later⟩ := List.forall_mem_cons.1 light
    let item : NodeId := session.tree.size
    let made : Tree := session.tree.attached parent { tag := "li" }
    have bare : made.childrenOf item = [] := Tree.childrenOf_eq (Tree.get?_attached_self valid)
    have notRoot : item ≠ Tree.root := Nat.ne_of_gt (Nat.zero_lt_of_lt valid)
    obtain ⟨alone, filled, first, ran, grown, inside⟩ :=
      Dispatch.run_relocated (session.setTree made) members_lawful (ordered.attached valid rfl)
        Tree.size_attached notRoot bare small small
    have first' := (parseText_eq_run Tree.ordered_empty Nat.one_pos small).trans first
    obtain ⟨tight, ran', whole⟩ := exists_tightened ordered valid grown
    have written := branches_of_tighten ordered valid grown ran'
    obtain ⟨inners, after, others, wrote, grown', branches⟩ :=
      ih (session.setTree tight) later whole.ordered (whole.lt_size valid)
    refine ⟨session.setTree alone :: inners, after, .cons first' others, ?_,
      whole.trans grown' valid, ?_⟩
    · rw [List.map_cons, writeItems]
      change (session.tree.attach parent { tag := "li" }).bind _ = _
      rw [Tree.attach_eq_ok valid]
      change (run members budget (session.setTree made) item (Text.joinLines text.lines).blocks).bind _ = _
      rw [Text.joinLines_lines, ran]
      change (tighten filled item).bind _ = _
      rw [ran']
      exact wrote
    · change _ = tight.branches parent ++ _ at branches
      rw [branches, written, inside, List.append_assoc]
      rfl

/-- Texts that are listed become one list, with one item for each text that is made of what the text
becomes alone. -/
theorem parseText_listed (stash : Stash) (bullet : mark ∈ bullets) (some_text : texts ≠ [])
    (listable : ∀ text ∈ texts, Listable mark text) :
    ∃ inners outer,
      List.Forall₂ (fun text inner => reference.parseText (fresh stash) Tree.root text = .ok inner)
        texts inners ∧
      reference.parseText (fresh stash) Tree.root (listed mark texts) = .ok outer ∧
      outer.tree.forest = [.node "ul" none {} (inners.map fun inner => tightened inner.tree.forest)] := by
  let made : Tree := Tree.empty.attached Tree.root { tag := "ul" }
  have valid : Tree.root < Tree.empty.size := Nat.one_pos
  have ordered : made.Ordered := Tree.ordered_empty.attached valid rfl
  have children : made.childrenOf Tree.root = [] ++ [1] := rfl
  have held : 1 < made.size := Nat.lt_succ_self 1
  have lines := lines_listed bullet some_text
  have bodies := itemBodies_listed bullet listable
  rw [← lines] at bodies
  have light : ∀ text ∈ texts, weight text.blocks < (listed mark texts).length + 1 := by
    intro text member
    have lighter := weight_body_lt (bodies.symm ▸ List.mem_map_of_mem member)
    rwa [Text.joinLines_lines] at lighter
  obtain ⟨inners, outer, alone, wrote, grown, branches⟩ :=
    writeItems_alone ((fresh stash).setTree made) light ordered held
  have enough : weight (listed mark texts).blocks < (listed mark texts).length + 1 + 1 := by
    rw [blocks_listed bullet some_text]
    exact Nat.lt_succ_self _
  obtain ⟨first, found⟩ := exists_item?_listed bullet some_text listable
  have accepted : list.accepts (fresh stash) Tree.root (listed mark texts) = true := by
    simp [list, found]
  have taken : list.run (run members ((listed mark texts).length + 1)) (fresh stash) Tree.root
      (listed mark texts) [] = .ok (.handled ((fresh stash).setTree outer) []) := by
    simp only [list, found, bodies]
    change (writeItems (run members _) 1 (texts.map Text.lines) ((fresh stash).setTree made)).bind _ = _
    rw [wrote]
    rfl
  refine ⟨inners, (fresh stash).setTree outer, alone, ?_, ?_⟩
  · rw [parseText_eq_run Tree.ordered_empty valid enough, blocks_listed bullet some_text]
    exact Dispatch.run_singleton (rejected_listed bullet some_text listable _ _) accepted taken
  · change outer.branches 1 = made.branches 1 ++ _ at branches
    have whole := grown.branches_inside ordered children rfl
    rw [branches] at whole
    exact whole

theorem parseText_listed_nested :
    ('-' ∈ bullets ∧ [[], "a\n\n* b\n* c".toList] ≠ [] ∧
      ∀ text ∈ [[], "a\n\n* b\n* c".toList], Listable '-' text) ∧
    ∃ inners outer,
      List.Forall₂ (fun text inner => reference.parseText (fresh {}) Tree.root text = .ok inner)
        [[], "a\n\n* b\n* c".toList] inners ∧
      reference.parseText (fresh {}) Tree.root (listed '-' [[], "a\n\n* b\n* c".toList]) = .ok outer ∧
      outer.tree.forest = [.node "ul" none {} (inners.map fun inner => tightened inner.tree.forest)] :=
  ⟨by decide, parseText_listed {} (by decide) (by decide) (by decide)⟩

end Grammar

end Tracemark
