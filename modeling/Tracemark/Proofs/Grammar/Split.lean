import Tracemark.Grammar.Split
import Tracemark.Proofs.Grammar.Leaf

/-! Handlers that cut a block are lawful.

The line of the cut goes to neither part, so both parts weigh less than the block. What stands before
the cut is parsed before the new element is attached.
-/

set_option autoImplicit false

namespace Tracemark.Grammar

open Tracemark.Dispatch (weight weight_cons weight_nil)
open Tracemark.LineShape (Cut cut? heading?)
open Tracemark.Tree (Grows)

theorem length_dropTrailingFeeds_le (text : Text) :
    text.dropTrailingFeeds.length ≤ text.length := by
  have shorter := (List.dropWhile_sublist (fun c => decide (c = '\n')) (l := text.reverse)).length_le
  rw [List.length_reverse] at shorter
  rw [Text.dropTrailingFeeds, Text.dropEndWhile, List.length_reverse]
  exact shorter

theorem exists_of_cut? {α : Type} {shape : Text → Option α} {block : Text} {cut : Cut α}
    (found : cut? shape block = some cut) :
    ∃ front line behind, block.lines = front ++ line :: behind ∧ shape line = some cut.found ∧
      cut.before = Text.dropTrailingFeeds (Text.joinLines front) ∧
      cut.behind = Text.joinLines behind := by
  have whole := List.takeWhile_append_dropWhile
    (p := fun line => (shape line).isNone) (l := block.lines)
  unfold cut? at found
  cases rest : block.lines.dropWhile fun line => (shape line).isNone with
  | nil => simp [rest] at found
  | cons line behind =>
    simp only [rest] at found
    obtain ⟨value, shaped, rfl⟩ := Option.map_eq_some_iff.1 found
    rw [rest] at whole
    exact ⟨_, line, behind, whole.symm, shaped, rfl, rfl⟩

/-- Both parts of a cut weigh less than the block, as far as they are parsed at all. -/
structure Shorter {α : Type} (cut : Cut α) (block : Text) : Prop where
  before : cut.before.isBlank = true ∨ weight [cut.before] < weight [block]
  behind : weight (putBack cut.behind []) < weight [block]

theorem shorter_of_cut? {α : Type} {shape : Text → Option α} {block : Text} {cut : Cut α}
    (found : cut? shape block = some cut) : Shorter cut block := by
  have whole := Text.spread_takeWhile_add_dropWhile (fun line => (shape line).isNone) block.lines
  rw [Text.spread_lines] at whole
  unfold cut? at found
  cases rest : block.lines.dropWhile fun line => (shape line).isNone with
  | nil => simp [rest] at found
  | cons line behind =>
    simp only [rest] at found
    obtain ⟨value, _, rfl⟩ := Option.map_eq_some_iff.1 found
    rw [rest, Text.spread_cons] at whole
    constructor
    · cases front : block.lines.takeWhile fun line => (shape line).isNone with
      | nil => exact .inl rfl
      | cons first others =>
        have shorter := length_dropTrailingFeeds_le (Text.joinLines (first :: others))
        have length := Text.length_joinLines (List.cons_ne_nil first others)
        rw [front] at whole
        simp only [weight_cons, weight_nil]
        omega
    · cases behind with
      | nil => exact Nat.succ_pos _
      | cons next others =>
        have light := weight_putBack_le (Text.joinLines (next :: others))
        have length := Text.length_joinLines (List.cons_ne_nil next others)
        simp only [weight_cons, weight_nil]
        omega

section

variable {pairing : Pairing} {a b : Tree} {floor parent : NodeId} {first second : Reparse}

theorem writeAt_agrees {α : Type} {cut : Cut α} {block : Text} {element : Element}
    (shorter : Shorter cut block) (leaf : element.children = []) (plain : element.attributes = {})
    (follows : pairing.Follows floor (weight [block]) first second) (paired : pairing.Paired a b)
    (above : floor ≤ parent) (valid : parent < a.size) :
    pairing.Agrees .handled parent block a
      (writeAt cut element first (pairing.left.setTree a) parent)
      (writeAt cut element second (pairing.right.setTree b) (parent + pairing.shift)) := by
  -- Whatever stood before the cut, the element is attached to matching trees.
  have attach {a' b' : Tree} (paired' : pairing.Paired a' b') (grown : Grows parent a a') :
      pairing.Paired (a'.attached parent element) (b'.attached (parent + pairing.shift) element) ∧
        Grows parent a (a'.attached parent element) ∧
        a'.attach parent element = .ok (a'.size, a'.attached parent element) ∧
        b'.attach (parent + pairing.shift) element =
          .ok (b'.size, b'.attached (parent + pairing.shift) element) := by
    have valid' := grown.lt_size valid
    refine ⟨paired'.attached valid' element leaf plain, ?_, Tree.attach_eq_ok valid',
      Tree.attach_eq_ok (paired'.matched.valid valid')⟩
    exact grown.trans (.attached grown.ordered valid' leaf (plain ▸ List.nil_subset _)) valid
  by_cases blank : cut.before.isBlank = true
  · obtain ⟨paired', grown, onLeft, onRight⟩ := attach paired (.refl paired.ordered)
    refine ⟨_, _, putBack cut.behind [], paired', grown, shorter.behind, fun rest => ?_⟩
    rw [← putBack_eq_append]
    constructor
    · simp only [writeAt, blank, if_true]
      change (a.attach parent element).bind _ = _
      rw [onLeft]
      rfl
    · simp only [writeAt, blank, if_true]
      change (b.attach (parent + pairing.shift) element).bind _ = _
      rw [onRight]
      rfl
  · have light := shorter.before.resolve_left blank
    obtain ⟨a', b', paired', grown, ran, ran'⟩ := follows paired above valid light
    obtain ⟨paired'', grown', onLeft, onRight⟩ := attach paired' grown
    refine ⟨_, _, putBack cut.behind [], paired'', grown', shorter.behind, fun rest => ?_⟩
    rw [← putBack_eq_append]
    constructor
    · simp only [writeAt, blank, Bool.false_eq_true, if_false, ran]
      change (a'.attach parent element).bind _ = _
      rw [onLeft]
      rfl
    · simp only [writeAt, blank, Bool.false_eq_true, if_false, ran']
      change (b'.attach (parent + pairing.shift) element).bind _ = _
      rw [onRight]
      rfl

end

theorem heading_lawful : heading.Lawful where
  accepts := fun _ => rfl
  run := by
    intro pairing first second a b floor parent block accepted follows paired above valid
    obtain ⟨cut, found⟩ := Option.isSome_iff_exists.1 accepted
    simp only [heading, found]
    exact writeAt_agrees (shorter_of_cut? found) rfl rfl follows paired above valid

theorem rule_lawful : rule.Lawful where
  accepts := fun _ => rfl
  run := by
    intro pairing first second a b floor parent block accepted follows paired above valid
    obtain ⟨cut, found⟩ := Option.isSome_iff_exists.1 accepted
    simp only [rule, found]
    exact writeAt_agrees (shorter_of_cut? found) rfl rfl follows paired above valid

end Tracemark.Grammar
