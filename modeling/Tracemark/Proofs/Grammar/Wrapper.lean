import Tracemark.Proofs.Dispatch.Pairing

/-! Handlers that hand a block on as it is.

A wrapper gives a block of the root an element of its own and has the very same text parsed in it. It
is not lawful, since it looks at where it stands and what it hands on weighs as much as the block. But
it accepts nothing below the root, so it hands a text on only once, and a budget of one more than the
weight of a queue is enough.
-/

set_option autoImplicit false

namespace Tracemark

open Tracemark.Dispatch (offer run weight weight_blocks_le weight_cons weight_nil)
open Tracemark.Tree (Grows)

structure Wrapper where
  name : String
  tag : String
  takes : Session → Text → Bool

def Wrapper.handler (wrapper : Wrapper) : Handler where
  name := wrapper.name
  accepts session parent block := parent = Tree.root && wrapper.takes session block
  run reparse session parent block rest := do
    let (inner, tree) ← session.tree.append parent wrapper.tag
    let session ← reparse (session.setTree tree) inner block.blocks
    return .handled session rest

/-- A handler that ends among others like it, as long as sessions differ from one in the tree alone. -/
inductive Handler.Tame (session : Session) : Handler → Prop
  | lawful {handler : Handler} : handler.Lawful → Tame session handler
  | wrapper (wrapper : Wrapper) : Tame session wrapper.handler
  | quiet {handler : Handler} :
    (∀ tree parent block, handler.accepts (session.setTree tree) parent block = false) →
    Tame session handler

variable {session : Session} {handlers : List Handler} {handler : Handler} {wrapper : Wrapper}
  {first second : Reparse} {a b : Tree} {parent : NodeId} {block : Text} {bound : Nat}

theorem Wrapper.rejects (inside : Tree.root < parent) :
    wrapper.handler.accepts session parent block = false := by
  have notRoot : parent ≠ Tree.root := Nat.ne_of_gt inside
  simp [Wrapper.handler, notRoot]

theorem Wrapper.obeys
    (follows : (Pairing.same session).Follows 1 (weight [block] + 1) first second)
    (paired : (Pairing.same session).Paired a b) (valid : parent < a.size) :
    (Pairing.same session).Obeys first second parent block a b wrapper.handler where
  accepts := by
    rw [paired.matched.eq]
    rfl
  run := by
    intro _
    have within := paired.matched.valid valid
    have made := paired.attached valid { tag := wrapper.tag } rfl rfl
    have grown : Grows parent a (a.attached parent { tag := wrapper.tag }) :=
      .attached paired.ordered valid rfl (List.nil_subset _)
    have atEnd := Tree.getLast?_childrenOf_attached valid { tag := wrapper.tag }
    have light : weight block.blocks < weight [block] + 1 :=
      Nat.lt_succ_of_le (weight_blocks_le block)
    obtain ⟨a', b', paired', grown', ran, ran'⟩ :=
      follows made (Nat.one_le_of_lt valid) (Tree.size_lt_attached _ _ _) light
    refine ⟨a', b', [], paired', grown.trans (grown'.inside atEnd) valid, by simp, fun rest => ?_⟩
    constructor
    · simp only [Wrapper.handler, Session.setTree]
      change (a.attach parent { tag := wrapper.tag }).bind _ = _
      rw [Tree.attach_eq_ok valid]
      change (first ((Pairing.same session).left.setTree _) _ _).bind _ = _
      rw [ran]
      rfl
    · simp only [Wrapper.handler, Session.setTree]
      change (b.attach (parent + (Pairing.same session).shift) { tag := wrapper.tag }).bind _ = _
      rw [Tree.attach_eq_ok within, paired.matched.size]
      change (second ((Pairing.same session).right.setTree _) _ _).bind _ = _
      rw [ran']
      rfl

theorem Handler.Tame.obeys {floor : NodeId} (tame : handler.Tame session)
    (follows : (Pairing.same session).Follows floor (weight [block]) first second)
    (inside : parent ≤ Tree.root →
      (Pairing.same session).Follows 1 (weight [block] + 1) first second)
    (paired : (Pairing.same session).Paired a b) (above : floor ≤ parent) (valid : parent < a.size) :
    (Pairing.same session).Obeys first second parent block a b handler := by
  cases tame with
  | lawful lawful => exact lawful.obeys follows paired above valid
  | wrapper wrapper =>
    rcases Nat.lt_or_ge Tree.root parent with below | top
    · exact Pairing.obeys_of_rejected (Wrapper.rejects below) (Wrapper.rejects below)
    · exact Wrapper.obeys (inside top) paired valid
  | quiet quiet => exact Pairing.obeys_of_rejected (quiet _ _ _) (quiet _ _ _)

namespace Dispatch

variable (tame : ∀ handler ∈ handlers, handler.Tame session)

include tame

/-- Below the root wrappers stand aside. -/
theorem run_follows_inside {budget : Nat} (enough : bound ≤ budget) :
    (Pairing.same session).Follows 1 bound (run handlers budget) (run handlers budget) := by
  induction bound generalizing budget with
  | zero => exact fun _ _ _ light => absurd light (Nat.not_lt_zero _)
  | succ bound ih =>
    obtain ⟨budget, rfl⟩ := Nat.exists_eq_add_of_le' enough
    have inner : (Pairing.same session).Follows 1 bound (run handlers (budget + bound))
        (run handlers (budget + bound)) := ih (Nat.le_add_left _ _)
    apply run_follows_succ inner
    intro a b parent block paired above valid small
    exact offer_agrees paired fun handler member =>
      (tame handler member).obeys (inner.mono small)
        (fun top => absurd (Nat.le_trans above top) (by decide)) paired above valid

/-- Under the root a wrapper takes one step more of the budget. -/
theorem run_follows_wrapped {budget : Nat} (enough : bound + 1 ≤ budget) :
    (Pairing.same session).Follows Tree.root bound (run handlers budget) (run handlers budget) := by
  induction bound generalizing budget with
  | zero => exact fun _ _ _ light => absurd light (Nat.not_lt_zero _)
  | succ bound ih =>
    obtain ⟨budget, rfl⟩ := Nat.exists_eq_add_of_le' enough
    have inner : (Pairing.same session).Follows Tree.root bound (run handlers (budget + (bound + 1)))
        (run handlers (budget + (bound + 1))) := ih (Nat.le_add_left _ _)
    have inside : (Pairing.same session).Follows 1 (bound + 1) (run handlers (budget + (bound + 1)))
        (run handlers (budget + (bound + 1))) := run_follows_inside tame (Nat.le_add_left _ _)
    apply run_follows_succ inner
    intro a b parent block paired above valid small
    exact offer_agrees paired fun handler member =>
      (tame handler member).obeys (inner.mono small)
        (fun _ => inside.mono (Nat.succ_le_succ small)) paired above valid

theorem run_wrapped_grows (ordered : session.tree.Ordered) (valid : parent < session.tree.size)
    {queue : List Text} {budget : Nat} (enough : weight queue + 1 < budget) :
    ∃ after, run handlers budget session parent queue = .ok (session.setTree after) ∧
      Grows parent session.tree after := by
  obtain ⟨after, _, _, grown, ran, -⟩ := run_follows_wrapped tame (Nat.succ_le_of_lt enough)
    (paired_same ordered) (Nat.zero_le _) valid (Nat.lt_succ_self _)
  exact ⟨after, ran, grown⟩

end Dispatch

end Tracemark
