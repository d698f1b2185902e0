import Tracemark.Dispatch
import Tracemark.Proofs.Text.BlockLines
import Tracemark.Proofs.Tree.Growth
import Tracemark.Proofs.Tree.Matching

/-! Two runs of the dispatch side by side.

A pairing fixes two sessions with one stash, and says how the trees of one stand for the trees of the
other. A handler is lawful when it treats matching trees alike, provided that it may rely on the same
of the text it has parsed again, and when what it parses again and what it puts back both weigh less
than the block. A run over lawful handlers then treats matching trees alike for any two budgets above
the weight of its queue. Handlers in front that never accept anything may stand on one side only. Text
is parsed again under the same element or a younger one, so all this can be said of the elements from
some `floor` on.

A session paired with itself gives what one run does: it ends, its budget does not matter, and a queue
may be run in two parts.
-/

set_option autoImplicit false

namespace Tracemark

open Tracemark.Tree (Grows)
open Tracemark.Dispatch (offer run weight)

namespace Dispatch

@[simp] theorem weight_nil : weight [] = 0 := rfl

@[simp] theorem weight_cons (block : Text) (rest : List Text) :
    weight (block :: rest) = block.length + 1 + weight rest := rfl

theorem weight_eq_spread (queue : List Text) : weight queue = Text.spread queue := by
  induction queue with
  | nil => rfl
  | cons block rest ih => rw [weight_cons, Text.spread_cons, ih]

theorem length_le_weight (queue : List Text) : queue.length ≤ weight queue := by
  induction queue with
  | nil => exact Nat.le_refl _
  | cons block rest ih =>
    rw [List.length_cons, weight_cons]
    omega

@[simp] theorem weight_append (first second : List Text) :
    weight (first ++ second) = weight first + weight second := by
  simp [weight_eq_spread]

theorem weight_blocks_le (text : Text) : weight text.blocks ≤ text.length + 1 := by
  fun_induction Text.blocks text with
  | case1 => simp
  | case2 => simp
  | case3 c d rest _ ih =>
    rw [weight_cons, List.length_cons, List.length_cons, List.length_nil]
    omega
  | case4 c d rest _ ih =>
    obtain ⟨first, others, same⟩ := Text.exists_blocks_eq_cons (d :: rest)
    rw [same, weight_cons] at ih
    rw [same, List.modifyHead_cons, weight_cons]
    simp only [List.length_cons] at ih ⊢
    omega

-- Handlers that accept nothing are passed over.
theorem offer_of_rejected {reparse : Reparse} {parent : NodeId} {block : Text} {rest : List Text}
    {guards handlers : List Handler} {session : Session}
    (rejected : ∀ guard ∈ guards, guard.accepts session parent block = false) :
    offer reparse parent block rest (guards ++ handlers) session =
      offer reparse parent block rest handlers session := by
  induction guards with
  | nil => rfl
  | cons guard others ih =>
    rw [List.cons_append, offer, rejected guard List.mem_cons_self]
    exact ih fun other member => rejected other (List.mem_cons_of_mem _ member)

end Dispatch

/-- Two sessions in which text is parsed into matching trees. -/
structure Pairing where
  left : Session
  right : Session
  shift : Nat
  hidden : List String
  stash : left.stash = right.stash
  shown : "class" ∉ hidden

namespace Pairing

def same (session : Session) : Pairing where
  left := session
  right := session
  shift := 0
  hidden := []
  stash := rfl
  shown := List.not_mem_nil

variable (pairing : Pairing)

structure Paired (a b : Tree) : Prop where
  ordered : a.Ordered
  matched : a.Matches pairing.shift pairing.hidden b

def Follows (floor : NodeId) (bound : Nat) (first second : Reparse) : Prop :=
  ∀ {a b : Tree} {parent : NodeId} {queue : List Text},
    pairing.Paired a b → floor ≤ parent → parent < a.size → weight queue < bound →
    ∃ a' b', pairing.Paired a' b' ∧ Grows parent a a' ∧
      first (pairing.left.setTree a) parent queue = .ok (pairing.left.setTree a') ∧
      second (pairing.right.setTree b) (parent + pairing.shift) queue =
        .ok (pairing.right.setTree b')

/-- Taking a block does the same on both sides, whatever stands behind the block in the queue, and
puts back less than the block. -/
def Agrees {α : Type} (make : Session → List Text → α) (parent : NodeId) (block : Text) (a : Tree)
    (first second : List Text → Except Fault α) : Prop :=
  ∃ a' b' queue, pairing.Paired a' b' ∧ Grows parent a a' ∧ weight queue < weight [block] ∧
    ∀ rest, first rest = .ok (make (pairing.left.setTree a') (queue ++ rest)) ∧
      second rest = .ok (make (pairing.right.setTree b') (queue ++ rest))

structure Obeys (first second : Reparse) (parent : NodeId) (block : Text) (a b : Tree)
    (handler : Handler) : Prop where
  accepts : handler.accepts (pairing.left.setTree a) parent block =
    handler.accepts (pairing.right.setTree b) (parent + pairing.shift) block
  run : handler.accepts (pairing.left.setTree a) parent block = true →
    pairing.Agrees .handled parent block a
      (handler.run first (pairing.left.setTree a) parent block)
      (handler.run second (pairing.right.setTree b) (parent + pairing.shift) block)

variable {pairing} {first second : Reparse} {bound : Nat} {a b : Tree} {id floor parent : NodeId}
  {block : Text} {handler : Handler}

theorem Paired.attached (paired : pairing.Paired a b) (valid : parent < a.size) (element : Element)
    (leaf : element.children = []) (plain : element.attributes = {}) :
    pairing.Paired (a.attached parent element) (b.attached (parent + pairing.shift) element) :=
  ⟨paired.ordered.attached valid leaf, paired.matched.attached valid leaf plain⟩

theorem Paired.modify (paired : pairing.Paired a b) (id : NodeId) {change change' : Element → Element}
    (keeps : Tree.KeepsLinks change) (keeps' : Tree.KeepsLinks change')
    (together : ∀ {before after : Element}, before.Matches pairing.shift pairing.hidden after →
      (change before).Matches pairing.shift pairing.hidden (change' after)) :
    pairing.Paired (a.modify id change) (b.modify (id + pairing.shift) change') :=
  ⟨paired.ordered.modify keeps, paired.matched.modify keeps keeps' together⟩

theorem Paired.detached (paired : pairing.Paired a b) (member : id ∈ a.childrenOf parent) :
    pairing.Paired (a.detached id parent)
      (b.detached (id + pairing.shift) (parent + pairing.shift)) :=
  have different : id ≠ parent := Nat.ne_of_gt (paired.ordered.lt_of_mem_childrenOf member)
  ⟨paired.ordered.detached member different, paired.matched.detached different⟩

theorem Paired.child (paired : pairing.Paired a b) (member : id ∈ a.childrenOf parent) :
    ∃ before after, a.get? id = some before ∧ b.get? (id + pairing.shift) = some after ∧
      before.Matches pairing.shift pairing.hidden after ∧
      after.children = before.children.map (· + pairing.shift) := by
  have notRoot : id ≠ Tree.root := fun same => paired.ordered.root_not_mem (same ▸ member)
  obtain ⟨before, found⟩ := Tree.exists_get? (paired.ordered.child_lt_size member)
  obtain ⟨after, there, same, children⟩ := paired.matched.of_ne_root notRoot found
  exact ⟨before, after, found, there, same, children⟩

theorem Follows.mono {smaller : Nat} (follows : pairing.Follows floor bound first second)
    (less : smaller ≤ bound) : pairing.Follows floor smaller first second :=
  fun paired above valid light => follows paired above valid (Nat.lt_of_lt_of_le light less)

theorem obeys_of_rejected (onLeft : handler.accepts (pairing.left.setTree a) parent block = false)
    (onRight : handler.accepts (pairing.right.setTree b) (parent + pairing.shift) block = false) :
    pairing.Obeys first second parent block a b handler where
  accepts := onLeft.trans onRight.symm
  run accepted := absurd accepted (by simp [onLeft])

end Pairing

structure Handler.Lawful (handler : Handler) : Prop where
  accepts : ∀ {left right : Session} {parent parent' : NodeId} {block : Text},
    left.stash = right.stash → handler.accepts left parent block = handler.accepts right parent' block
  run : ∀ {pairing : Pairing} {first second : Reparse} {a b : Tree} {floor parent : NodeId}
      {block : Text},
    handler.accepts pairing.left parent block = true →
    pairing.Follows floor (weight [block]) first second → pairing.Paired a b → floor ≤ parent →
    parent < a.size →
    pairing.Agrees .handled parent block a
      (handler.run first (pairing.left.setTree a) parent block)
      (handler.run second (pairing.right.setTree b) (parent + pairing.shift) block)

-- A lawful handler may rely on less than what is parsed within the weight of its block.
theorem Handler.Lawful.obeys {pairing : Pairing} {handler : Handler} {first second : Reparse}
    {floor parent : NodeId} {block : Text} {a b : Tree} (lawful : handler.Lawful)
    (follows : pairing.Follows floor (weight [block]) first second) (paired : pairing.Paired a b)
    (above : floor ≤ parent) (valid : parent < a.size) :
    pairing.Obeys first second parent block a b handler where
  accepts := lawful.accepts pairing.stash
  run accepted := by
    have same : handler.accepts pairing.left parent block =
        handler.accepts (pairing.left.setTree a) parent block := lawful.accepts rfl
    exact lawful.run (same.trans accepted) follows paired above valid

namespace Dispatch

variable {pairing : Pairing} {first second : Reparse} {bound : Nat} {handlers guards : List Handler}
  {session : Session} {floor parent : NodeId} {queue : List Text}

theorem offer_agrees {block : Text} {a b : Tree} (paired : pairing.Paired a b)
    (obey : ∀ handler ∈ handlers, pairing.Obeys first second parent block a b handler) :
    pairing.Agrees Prod.mk parent block a
      (fun rest => offer first parent block rest handlers (pairing.left.setTree a))
      (fun rest => offer second (parent + pairing.shift) block rest handlers
        (pairing.right.setTree b)) := by
  induction handlers with
  | nil => exact ⟨a, b, [], paired, .refl paired.ordered, by simp, fun rest => ⟨rfl, rfl⟩⟩
  | cons handler others ih =>
    rw [List.forall_mem_cons] at obey
    simp only [offer, ← obey.1.accepts]
    cases accepted : handler.accepts (pairing.left.setTree a) parent block with
    | false => exact ih obey.2
    | true =>
      obtain ⟨a', b', queue, paired', grown, light, runs⟩ := obey.1.run accepted
      refine ⟨a', b', queue, paired', grown, light, fun rest => ?_⟩
      obtain ⟨onLeft, onRight⟩ := runs rest
      simp only [if_true, onLeft, onRight]
      exact ⟨rfl, rfl⟩

/-- When what follows is parsed alike and the next block is taken alike, so is the whole queue. The
bound falls by one with each block, as both budgets do, and what a block puts back weighs less than
the block. -/
theorem run_follows_succ {left right : List Handler} {budget budget' : Nat}
    (inner : pairing.Follows floor bound (run left budget) (run right budget'))
    (agrees : ∀ {a b : Tree} {parent : NodeId} {block : Text}, pairing.Paired a b → floor ≤ parent →
      parent < a.size → weight [block] ≤ bound → pairing.Agrees Prod.mk parent block a
        (fun rest => offer (run left budget) parent block rest left (pairing.left.setTree a))
        (fun rest => offer (run right budget') (parent + pairing.shift) block rest right
          (pairing.right.setTree b))) :
    pairing.Follows floor (bound + 1) (run left (budget + 1)) (run right (budget' + 1)) := by
  intro a b parent queue paired above valid light
  cases queue with
  | nil => exact ⟨a, b, paired, .refl paired.ordered, rfl, rfl⟩
  | cons block rest =>
    rw [weight_cons] at light
    have small : weight [block] ≤ bound := by
      rw [weight_cons, weight_nil]
      omega
    obtain ⟨a', b', queue, paired', grown, less, runs⟩ := agrees paired above valid small
    have light' : weight (queue ++ rest) < bound := by
      rw [weight_append]
      rw [weight_cons, weight_nil] at less
      omega
    obtain ⟨a'', b'', paired'', grown', onLeft', onRight'⟩ :=
      inner paired' above (grown.lt_size valid) light'
    obtain ⟨onLeft, onRight⟩ := runs rest
    refine ⟨a'', b'', paired'', grown.trans grown' valid, ?_, ?_⟩
    · rw [run]
      simp only [onLeft]
      exact onLeft'
    · rw [run]
      simp only [onRight]
      exact onRight'

/-- Runs over lawful handlers follow each other, with handlers in front of those on the left that
accept nothing in its session. -/
theorem run_follows (pairing : Pairing) (floor : NodeId) (guards : List Handler)
    (lawful : ∀ handler ∈ handlers, handler.Lawful)
    (quiet : ∀ guard ∈ guards, ∀ tree parent block,
      guard.accepts (pairing.left.setTree tree) parent block = false)
    {budget budget' : Nat} (enough : bound ≤ budget) (enough' : bound ≤ budget') :
    pairing.Follows floor bound (run (guards ++ handlers) budget) (run handlers budget') := by
  induction bound generalizing budget budget' with
  | zero => exact fun _ _ _ light => absurd light (Nat.not_lt_zero _)
  | succ bound ih =>
    obtain ⟨budget, rfl⟩ := Nat.exists_eq_add_of_le' enough
    obtain ⟨budget', rfl⟩ := Nat.exists_eq_add_of_le' enough'
    have inner : pairing.Follows floor bound (run (guards ++ handlers) (budget + bound))
        (run handlers (budget' + bound)) :=
      ih (Nat.le_add_left _ _) (Nat.le_add_left _ _)
    apply run_follows_succ inner
    intro a b parent block paired above valid small
    simp only [offer_of_rejected fun guard member => quiet guard member a parent block]
    exact offer_agrees paired fun handler member =>
      (lawful handler member).obeys (inner.mono small) paired above valid

/-! One run. -/

theorem paired_same (ordered : session.tree.Ordered) :
    (Pairing.same session).Paired session.tree session.tree :=
  ⟨ordered, .refl _⟩

theorem run_follows_same (session : Session) (lawful : ∀ handler ∈ handlers, handler.Lawful)
    {budget budget' : Nat} (enough : bound ≤ budget) (enough' : bound ≤ budget') :
    (Pairing.same session).Follows Tree.root bound (run handlers budget) (run handlers budget') :=
  run_follows (.same session) Tree.root [] lawful (by simp) enough enough'

theorem run_grows (session : Session) (lawful : ∀ handler ∈ handlers, handler.Lawful)
    (ordered : session.tree.Ordered) (valid : parent < session.tree.size) {budget : Nat}
    (enough : weight queue < budget) :
    ∃ after, run handlers budget session parent queue = .ok (session.setTree after) ∧
      Grows parent session.tree after := by
  obtain ⟨after, _, _, grown, ran, -⟩ :=
    run_follows_same session lawful (Nat.le_refl budget) (Nat.le_refl budget) (paired_same ordered)
      (Nat.zero_le _) valid enough
  exact ⟨after, ran, grown⟩

theorem run_budget (session : Session) (lawful : ∀ handler ∈ handlers, handler.Lawful)
    (ordered : session.tree.Ordered) (valid : parent < session.tree.size) {budget budget' : Nat}
    (enough : weight queue < budget) (enough' : weight queue < budget') :
    run handlers budget session parent queue = run handlers budget' session parent queue := by
  obtain ⟨after, after', paired, -, ran, ran'⟩ :=
    run_follows_same session lawful enough enough' (paired_same ordered) (Nat.zero_le _) valid
      (Nat.lt_succ_self _)
  have same := paired.matched.eq
  subst same
  exact ran.trans ran'.symm

theorem offer_grows (session : Session) (lawful : ∀ handler ∈ handlers, handler.Lawful)
    (ordered : session.tree.Ordered) (valid : parent < session.tree.size) {budget : Nat}
    {block : Text} (enough : weight [block] ≤ budget) :
    ∃ after queue, Grows parent session.tree after ∧ weight queue < weight [block] ∧
      ∀ rest, offer (run handlers budget) parent block rest handlers session =
        .ok (session.setTree after, queue ++ rest) := by
  have paired := paired_same ordered
  obtain ⟨after, _, queue, _, grown, less, runs⟩ := offer_agrees paired fun handler member =>
    (lawful handler member).obeys (run_follows_same session lawful enough enough) paired
      (Nat.zero_le _) valid
  exact ⟨after, queue, grown, less, fun rest => (runs rest).1⟩

theorem run_append (session : Session) (lawful : ∀ handler ∈ handlers, handler.Lawful)
    (front back : List Text) (ordered : session.tree.Ordered) (valid : parent < session.tree.size)
    {budget : Nat} (enough : weight (front ++ back) < budget) :
    run handlers budget session parent (front ++ back) =
      (run handlers budget session parent front).bind (run handlers budget · parent back) := by
  induction budget generalizing session front with
  | zero => exact absurd enough (Nat.not_lt_zero _)
  | succ budget ih =>
    cases front with
    | nil => rfl
    | cons block rest =>
      rw [List.cons_append, weight_cons, weight_append] at enough
      have small : weight [block] ≤ budget := by
        rw [weight_cons, weight_nil]
        omega
      obtain ⟨after, queue, grown, less, taken⟩ := offer_grows session lawful ordered valid small
      have light : weight (queue ++ rest ++ back) < budget := by
        rw [weight_cons, weight_nil] at less
        rw [weight_append, weight_append]
        omega
      have within : parent < (session.setTree after).tree.size := grown.lt_size valid
      have light' : weight (queue ++ rest) < budget := by
        rw [weight_append] at light
        omega
      have enough' : weight back < budget := by
        rw [weight_append] at light
        omega
      obtain ⟨last, ran, grown'⟩ :=
        run_grows (session.setTree after) lawful grown.ordered within light'
      have whole := ih (session.setTree after) (queue ++ rest) grown.ordered within light
      rw [List.cons_append, run, run, taken, taken, ← List.append_assoc]
      change run handlers budget _ parent _ =
        (run handlers budget (session.setTree after) parent (queue ++ rest)).bind _
      rw [whole, ran]
      -- The second part has one step more on the right.
      exact run_budget _ lawful grown'.ordered (grown'.lt_size within) enough'
        (Nat.lt_succ_of_lt enough')

end Dispatch

end Tracemark
