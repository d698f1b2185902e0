import Tracemark.Grammar.Reference
import Tracemark.Proofs.Grammar.Container
import Tracemark.Proofs.Grammar.Split

/-! The reference grammar.

Each handler of the grammar is lawful, so parsing by the grammar always ends, changes the tree alone,
and comes out the same for any budget that is larger than the weight of its queue.
-/

set_option autoImplicit false

namespace Tracemark.Grammar

open Tracemark.Dispatch (run weight)

def members : List Handler :=
  [empty, indentedCode, heading, rule, list, blockquote, stash, paragraph]

theorem members_lawful : ∀ handler ∈ members, handler.Lawful := by
  intro handler member
  simp only [members, List.mem_cons, List.not_mem_nil, or_false] at member
  rcases member with rfl | rfl | rfl | rfl | rfl | rfl | rfl | rfl
  · exact empty_lawful
  · exact indentedCode_lawful
  · exact heading_lawful
  · exact rule_lawful
  · exact list_lawful
  · exact blockquote_lawful
  · exact stash_lawful
  · exact paragraph_lawful

/-- Text is parsed as the queue of its blocks, within any budget that is enough. -/
theorem parseText_eq_run {session : Session} {parent : NodeId} {text : Text}
    (ordered : session.tree.Ordered) (valid : parent < session.tree.size) {budget : Nat}
    (enough : weight text.blocks < budget) :
    reference.parseText session parent text = run members budget session parent text.blocks :=
  Dispatch.run_budget session members_lawful ordered valid (by omega) enough

end Tracemark.Grammar
