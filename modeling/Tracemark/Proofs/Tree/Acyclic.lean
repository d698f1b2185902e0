import Mathlib.Data.List.Perm.Subperm
import Tracemark.Proofs.Tree.Closed
import Tracemark.Proofs.Tree.Growth

/-! Trees without cycles.

In an acyclic tree no element stands at or below one of its own children. A chain of children then
names no element twice, so it is no longer than the tree, however elements were moved after they were
made.
-/

set_option autoImplicit false

namespace Tracemark.Tree

variable {tree : Tree} {id child : NodeId} {above : List NodeId}

/-- No element stands at or below one of its own children. -/
def Acyclic (tree : Tree) : Prop :=
  ∀ ⦃id child : NodeId⦄, child ∈ tree.childrenOf id → ¬tree.Under child id

theorem acyclic_of_rank (rank : NodeId → Nat)
    (higher : ∀ {id child : NodeId}, child ∈ tree.childrenOf id → rank id < rank child) :
    tree.Acyclic := by
  intro id child member under
  have below {top bottom : NodeId} (under : tree.Under top bottom) : rank top ≤ rank bottom := by
    induction under with
    | here => exact Nat.le_refl _
    | deeper _ inside ih => exact Nat.le_trans ih (Nat.le_of_lt (higher inside))
  exact absurd (higher member) (Nat.not_lt_of_le (below under))

structure Chain (tree : Tree) (id : NodeId) (above : List NodeId) : Prop where
  nodup : (id :: above).Nodup
  inside : ∀ other ∈ id :: above, other < tree.size
  under : ∀ other ∈ id :: above, tree.Under other id

theorem chain_self (inside : id < tree.size) : tree.Chain id [] where
  nodup := List.nodup_singleton id
  inside := List.forall_mem_singleton.2 inside
  under := List.forall_mem_singleton.2 .here

theorem Chain.deeper (chain : tree.Chain id above) (closed : tree.Closed) (acyclic : tree.Acyclic)
    (member : child ∈ tree.childrenOf id) : tree.Chain child (id :: above) where
  nodup := by
    rw [List.nodup_cons]
    refine ⟨fun again => ?_, chain.nodup⟩
    exact acyclic member (chain.under child again)
  inside := List.forall_mem_cons.2 ⟨closed.lt_size member, chain.inside⟩
  under := List.forall_mem_cons.2 ⟨.here, fun other inside => (chain.under other inside).deeper member⟩

theorem Chain.length_lt (chain : tree.Chain id above) : above.length < tree.size := by
  have within : id :: above ⊆ List.range tree.size :=
    fun other member => List.mem_range.2 (chain.inside other member)
  have shorter := (chain.nodup.subperm within).length_le
  rwa [List.length_range] at shorter

end Tracemark.Tree
