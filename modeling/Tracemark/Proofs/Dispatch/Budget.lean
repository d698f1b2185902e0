import Tracemark.Proofs.Dispatch.Calls

/-! Larger budgets.

A run that ends within a budget ends in the same way within every larger one, whatever its handlers put
back or have parsed again. So two budgets that are both large enough cannot be told apart.
-/

set_option autoImplicit false

namespace Tracemark

variable {α : Type} {actors : List Actor} {less more : Reparse} {budget budget' : Nat}
  {session after other : Session} {parent : NodeId} {block : Text} {queue rest : List Text}

def Reparse.Refines (less more : Reparse) : Prop :=
  ∀ ⦃session parent queue after⦄, less session parent queue = .ok after →
    more session parent queue = .ok after

theorem Script.run_mono (refines : less.Refines more) {script : Script α} {value : α}
    (ran : script.run less = .ok value) : script.run more = .ok value := by
  induction script with
  | done result => exact ran
  | parse session parent queue next ih =>
    obtain ⟨after, parsed, ran⟩ := exists_of_bind ran
    rw [Script.run, refines parsed]
    exact ih after ran

namespace Dispatch

theorem offer_mono (refines : less.Refines more) {found : Session × List Text}
    (offered : offer less parent block rest (actors.map (·.handler)) session = .ok found) :
    offer more parent block rest (actors.map (·.handler)) session = .ok found := by
  induction actors generalizing session with
  | nil => exact offered
  | cons actor others ih =>
    rw [List.map_cons, offer] at offered ⊢
    by_cases accepted : actor.handler.accepts session parent block = true
    · simp only [accepted, if_true] at offered ⊢
      obtain ⟨outcome, ran, offered⟩ := exists_of_bind offered
      rw [actor.run_eq] at ran ⊢
      rw [Script.run_mono refines ran]
      cases outcome with
      | handled session queue => exact offered
      | declined session => exact ih offered
    · simp only [accepted, Bool.false_eq_true, if_false] at offered ⊢
      exact ih offered

theorem run_succ (actors : List Actor) (budget : Nat) :
    Reparse.Refines (run (actors.map (·.handler)) budget)
      (run (actors.map (·.handler)) (budget + 1)) := by
  induction budget with
  | zero =>
    intro session parent queue after ran
    cases ran
  | succ budget ih =>
    intro session parent queue after ran
    cases queue with
    | nil => exact ran
    | cons block rest =>
      obtain ⟨⟨middle, queue⟩, offered, ran⟩ := exists_of_bind ran
      rw [run, offer_mono ih offered]
      exact ih ran

theorem run_mono (actors : List Actor) (enough : budget ≤ budget') :
    Reparse.Refines (run (actors.map (·.handler)) budget) (run (actors.map (·.handler)) budget') := by
  induction enough with
  | refl => exact fun _ _ _ _ ran => ran
  | step _ ih => exact fun _ _ _ _ ran => run_succ actors _ (ih ran)

theorem eq_of_run (ran : run (actors.map (·.handler)) budget session parent queue = .ok after)
    (ran' : run (actors.map (·.handler)) budget' session parent queue = .ok other) :
    after = other := by
  have first := run_mono actors (Nat.le_max_left budget budget') ran
  have second := run_mono actors (Nat.le_max_right budget budget') ran'
  exact Except.ok.inj (first.symm.trans second)

end Dispatch

end Tracemark
