import Tracemark.Stage.FencedCode
import Tracemark.Stage.FrontMatter
import Tracemark.Stage.Whitespace
import Tracemark.Proofs.Text.BlockLines

/-! The stages put no line feed into a line.

So the lines that they leave are the lines of the text that is parsed.
-/

set_option autoImplicit false

namespace Tracemark

def Unbroken (lines : List Text) : Prop := ∀ line ∈ lines, '\n' ∉ line

theorem unbroken_lines (text : Text) : Unbroken text.lines :=
  fun _ member => Text.not_mem_of_mem_lines member

namespace Stage

theorem not_mem_expandTabs {column : Nat} {line : Text} (unbroken : '\n' ∉ line) :
    '\n' ∉ expandTabs column line := by
  induction line generalizing column with
  | nil => exact unbroken
  | cons c rest ih =>
    rw [List.mem_cons, not_or] at unbroken
    unfold expandTabs
    split
    · simp [ih unbroken.2]
    · simp [ih unbroken.2, unbroken.1]

theorem not_mem_normalizeLine {line : Text} (unbroken : '\n' ∉ line) :
    '\n' ∉ normalizeLine line := by
  have shorter : '\n' ∉ line.dropReturn := by
    unfold Text.dropReturn
    cases found : Text.dropSuffix? ['\r'] line with
    | none => exact unbroken
    | some rest =>
      rw [Text.dropSuffix?_eq_some_iff] at found
      intro member
      exact unbroken (found ▸ List.mem_append_left _ member)
  simp only [normalizeLine]
  split
  · exact List.not_mem_nil
  · exact not_mem_expandTabs shorter

theorem unbroken_normalizeWhitespace {lines : List Text} (unbroken : Unbroken lines)
    (session : Session) : Unbroken (normalizeWhitespace.run session lines).2 := by
  intro line member
  obtain ⟨before, held, rfl⟩ := List.mem_map.1 member
  exact not_mem_normalizeLine (unbroken before held)

theorem unbroken_frontMatter {lines : List Text} (unbroken : Unbroken lines) (session : Session) :
    Unbroken (frontMatter.run session lines).2 :=
  fun line member => unbroken line ((List.drop_sublist _ _).subset member)

theorem not_mem_placeholder (number : Nat) : '\n' ∉ Stash.placeholder number := by
  intro member
  rcases List.mem_append.1 member with front | mark
  · rcases List.mem_append.1 front with mark | digit
    · exact absurd mark (by decide)
    · have isDigit : Char.isDigit '\n' = true :=
        Nat.isDigit_of_mem_toDigits (by decide) (by decide) digit
      exact absurd isDigit (by decide)
  · exact absurd mark (by decide)

theorem unbroken_padding (neighbour : Option Text) : Unbroken (Fence.padding neighbour) := by
  unfold Fence.padding Unbroken
  split <;> simp

theorem subset_of_body? {opening : Fence.Opening} {lines body after : List Text}
    (closed : opening.body? lines = some (body, after)) : after ⊆ lines := by
  unfold Fence.Opening.body? at closed
  split at closed
  · cases closed
  · next fence rest same =>
    cases closed
    intro line member
    exact (List.dropWhile_sublist _).subset (same ▸ List.mem_cons_of_mem _ member)

theorem unbroken_stashAll {lines : List Text} (unbroken : Unbroken lines) (stash : Stash)
    (previous : Option Text) : Unbroken (Fence.stashAll stash previous lines).2 := by
  fun_induction Fence.stashAll stash previous lines with
  | case1 => exact unbroken
  | case2 stash previous line rest _ stash' written same ih =>
    rw [same] at ih
    exact List.forall_mem_cons.2 ⟨unbroken line List.mem_cons_self,
      ih fun other member => unbroken other (List.mem_cons_of_mem _ member)⟩
  | case3 stash previous line rest _ _ _ stash' written same ih =>
    rw [same] at ih
    exact List.forall_mem_cons.2 ⟨unbroken line List.mem_cons_self,
      ih fun other member => unbroken other (List.mem_cons_of_mem _ member)⟩
  | case4 stash previous line rest opening _ body after closed _ placeholder stash' stored framed
      stash'' written same ih =>
    rw [same] at ih
    have frame : Unbroken framed := by
      obtain ⟨rfl, -⟩ := Prod.mk.inj stored
      intro other member
      rcases List.mem_append.1 member with before | behind
      · exact unbroken_padding previous other before
      · rcases List.mem_cons.1 behind with rfl | padding
        · exact not_mem_placeholder _
        · exact unbroken_padding after.head? other padding
    intro other member
    rcases List.mem_append.1 member with here | there
    · exact frame other here
    · apply ih _ other there
      intro line member
      exact unbroken line (List.mem_cons_of_mem _ (subset_of_body? closed member))

theorem unbroken_fencedCode {lines : List Text} (unbroken : Unbroken lines) (session : Session) :
    Unbroken (fencedCode.run session lines).2 :=
  unbroken_stashAll unbroken session.stash none

end Stage

end Tracemark
