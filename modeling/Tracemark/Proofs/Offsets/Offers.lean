import Tracemark.Proofs.Offsets.Claiming
import Tracemark.Proofs.Stage.Unbroken

/-! Blocks that are offered one after another.

The blocks of some lines stand on runs of these lines, in order, with the one empty line between two
runs that parts the blocks. Offered in order, each block that has a line with content claims from the
first to the last of its own lines that have, however often the text of a line comes again in the
document. A block without such a line claims nothing.
-/

set_option autoImplicit false

namespace Tracemark

namespace Interval

variable {α : Type} {run : Interval} {entries part : List α}

theorem slice?_append (front part back : List α) :
    slice? ⟨front.length, front.length + part.length⟩ (front ++ part ++ back) = some part := by
  rw [slice?, if_pos (by simp), length, List.append_assoc, List.drop_left,
    Nat.add_sub_cancel_left, List.take_left]

theorem getElem?_of_slice? (sliced : run.slice? entries = some part) {position : Nat}
    (member : position ∈ run) : entries[position]? = part[position - run.start]? := by
  unfold slice? at sliced
  split at sliced
  · cases sliced
    rw [mem_iff] at member
    have within : position - run.start < run.length := by
      unfold length
      omega
    rw [List.getElem?_take_of_lt within, List.getElem?_drop, Nat.add_sub_cancel' member.1]
  · cases sliced

end Interval

namespace Offsets

open Tracemark.Alignment (Differ Strategy)

structure Offer where
  block : Text
  before : Tracker
  claimed : Option Interval
  after : Tracker

def Tracker.offers : Tracker → List Text → List Offer
  | _, [] => []
  | tracker, block :: rest =>
    match tracker.claim block with
    | some (run, claimed) => ⟨block, tracker, some run, claimed⟩ :: claimed.offers rest
    | none => ⟨block, tracker, none, tracker⟩ :: tracker.offers rest

/-- Places that fill the lines from `line` up to `length`, with one line between neighbours. -/
def Laid (length : Nat) : (line : Nat) → List Interval → Prop
  | _, [] => False
  | line, [place] => place.start = line ∧ line ≤ place.stop ∧ place.stop = length
  | line, place :: next :: rest =>
    place.start = line ∧ line ≤ place.stop ∧ Laid length (place.stop + 1) (next :: rest)

def HasContent (lines : List Text) (line : Nat) : Prop :=
  ∃ text, lines[line]? = some text ∧ text.isBlank = false

structure ContentRun (lines : List Text) (place run : Interval) : Prop where
  start : place.start ≤ run.start
  stop : run.stop ≤ place.stop
  some_line : run.start < run.stop
  first : HasContent lines run.start
  last : HasContent lines (run.stop - 1)
  outside : ∀ line ∈ place, HasContent lines line → line ∈ run

/-- A block stands on the lines of a place and claims those with content, as long as there are any. -/
structure Offer.Exact (lines : List Text) (place : Interval) (offer : Offer) : Prop where
  stands : ∃ own, place.slice? lines = some own ∧ offer.block = Text.joinLines own
  claims : (∃ line ∈ place, HasContent lines line) →
    offer.before.wants offer.block = true ∧ ∃ run, ContentRun lines place run ∧
      offer.claimed = some run ∧
      offer.after = { offer.before with lastClaimed := some (run.stop - 1) }
  passes : (∀ line ∈ place, ¬HasContent lines line) →
    offer.before.wants offer.block = false ∧ offer.claimed = none ∧ offer.after = offer.before

def placesFrom (line : Nat) : List Text → List Interval
  | [] => []
  | block :: rest =>
    ⟨line, line + block.lines.length⟩ :: placesFrom (line + block.lines.length + 1) rest

variable {lines own : List Text} {place run : Interval} {line : Nat} {block : Text}
  {blocks : List Text} {tracker : Tracker}

theorem hasContent_iff (sliced : place.slice? lines = some own) (member : line ∈ place) :
    HasContent lines line ↔ ∃ text, (line, text) ∈ numbered place.start own := by
  simp only [HasContent, Interval.getElem?_of_slice? sliced member, mem_numbered, member.1, true_and]

theorem contentRun_of_contentRun? (sliced : Interval.slice? ⟨line, line + own.length⟩ lines = some own)
    (found : contentRun? line own = some run) : ContentRun lines ⟨line, line + own.length⟩ run := by
  obtain ⟨least, some_line, most⟩ := bounds_of_contentRun? found
  have content {entry : Nat × Text} (member : entry ∈ numbered line own) :
      HasContent lines entry.1 := by
    have inside : entry.1 ∈ (⟨line, line + own.length⟩ : Interval) :=
      ⟨(mem_numbered.1 member).1, lt_of_mem_numbered member⟩
    exact (hasContent_iff sliced inside).2 ⟨entry.2, member⟩
  obtain ⟨first, last, head, atEnd, rfl⟩ := exists_ends_of_contentRun? found
  refine ⟨least, most, some_line, content (List.mem_of_head? head),
    content (List.mem_of_getLast? atEnd), fun place member filled => ?_⟩
  obtain ⟨text, listed⟩ := (hasContent_iff sliced member).1 filled
  exact mem_contentRun? found listed

/-- While blocks face their lines, the first of them claims what it should. -/
theorem exact_cons (idle : tracker.guard = .idle)
    (faces : tracker.unclaimed = numberedBlocks line (block :: blocks))
    (sliced : Interval.slice? ⟨line, line + block.lines.length⟩ lines = some block.lines) :
    ∃ (offer : Offer) (after : Tracker),
      tracker.offers (block :: blocks) = offer :: after.offers blocks ∧
      offer.Exact lines ⟨line, line + block.lines.length⟩ ∧ after.guard = .idle ∧
      after.unclaimed = numberedBlocks (line + block.lines.length + 1) blocks := by
  have stands : ∃ own, Interval.slice? ⟨line, line + block.lines.length⟩ lines = some own ∧
      block = Text.joinLines own :=
    ⟨block.lines, sliced, (Text.joinLines_lines block).symm⟩
  have claim := Tracker.claim_eq faces
  have wants := Tracker.wants_eq faces
  rw [idle] at wants
  cases found : contentRun? line block.lines with
  | none =>
    have blank := contentRun?_eq_none_iff.1 found
    rw [found] at claim
    rw [blank] at wants
    refine ⟨⟨block, tracker, none, tracker⟩, tracker, by rw [Tracker.offers, claim]; rfl,
      ⟨stands, ?_, fun _ => ⟨wants, rfl, rfl⟩⟩, idle, Tracker.unclaimed_of_blank faces blank⟩
    rintro ⟨place, member, content⟩
    obtain ⟨text, listed⟩ := (hasContent_iff sliced member).1 content
    rw [Text.isBlank_iff_forall_lines, ← numbered_eq_nil_iff line] at blank
    exact absurd listed (by simp [blank])
  | some run =>
    have filled := contentRun_of_contentRun? sliced found
    have content : contentRun? line block.lines ≠ none := by simp [found]
    rw [ne_eq, contentRun?_eq_none_iff, Bool.not_eq_true] at content
    rw [found] at claim
    rw [content] at wants
    let after : Tracker := { tracker with lastClaimed := some (run.stop - 1) }
    refine ⟨⟨block, tracker, some run, after⟩, after, by rw [Tracker.offers, claim]; rfl,
      ⟨stands, fun _ => ⟨wants, run, filled, rfl, rfl⟩, ?_⟩, idle,
      Tracker.unclaimed_of_claim faces found⟩
    intro none
    have inside : run.start ∈ (⟨line, line + block.lines.length⟩ : Interval) :=
      ⟨filled.start, Nat.lt_of_lt_of_le filled.some_line filled.stop⟩
    exact absurd filled.first (none run.start inside)

theorem exact_offers (front : List Text) (some_block : blocks ≠ []) (idle : tracker.guard = .idle)
    (faces : tracker.unclaimed = numberedBlocks front.length blocks)
    (parted : lines = front ++ List.intercalate [[]] (blocks.map Text.lines)) :
    Laid lines.length front.length (placesFrom front.length blocks) ∧
      List.Forall₂ (fun place offer => offer.Exact lines place) (placesFrom front.length blocks)
        (tracker.offers blocks) := by
  induction blocks generalizing tracker front with
  | nil => exact absurd rfl some_block
  | cons block rest ih =>
    have whole : ∃ back, lines = front ++ block.lines ++ back := by
      cases rest with
      | nil => exact ⟨[], by simpa using parted⟩
      | cons next others =>
        rw [List.map_cons, List.map_cons, List.intercalate_cons_cons, List.append_assoc,
          ← List.append_assoc] at parted
        exact ⟨_, parted⟩
    have sliced : Interval.slice? ⟨front.length, front.length + block.lines.length⟩ lines =
        some block.lines := by
      obtain ⟨back, rfl⟩ := whole
      exact Interval.slice?_append front block.lines back
    obtain ⟨offer, after, offers, exact, idle', faces'⟩ := exact_cons idle faces sliced
    rw [offers, placesFrom]
    cases rest with
    | nil =>
      have length : front.length + block.lines.length = lines.length := by
        rw [parted]
        simp
      exact ⟨⟨rfl, Nat.le_add_right _ _, length⟩, .cons exact .nil⟩
    | cons next others =>
      have passed : front.length + block.lines.length + 1 = (front ++ block.lines ++ [[]]).length := by
        simp
        omega
      have parted' : lines = front ++ block.lines ++ [[]] ++
          List.intercalate [[]] ((next :: others).map Text.lines) := by
        rw [parted]
        simp [List.intercalate_cons_cons]
      rw [passed] at faces' ⊢
      obtain ⟨laid, later⟩ := ih (front ++ block.lines ++ [[]]) (List.cons_ne_nil _ _) idle' faces' parted'
      exact ⟨⟨rfl, Nat.le_add_right _ _, passed ▸ laid⟩, .cons exact later⟩

/-- After any alignment the blocks of some lines, offered in order, claim exactly their own lines. -/
theorem offers_exact (differ : Differ) (source mutated : List Text) (strategy : Strategy)
    (unbroken : Unbroken mutated) :
    ∃ places, Laid mutated.length 0 places ∧
      List.Forall₂ (fun place offer => offer.Exact mutated place) places
        (((Tracker.ofLines source).align strategy mutated differ).offers
          (Text.joinLines mutated).blocks) := by
  have faces : ((Tracker.ofLines source).align strategy mutated differ).unclaimed =
      numberedBlocks 0 (Text.joinLines mutated).blocks := Tracker.unclaimed_start rfl unbroken
  by_cases none : mutated = []
  · -- There is one block, but it stands on no line.
    subst none
    change _ = numberedBlocks 0 [[]] at faces
    have claim := Tracker.claim_eq faces
    have wants := Tracker.wants_eq faces
    refine ⟨[⟨0, 0⟩], ⟨rfl, Nat.le_refl _, rfl⟩,
      .cons ⟨⟨[], rfl, rfl⟩, ?_, fun _ => ⟨wants, rfl, rfl⟩⟩ .nil⟩
    rintro ⟨line, member, -⟩
    exact absurd member.2 (Nat.not_lt_zero line)
  · have parted := Text.lines_eq_intercalate_blocks (Text.joinLines mutated)
    rw [Text.lines_joinLines none unbroken] at parted
    exact ⟨_, exact_offers [] (Text.blocks_ne_nil _) rfl faces parted⟩

theorem offers_exact_repeated :
    let mutated : List Text := [['x'], ['x'], [], ['x'], [], [], [], ['y'], [' ']]
    let offers := ((Tracker.ofLines [['x'], ['z']]).align .sequential mutated).offers
      (Text.joinLines mutated).blocks
    Unbroken mutated ∧
      (∃ places, Laid 9 0 places ∧
        List.Forall₂ (fun place offer => offer.Exact mutated place) places offers) ∧
      offers.map (·.claimed) = [some ⟨0, 2⟩, some ⟨3, 4⟩, none, some ⟨7, 8⟩] := by
  intro mutated offers
  have unbroken : Unbroken mutated := by
    unfold Unbroken
    decide
  exact ⟨unbroken, offers_exact .shortest [['x'], ['z']] mutated .sequential unbroken,
    by decide +kernel⟩

end Offsets

end Tracemark
