import Tracemark.Proofs.Stage.Placeholders

/-! Fenced code is put aside whole.

The lines of a document are parted into fences, each from the line that opens it to the first line that
closes it, and the lines between them. Each fence leaves a placeholder, with empty lines around it that
keep it apart from its neighbours, and its code goes into the stash. What is left opens no fence that
is closed, so a second run changes nothing.
-/

set_option autoImplicit false

namespace Tracemark

namespace Fence

open Stash (Apart Fragment IsPlaceholder Spaced apart_nil_left apart_nil_right placeholder
  placeholder?)

inductive Part where
  | plain (line : Text)
  | fenced (fence : Text) (opening : Opening) (body : List Text) (closing : Text)

def Part.fragment? : Part → Option Fragment
  | plain _ => none
  | fenced _ opening body _ => some ⟨opening.language, Text.joinLines body⟩

def fragments (parts : List Part) : List Fragment := parts.filterMap Part.fragment?

theorem fragments_fenced (fence closing : Text) (opening : Opening) (body : List Text)
    (parts : List Part) : fragments (.fenced fence opening body closing :: parts) =
      ⟨opening.language, Text.joinLines body⟩ :: fragments parts :=
  rfl

def Unclosed (line other : Text) : Prop :=
  ∀ opening ∈ opening? line, opening.closedBy other = false

/-- Lines and their parts. A line stays when it opens no fence that a line behind it closes, and a fence
ends at the first line that closes it. -/
inductive Parted : List Text → List Part → Prop
  | done : Parted [] []
  | plain {line : Text} {rest : List Text} {parts : List Part} :
    (∀ other ∈ rest, Unclosed line other) → Parted rest parts →
    Parted (line :: rest) (.plain line :: parts)
  | fenced {fence closing : Text} {opening : Opening} {body after : List Text} {parts : List Part} :
    opening? fence = some opening → (∀ line ∈ body, opening.closedBy line = false) →
    opening.closedBy closing = true → Parted after parts →
    Parted (fence :: (body ++ closing :: after)) (.fenced fence opening body closing :: parts)

/-- Parts and the lines that are written for them, with placeholders from some number on. There is at
most one empty line on either side of a placeholder that stands for a fence. -/
inductive Replaced : (number : Nat) → List Part → List Text → Prop
  | done {number : Nat} : Replaced number [] []
  | plain {number : Nat} {line : Text} {parts : List Part} {written : List Text} :
    Replaced number parts written → Replaced number (.plain line :: parts) (line :: written)
  | fenced {number : Nat} {fence closing : Text} {opening : Opening} {body front back : List Text}
      {parts : List Part} {written : List Text} :
    front = [] ∨ front = [[]] → back = [] ∨ back = [[]] → Replaced (number + 1) parts written →
    Replaced number (.fenced fence opening body closing :: parts)
      (front ++ placeholder number :: back ++ written)

variable {opening : Opening} {line : Text} {lines body after written : List Text} {parts : List Part}
  {number : Nat}

/-! Fences. -/

theorem forall_of_body?_eq_none (unclosed : opening.body? lines = none) :
    ∀ line ∈ lines, opening.closedBy line = false := by
  unfold Opening.body? at unclosed
  split at unclosed
  · next nothing =>
    intro line member
    simpa using List.dropWhile_eq_nil_iff.1 nothing line member
  · cases unclosed

theorem exists_of_body?_eq_some (closed : opening.body? lines = some (body, after)) :
    ∃ closing, lines = body ++ closing :: after ∧ (∀ line ∈ body, opening.closedBy line = false) ∧
      opening.closedBy closing = true := by
  unfold Opening.body? at closed
  split at closed
  · cases closed
  · next closing rest same =>
    cases closed
    refine ⟨closing, ?_, ?_, ?_⟩
    · rw [← same, List.takeWhile_append_dropWhile]
    · intro line member
      simpa using List.mem_takeWhile_imp member
    · have stopped := List.head?_dropWhile_not (!opening.closedBy ·) lines
      rw [same] at stopped
      simpa using stopped

theorem body?_eq_none (unclosed : ∀ line ∈ lines, opening.closedBy line = false) :
    opening.body? lines = none := by
  have passed : lines.dropWhile (!opening.closedBy ·) = [] :=
    List.dropWhile_eq_nil_iff.2 fun line member => by simp [unclosed line member]
  rw [Opening.body?, passed]

theorem padding_cases (neighbour : Option Text) : padding neighbour = [] ∨ padding neighbour = [[]] := by
  unfold padding
  split
  · exact .inr rfl
  · exact .inl rfl

/-! Parts. -/

theorem exists_parts (stash : Stash) (previous : Option Text) (lines : List Text) :
    ∃ parts, Parted lines parts ∧ Replaced stash.size parts (stashAll stash previous lines).2 ∧
      (stashAll stash previous lines).1.fragments = stash.fragments ++ fragments parts := by
  fun_induction stashAll stash previous lines with
  | case1 stash => exact ⟨[], .done, .done, (List.append_nil _).symm⟩
  | case2 stash previous line rest plain stash' written same ih =>
    rw [same] at ih
    obtain ⟨parts, parted, replaced, stashed⟩ := ih
    exact ⟨_, .plain (by simp [Unclosed, plain]) parted, .plain replaced, stashed⟩
  | case3 stash previous line rest opening found unclosed stash' written same ih =>
    rw [same] at ih
    obtain ⟨parts, parted, replaced, stashed⟩ := ih
    have stays : ∀ other ∈ rest, Unclosed line other := by
      intro other member opening' opened
      cases found.symm.trans opened
      exact forall_of_body?_eq_none unclosed other member
    exact ⟨_, .plain stays parted, .plain replaced, stashed⟩
  | case4 stash previous line rest opening found body after closed _ mark stash' stored framed stash''
      written same ih =>
    rw [same] at ih
    obtain ⟨parts, parted, replaced, stashed⟩ := ih
    obtain ⟨rfl, rfl⟩ := Prod.mk.inj stored
    obtain ⟨closing, rfl, inside, closes⟩ := exists_of_body?_eq_some closed
    have next : Stash.size ⟨stash.fragments ++ [⟨opening.language, Text.joinLines body⟩]⟩ =
        stash.size + 1 := List.length_append
    rw [next] at replaced
    refine ⟨_, .fenced found inside closes parted,
      .fenced (padding_cases previous) (padding_cases after.head?) replaced, ?_⟩
    rw [stashed]
    exact List.append_assoc _ _ _

theorem framed_cases {front back : List Text} (before : front = [] ∨ front = [[]])
    (behind : back = [] ∨ back = [[]]) (member : line ∈ front ++ placeholder number :: back) :
    line = [] ∨ line = placeholder number := by
  rcases before with rfl | rfl <;> rcases behind with rfl | rfl <;> simp at member <;> tauto

theorem Replaced.mem_cases (replaced : Replaced number parts written) (member : line ∈ written) :
    line = [] ∨ IsPlaceholder line ∨ .plain line ∈ parts := by
  induction replaced with
  | done => cases member
  | plain _ ih =>
    rcases List.mem_cons.1 member with rfl | later
    · exact .inr (.inr List.mem_cons_self)
    · exact (ih later).imp_right fun known => known.imp_right (List.mem_cons_of_mem _)
  | fenced before behind _ ih =>
    rcases List.mem_append.1 member with framed | later
    · exact (framed_cases before behind framed).imp_right fun same => .inl ⟨_, same⟩
    · exact (ih later).imp_right fun known => known.imp_right (List.mem_cons_of_mem _)

theorem Parted.mem_of_plain (parted : Parted lines parts) (member : .plain line ∈ parts) :
    line ∈ lines := by
  induction parted with
  | done => cases member
  | plain _ _ ih =>
    rcases List.mem_cons.1 member with same | later
    · cases same
      exact List.mem_cons_self
    · exact List.mem_cons_of_mem _ (ih later)
  | fenced _ _ _ _ ih =>
    rcases List.mem_cons.1 member with same | later
    · cases same
    · exact List.mem_cons_of_mem _ (List.mem_append_right _ (List.mem_cons_of_mem _ (ih later)))

/-! Placeholders. -/

theorem Replaced.filterMap_placeholder? (replaced : Replaced number parts written)
    (foreign : ∀ line, .plain line ∈ parts → '\x02' ∉ line)
    (fits : number + (fragments parts).length ≤ UInt64.size) :
    written.filterMap placeholder? = List.range' number (fragments parts).length := by
  induction replaced with
  | done => rfl
  | plain _ ih =>
    rw [List.filterMap_cons_none (Stash.placeholder?_of_not_mem (foreign _ List.mem_cons_self))]
    exact ih (fun line member => foreign line (List.mem_cons_of_mem _ member)) fits
  | @fenced number _ _ _ _ front back parts written before behind _ ih =>
    have few {lines : List Text} (blank : lines = [] ∨ lines = [[]]) :
        lines.filterMap placeholder? = [] := by
      rcases blank with rfl | rfl
      · rfl
      · rw [List.filterMap_cons_none Stash.placeholder?_nil, List.filterMap_nil]
    rw [fragments_fenced, List.length_cons] at fits ⊢
    have later := ih (fun line member => foreign line (List.mem_cons_of_mem _ member)) (by omega)
    have here : placeholder? (placeholder number) = some number :=
      Stash.placeholder?_placeholder (by omega)
    rw [List.filterMap_append, List.filterMap_append, List.filterMap_cons_some here, few before,
      few behind, later, List.range'_succ]
    rfl

-- A line that stays is no placeholder, so only a placeholder before it counts.
theorem isChain_plain {previous : Option Text} (foreign : '\x02' ∉ line)
    (ahead : ∀ other ∈ previous, IsPlaceholder other → line = [])
    (later : (line :: written).IsChain Apart) : (previous.toList ++ line :: written).IsChain Apart := by
  cases previous with
  | none => exact later
  | some other =>
    refine List.isChain_cons_cons.2 ⟨fun marked => ?_, later⟩
    rcases marked with marked | ⟨number, rfl⟩
    · exact .inr (ahead other rfl marked)
    · exact absurd List.mem_cons_self foreign

-- An empty line, or none where there is nothing to keep apart from, stands on either side.
theorem isChain_framed (previous next : Option Text) (number : Nat)
    (later : ((padding previous ++ placeholder number :: padding next).getLast?.toList ++
      written).IsChain Apart) :
    (previous.toList ++ (padding previous ++ placeholder number :: padding next ++ written)).IsChain
      Apart := by
  have behind : (placeholder number :: (padding next ++ written)).IsChain Apart := by
    rcases padding_cases next with few | few
    · rw [few] at later ⊢
      simpa using later
    · rw [few] at later ⊢
      exact List.isChain_cons_cons.2 ⟨apart_nil_right _, by simpa using later⟩
  rw [List.append_assoc, List.cons_append]
  match previous with
  | none => exact behind
  | some [] => exact List.isChain_cons_cons.2 ⟨apart_nil_left _, behind⟩
  | some (c :: text) =>
    exact List.isChain_cons_cons.2
      ⟨apart_nil_right _, List.isChain_cons_cons.2 ⟨apart_nil_left _, behind⟩⟩

theorem isChain_stashAll (stash : Stash) (previous : Option Text)
    (foreign : ∀ line ∈ lines, '\x02' ∉ line)
    (ahead : ∀ line ∈ previous, IsPlaceholder line → ∀ next ∈ lines.head?, next = []) :
    (previous.toList ++ (stashAll stash previous lines).2).IsChain Apart := by
  -- A line that stays is no placeholder for the lines behind it.
  have unmarked {line : Text} (foreign : '\x02' ∉ line) {rest : List Text} :
      ∀ other ∈ some line, IsPlaceholder other → ∀ next ∈ rest.head?, next = [] := by
    rintro other same ⟨number, rfl⟩
    cases same
    exact absurd List.mem_cons_self foreign
  fun_induction stashAll stash previous lines with
  | case1 stash previous => cases previous <;> simp
  | case2 stash previous line rest plain stash' written same ih =>
    rw [List.forall_mem_cons] at foreign
    rw [same] at ih
    exact isChain_plain foreign.1 (fun other last marked => ahead other last marked line rfl)
      (ih foreign.2 (unmarked foreign.1))
  | case3 stash previous line rest opening found unclosed stash' written same ih =>
    rw [List.forall_mem_cons] at foreign
    rw [same] at ih
    exact isChain_plain foreign.1 (fun other last marked => ahead other last marked line rfl)
      (ih foreign.2 (unmarked foreign.1))
  | case4 stash previous line rest opening found body after closed _ mark stash' stored framed stash''
      written same ih =>
    obtain ⟨rfl, -⟩ := Prod.mk.inj stored
    rw [same] at ih
    apply isChain_framed
    apply ih
    · intro line member
      exact foreign line (List.mem_cons_of_mem _ (Stage.subset_of_body? closed member))
    · intro other last marked next first
      by_contra some_char
      obtain ⟨c, text, rfl⟩ := List.exists_cons_of_ne_nil some_char
      have blank : other = [] := by
        rw [Option.mem_def] at first last
        simpa [framed, first, padding, eq_comm] using last
      exact marked.ne_nil blank

/-! A second run. -/

theorem of_opening?_eq_some (found : opening? line = some opening) :
    (opening.mark = '`' ∨ opening.mark = '~') ∧ 3 ≤ opening.width := by
  unfold opening? at found
  split at found
  · cases found
  · next mark rest =>
    obtain ⟨⟨mark, width, -⟩, same⟩ := Option.ite_none_right_eq_some.1 found
    cases same
    exact ⟨mark, width⟩

theorem unclosed_of_opening?_eq_none (plain : opening? line = none) (other : Text) :
    Unclosed line other := by
  simp [Unclosed, plain]

theorem opening?_placeholder (number : Nat) : opening? (placeholder number) = none := by
  simp [opening?, placeholder, Stash.openMark]

-- A fence is closed by three marks at least.
theorem unclosed_nil (line : Text) : Unclosed line [] := by
  intro opening found
  have wide := (of_opening?_eq_some found).2
  have narrow : ¬opening.width ≤ (Text.trimEnd []).length :=
    Nat.not_le_of_lt (Nat.lt_of_lt_of_le (by decide) wide)
  simp [Opening.closedBy, narrow]

theorem unclosed_placeholder (line : Text) (number : Nat) : Unclosed line (placeholder number) := by
  intro opening found
  have other : '\x02' ≠ opening.mark := by
    rcases (of_opening?_eq_some found).1 with same | same <;> rw [same] <;> decide
  have shown : '\x02' ∈ (placeholder number).trimEnd := by
    rw [placeholder, Stash.closeMark, Text.trimEnd_of_visible rfl]
    exact List.mem_cons_self
  have stopped : (placeholder number).trimEnd.all (· = opening.mark) = false :=
    List.all_eq_false.2 ⟨_, shown, by simpa using other⟩
  simp [Opening.closedBy, stopped]

theorem Replaced.pairwise_unclosed (replaced : Replaced number parts written)
    (parted : Parted lines parts) : written.Pairwise Unclosed := by
  induction replaced generalizing lines with
  | done => exact .nil
  | @plain number line parts written replaced ih =>
    cases parted with
    | plain stays parted =>
      refine List.pairwise_cons.2 ⟨fun other member => ?_, ih parted⟩
      rcases replaced.mem_cases member with rfl | ⟨number, rfl⟩ | kept
      · exact unclosed_nil line
      · exact unclosed_placeholder line number
      · exact stays other (parted.mem_of_plain kept)
  | @fenced number fence closing opening body front back parts written before behind replaced ih =>
    cases parted with
    | fenced _ _ _ parted =>
      -- No line around the placeholder opens a fence.
      have plain : ∀ line ∈ front ++ placeholder number :: back, opening? line = none := by
        intro line member
        rcases framed_cases before behind member with rfl | rfl
        · rfl
        · exact opening?_placeholder number
      refine List.pairwise_append.2 ⟨?_, ih parted, ?_⟩
      · exact List.pairwise_of_forall_mem_list fun line member other _ =>
          unclosed_of_opening?_eq_none (plain line member) other
      · exact fun line member other _ => unclosed_of_opening?_eq_none (plain line member) other

theorem stashAll_eq_self (stash : Stash) (previous : Option Text) (quiet : lines.Pairwise Unclosed) :
    stashAll stash previous lines = (stash, lines) := by
  fun_induction stashAll stash previous lines with
  | case1 => rfl
  | case2 stash previous line rest plain stash' written same ih =>
    cases same.symm.trans (ih (List.pairwise_cons.1 quiet).2)
    rfl
  | case3 stash previous line rest opening found unclosed stash' written same ih =>
    cases same.symm.trans (ih (List.pairwise_cons.1 quiet).2)
    rfl
  | case4 stash previous line rest opening found body after closed =>
    have unclosed := body?_eq_none fun other member =>
      (List.pairwise_cons.1 quiet).1 other member opening found
    cases unclosed.symm.trans closed

theorem Replaced.spaced (replaced : Replaced number parts written) (parted : Parted lines parts)
    (unbroken : Unbroken written) (foreign : ∀ line ∈ lines, '\x02' ∉ line)
    (apart : written.IsChain Apart) : Spaced written where
  unbroken := unbroken
  known line member := by
    rcases replaced.mem_cases member with rfl | marked | kept
    · exact .inl List.not_mem_nil
    · exact .inr marked
    · exact .inl (foreign line (parted.mem_of_plain kept))
  apart := apart

end Fence

namespace Stage

open Fence (Parted Replaced fragments)

/-- Fenced code is put aside whole and found again once. Each fence leaves one placeholder, and its
language and code go into the stash. The placeholders found in the blocks of the lines that are left are
numbered in order, each with its fragment. A second run changes nothing. -/
theorem fencedCode_stashes {session : Session} {lines : List Text} (start : session.stash = {})
    (unbroken : Unbroken lines) (foreign : ∀ line ∈ lines, '\x02' ∉ line) :
    ∃ parts after written, fencedCode.run session lines = (after, written) ∧
      Parted lines parts ∧ Replaced 0 parts written ∧ after.stash.fragments = fragments parts ∧
      (after.stash.size ≤ UInt64.size →
        (Text.blocks (Text.joinLines written)).filterMap Stash.placeholder? =
          List.range after.stash.size ∧
        ∀ number ∈ List.range after.stash.size, (after.stash.get? number).isSome) ∧
      fencedCode.run after written = (after, written) := by
  obtain ⟨tree, stash, metadata, extensions⟩ := session
  cases start
  obtain ⟨parts, parted, replaced, stashed⟩ := Fence.exists_parts {} none lines
  have apart := Fence.isChain_stashAll {} none foreign (by simp)
  have spaced := replaced.spaced parted (unbroken_stashAll unbroken {} none) foreign apart
  have quiet := replaced.pairwise_unclosed parted
  rw [List.nil_append] at stashed
  have count : (Fence.stashAll {} none lines).1.size = (fragments parts).length :=
    congrArg List.length stashed
  change Replaced 0 parts _ at replaced
  refine ⟨parts, _, _, rfl, parted, replaced, stashed, fun fits => ⟨?_, ?_⟩, ?_⟩
  · have fits' : 0 + (fragments parts).length ≤ UInt64.size := by
      rw [Nat.zero_add, ← count]
      exact fits
    have numbered := replaced.filterMap_placeholder?
      (fun line member => foreign line (parted.mem_of_plain member)) fits'
    rw [spaced.filterMap_blocks, numbered, ← count, List.range_eq_range']
  · intro number member
    have inside := List.getElem?_eq_getElem (List.mem_range.1 member)
    exact Option.isSome_iff_exists.2 ⟨_, inside⟩
  · simp only [fencedCode, Fence.stashAll_eq_self _ none quiet]

/-- A fence inside a fence, two fences back to back, and one that is never closed. -/
theorem fencedCode_stashes_nested : ∃ parts after written,
    fencedCode.run Session.new
        ["a".toList, "```rust".toList, "~~~".toList, "```".toList, "~~~".toList, "x".toList, [],
          "~~~~".toList, "b".toList, "```".toList] = (after, written) ∧
      Parted
        ["a".toList, "```rust".toList, "~~~".toList, "```".toList, "~~~".toList, "x".toList, [],
          "~~~~".toList, "b".toList, "```".toList] parts ∧
      Replaced 0 parts written ∧ after.stash.fragments = fragments parts ∧
      (after.stash.size ≤ UInt64.size →
        (Text.blocks (Text.joinLines written)).filterMap Stash.placeholder? =
          List.range after.stash.size ∧
        ∀ number ∈ List.range after.stash.size, (after.stash.get? number).isSome) ∧
      fencedCode.run after written = (after, written) :=
  fencedCode_stashes rfl (by unfold Unbroken; decide) (by decide)

end Stage

end Tracemark
