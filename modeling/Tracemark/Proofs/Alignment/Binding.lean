import Mathlib.Data.List.Forall2
import Tracemark.Proofs.Alignment.Translation

/-! Which source lines a scan forward binds.

When lines were only dropped and injected, the keys that come back are found in the source in order. The
scan then misses none of them: it takes each at the first place behind the last one taken, so that no
other choice leaves more of the source to the lines that follow. Blank lines move the cursor over blank
lines only, where no key of another line stands.
-/

set_option autoImplicit false

namespace Tracemark.Alignment

open EditScript (Fills)

/-- Places of keys in a source, one behind the other, from a place on. -/
inductive Embeds (source : List Text) : (start : Nat) → List Text → List Nat → Prop
  | nil {start : Nat} : Embeds source start [] []
  | cons {start place : Nat} {key : Text} {keys : List Text} {places : List Nat} :
      start ≤ place → source[place]? = some key → Embeds source (place + 1) keys places →
      Embeds source start (key :: keys) (place :: places)

structure Leftmost (source : List Text) (start : Nat) (keys : List Text) (places : List Nat) :
    Prop where
  embeds : Embeds source start keys places
  least : ∀ other, Embeds source start keys other → List.Forall₂ (· ≤ ·) places other

/-- The keys that come back from a source, without those of blank lines, each with its line. The first
key is that of line `line`. -/
def returning (source : List Text) (line : Nat) (keys : List Text) : List (Text × Nat) :=
  (keys.zipIdx line).filter fun (key, _) => key ≠ [] && source.contains key

namespace EditScript

def Binds (script : EditScript) (line place : Nat) : Prop :=
  ∃ op ∈ script, op.kind = .equal ∧ line ∈ op.mutated ∧ op.counterpart line = place

variable {script rest : EditScript} {op other : EditOp} {source mutated : Interval} {line place : Nat}

/-! What joined operations say of a line. -/

theorem exists_mem_join (fills : Fills (op :: rest) source mutated) (member : other ∈ op :: rest)
    (holds : line ∈ other.mutated) :
    ∃ whole ∈ join op rest, whole.kind = other.kind ∧ line ∈ whole.mutated ∧
      (other.kind = .equal → whole.counterpart line = other.counterpart line) := by
  unfold join
  split
  · next next later =>
    split
    · next alike =>
      obtain ⟨-, -, forward, fit, fills⟩ := fills_cons_iff.1 fills
      obtain ⟨meets, meets', forward', -, -⟩ := fills_cons_iff.1 fills
      have here := forward.mutated
      have there := forward'.mutated
      rw [Interval.mem_iff] at holds
      rcases List.mem_cons.1 member with rfl | member
      · refine ⟨_, List.mem_cons_self, rfl, ?_, fun _ => rfl⟩
        simp only [EditOp.extendTo, Interval.mem_iff]
        simp only at meets'
        omega
      · rcases List.mem_cons.1 member with rfl | member
        · refine ⟨_, List.mem_cons_self, alike.symm, ?_, fun equal => ?_⟩
          · simp only [EditOp.extendTo, Interval.mem_iff]
            simp only at meets'
            omega
          · rw [EditOp.fits_iff forward, ← alike, equal] at fit
            simp only [EditOp.counterpart, EditOp.extendTo] at fit meets meets' ⊢
            omega
        · exact ⟨other, List.mem_cons_of_mem _ member, rfl, holds, fun _ => rfl⟩
    · exact ⟨other, member, rfl, holds, fun _ => rfl⟩
  · exact ⟨other, member, rfl, holds, fun _ => rfl⟩

theorem exists_mem_foldr_join (fills : Fills script source mutated) (member : op ∈ script)
    (holds : line ∈ op.mutated) :
    ∃ whole ∈ script.foldr join [], whole.kind = op.kind ∧ line ∈ whole.mutated ∧
      (op.kind = .equal → whole.counterpart line = op.counterpart line) := by
  induction script generalizing source mutated with
  | nil => cases member
  | cons first rest ih =>
    obtain ⟨start, start', forward, fit, fills⟩ := fills_cons_iff.1 fills
    have joined := fills_cons_iff.2 ⟨start, start', forward, fit, fills_foldr_join fills⟩
    rcases List.mem_cons.1 member with rfl | later
    · exact exists_mem_join joined List.mem_cons_self holds
    · obtain ⟨whole, listed, kind, holds', same⟩ := ih fills later
      obtain ⟨wider, listed', kind', holds'', same'⟩ :=
        exists_mem_join joined (List.mem_cons_of_mem _ listed) holds'
      exact ⟨wider, listed', kind'.trans kind, holds'',
        fun equal => (same' (kind.trans equal)).trans (same equal)⟩

theorem exists_mem_compact (fills : Fills (script.filter (!bare ·)) source mutated)
    (member : op ∈ script) (holds : line ∈ op.mutated) :
    ∃ whole ∈ compact script, whole.kind = op.kind ∧ line ∈ whole.mutated ∧
      (op.kind = .equal → whole.counterpart line = op.counterpart line) := by
  have kept : op ∈ script.filter (!bare ·) := by
    refine List.mem_filter.2 ⟨member, ?_⟩
    have filled := Nat.lt_of_le_of_lt holds.1 holds.2
    simp [bare, Interval.isEmpty, filled]
  exact exists_mem_foldr_join fills kept holds

theorem Binds.compact (binds : script.Binds line place)
    (fills : Fills (script.filter (!bare ·)) source mutated) : script.compact.Binds line place := by
  obtain ⟨op, member, equal, holds, rfl⟩ := binds
  obtain ⟨whole, listed, kind, holds', same⟩ := exists_mem_compact fills member holds
  exact ⟨whole, listed, kind.trans equal, holds', same equal⟩

theorem Injected.compact (injected : script.Injected line)
    (fills : Fills (script.filter (!bare ·)) source mutated) : script.compact.Injected line := by
  obtain ⟨op, member, deleted, holds⟩ := injected
  obtain ⟨whole, listed, kind, holds', -⟩ := exists_mem_compact fills member holds
  exact ⟨whole, listed, kind.trans deleted, holds'⟩

theorem Binds.cons (binds : script.Binds line place) (op : EditOp) :
    Binds (op :: script) line place := by
  obtain ⟨other, member, others⟩ := binds
  exact ⟨other, List.mem_cons_of_mem _ member, others⟩

theorem Injected.cons (injected : script.Injected line) (op : EditOp) :
    Injected (op :: script) line := by
  obtain ⟨other, member, others⟩ := injected
  exact ⟨other, List.mem_cons_of_mem _ member, others⟩

end EditScript

/-! Leftmost places. -/

section

variable {source keys : List Text} {key : Text} {start later place : Nat} {places : List Nat}

theorem Embeds.mono (embeds : Embeds source later keys places) (le : start ≤ later) :
    Embeds source start keys places := by
  cases embeds with
  | nil => exact .nil
  | cons from' here rest => exact .cons (Nat.le_trans le from') here rest

theorem Leftmost.skip (leftmost : Leftmost source (start + 1) keys places)
    (other : ∀ key, source[start]? = some key → key ∉ keys) : Leftmost source start keys places where
  embeds := leftmost.embeds.mono (Nat.le_succ start)
  least := by
    intro places' embeds
    apply leftmost.least
    cases embeds with
    | nil => exact .nil
    | @cons _ place key keys _ from' here rest =>
      refine .cons (Nat.lt_of_le_of_ne from' ?_) here rest
      rintro rfl
      exact other key here List.mem_cons_self

/-- The first place of a key leaves most to the keys behind it. -/
theorem Leftmost.cons (leftmost : Leftmost source (place + 1) keys places) (behind : start ≤ place)
    (here : source[place]? = some key)
    (first : ∀ earlier, start ≤ earlier → source[earlier]? = some key → place ≤ earlier) :
    Leftmost source start (key :: keys) (place :: places) where
  embeds := .cons behind here leftmost.embeds
  least := by
    rintro _ (_ | ⟨from', here', rest⟩)
    have le := first _ from' here'
    exact .cons le (leftmost.least _ (rest.mono (Nat.succ_le_succ le)))

end

/-! The scan. -/

section

variable {source remaining keys : List Text} {key : Text} {cursor line skipped : Nat}

theorem returning_cons_of_pos (content : key ≠ []) (known : key ∈ source) :
    returning source line (key :: keys) = (key, line) :: returning source (line + 1) keys := by
  simp [returning, content, known]

theorem returning_cons_of_neg (passed : key = [] ∨ key ∉ source) :
    returning source line (key :: keys) = returning source (line + 1) keys := by
  unfold returning
  rw [List.zipIdx_cons, List.filter_cons_of_neg]
  rcases passed with blank | unknown
  · simp [blank]
  · simp [unknown]

theorem nil_not_mem_returning : [] ∉ (returning source line keys).map (·.1) := by
  simp [returning]

theorem skipped?_nil (found : skipped? [] remaining = some skipped) :
    skipped = 0 ∧ ∃ rest, remaining = [] :: rest := by
  unfold skipped? at found
  simp only [if_true] at found
  split at found
  · next head =>
    cases found
    exact ⟨rfl, List.head?_eq_some_iff.1 head⟩
  · cases found

theorem first_of_skipped? (content : key ≠ []) (found : skipped? key remaining = some skipped) :
    key ∉ remaining.take skipped := by
  rw [skipped?, if_neg content] at found
  obtain ⟨within, -, before⟩ := List.findIdx?_eq_some_iff_getElem.1 found
  intro member
  obtain ⟨place, inside, same⟩ := List.mem_take_iff_getElem.1 member
  exact before place (Nat.lt_of_lt_of_le inside (Nat.min_le_left _ _)) (decide_eq_true same)

theorem not_mem_of_skipped?_eq_none (content : key ≠ []) (missing : skipped? key remaining = none) :
    key ∉ remaining := by
  rw [skipped?, if_neg content, List.findIdx?_eq_none_iff] at missing
  intro member
  exact of_decide_eq_false (missing key member) rfl

-- What follows the first place of a key leaves room for all that follows the key.
theorem sublist_drop_of_cons {others : List Text} (sublist : (key :: others).Sublist remaining)
    (first : key ∉ remaining.take skipped) : others.Sublist (remaining.drop (skipped + 1)) := by
  obtain ⟨front, back, rfl, member, rest⟩ := List.cons_sublist_iff.1 sublist
  have behind : skipped + 1 ≤ front.length := by
    by_contra short
    apply first
    rw [List.take_append, List.take_of_length_le (by omega)]
    exact List.mem_append_left _ member
  rw [List.drop_append_of_le_length behind]
  exact rest.trans (List.sublist_append_right _ _)

open EditScript (Binds Injected)

/-- What a scan from a cursor on says of the mutated lines that are left: those with a key that comes back
are bound to the leftmost places, and all others with content are injected. -/
structure Bound (source : List Text) (cursor line : Nat) (keys : List Text) (script : EditScript) :
    Prop where
  binds : ∃ places, Leftmost source cursor ((returning source line keys).map (·.1)) places ∧
    List.Forall₂ (fun entry place => script.Binds entry.2 place) (returning source line keys) places
  injects : ∀ entry ∈ keys.zipIdx line, entry.1 ≠ [] → entry.1 ∉ source → script.Injected entry.2

variable {script : EditScript} {place : Nat}

theorem Bound.cons (bound : Bound source cursor line keys script) (op : EditOp) :
    Bound source cursor line keys (op :: script) := by
  obtain ⟨⟨places, leftmost, binds⟩, injects⟩ := bound
  exact ⟨⟨places, leftmost, binds.imp fun _ _ binds => binds.cons op⟩,
    fun entry member content unknown => (injects entry member content unknown).cons op⟩

theorem Bound.bind (bound : Bound source (place + 1) (line + 1) keys script) (content : key ≠ [])
    (behind : cursor ≤ place) (here : source[place]? = some key)
    (first : ∀ earlier, cursor ≤ earlier → source[earlier]? = some key → place ≤ earlier) :
    Bound source cursor line (key :: keys)
      (⟨.equal, ⟨place, place + 1⟩, ⟨line, line + 1⟩⟩ :: script) := by
  have known := List.mem_of_getElem? here
  obtain ⟨⟨places, leftmost, binds⟩, injects⟩ := bound.cons ⟨.equal, ⟨place, place + 1⟩, ⟨line, line + 1⟩⟩
  refine ⟨⟨place :: places, ?_, ?_⟩, ?_⟩
  · rw [returning_cons_of_pos content known, List.map_cons]
    exact leftmost.cons behind here first
  · rw [returning_cons_of_pos content known]
    refine .cons ⟨_, List.mem_cons_self, rfl, ⟨Nat.le_refl _, Nat.lt_succ_self _⟩, ?_⟩ binds
    simp [EditOp.counterpart]
  · intro entry member filled unknown
    rcases List.mem_cons.1 member with rfl | later
    · exact absurd known unknown
    · exact injects entry later filled unknown

-- A line that is passed over is blank, or its key does not come back and it is injected.
theorem Bound.pass (bound : Bound source cursor (line + 1) keys script)
    (passed : key = [] ∨ key ∉ source ∧ script.Injected line) :
    Bound source cursor line (key :: keys) script := by
  obtain ⟨binds, injects⟩ := bound
  have same : returning source line (key :: keys) = returning source (line + 1) keys :=
    returning_cons_of_neg (passed.imp_right And.left)
  refine ⟨same ▸ binds, fun entry member content unknown => ?_⟩
  rcases List.mem_cons.1 member with rfl | later
  · exact (passed.resolve_left content).2
  · exact injects entry later content unknown

-- A blank line of the source is no place of a key.
theorem Bound.skip (bound : Bound source (cursor + 1) line keys script)
    (blank : source[cursor]? = some []) : Bound source cursor line keys script := by
  obtain ⟨⟨places, leftmost, binds⟩, injects⟩ := bound
  refine ⟨⟨places, leftmost.skip fun key here => ?_, binds⟩, injects⟩
  obtain rfl := Option.some.inj (blank.symm.trans here)
  exact nil_not_mem_returning

/-- The scan misses no key that comes back, as long as these keys come in the order of the source. -/
theorem bound_bindLines (source : List Text) {cursor line : Nat} {remaining keys : List Text}
    (left : remaining = source.drop cursor)
    (sublist : ((returning source line keys).map (·.1)).Sublist remaining) :
    Bound source cursor line keys (bindLines cursor line remaining keys) := by
  fun_induction bindLines cursor line remaining keys with
  | case1 => exact ⟨⟨[], ⟨.nil, fun _ embeds => by cases embeds; exact .nil⟩, .nil⟩, by simp⟩
  | case2 cursor line remaining key rest skipped found bound ih =>
    have left' : remaining.drop (skipped + 1) = source.drop (bound + 1) := by
      rw [left, List.drop_drop, Nat.add_assoc]
    have here : source[cursor + skipped]? = some key := by
      rw [← List.getElem?_drop, ← left]
      exact getElem?_of_skipped? found
    refine Bound.cons ?_ _
    by_cases blank : key = []
    · subst blank
      obtain ⟨rfl, others, rfl⟩ := skipped?_nil found
      rw [returning_cons_of_neg (.inl rfl), List.sublist_cons_iff] at sublist
      have later : ((returning source (line + 1) rest).map (·.1)).Sublist others := by
        refine sublist.resolve_right ?_
        rintro ⟨keys, same, -⟩
        exact nil_not_mem_returning (same ▸ List.mem_cons_self)
      exact (((ih left' later).skip here).cons _).pass (.inl rfl)
    · have known := List.mem_of_getElem? here
      have first := first_of_skipped? blank found
      rw [returning_cons_of_pos blank known, List.map_cons] at sublist
      refine (ih left' (sublist_drop_of_cons sublist first)).bind blank (Nat.le_add_right _ _) here ?_
      intro earlier behind here'
      by_contra before
      obtain ⟨distance, rfl⟩ := Nat.exists_eq_add_of_le behind
      rw [← List.getElem?_drop, ← left] at here'
      apply first
      rw [← List.getElem?_take_of_lt (by omega : distance < skipped)] at here'
      exact List.mem_of_getElem? here'
  | case3 cursor line remaining key rest missing ih =>
    by_cases blank : key = []
    · rw [returning_cons_of_neg (.inl blank)] at sublist
      exact ((ih left sublist).cons _).pass (.inl blank)
    · have unbound := not_mem_of_skipped?_eq_none blank missing
      have unknown : key ∉ source := by
        intro known
        rw [returning_cons_of_pos blank known] at sublist
        exact unbound (sublist.subset List.mem_cons_self)
      rw [returning_cons_of_neg (.inr unknown)] at sublist
      refine ((ih left sublist).cons _).pass (.inr ⟨unknown, ?_⟩)
      exact ⟨_, List.mem_cons_self, rfl, Nat.le_refl _, Nat.lt_succ_self _⟩

end

/-- When the keys that come back come in the order of the source, the scan binds each to the first place
behind that of the key before it. All other lines with content are injected. -/
theorem align_sequential_leftmost (differ : Differ) {source mutated : List Text}
    (sublist : ((returning (source.map lineKey) 0 (mutated.map lineKey)).map (·.1)).Sublist
      ((source.map lineKey).filter (· ≠ []))) :
    let returned := returning (source.map lineKey) 0 (mutated.map lineKey)
    let script := (RestoreMap.align .sequential source mutated differ).script
    (∃ places, Leftmost (source.map lineKey) 0 (returned.map (·.1)) places ∧
        List.Forall₂ (fun entry place => script.Binds entry.2 place) returned places) ∧
      ∀ line text, mutated[line]? = some text → text.isBlank = false →
        lineKey text ∉ source.map lineKey → script.Injected line := by
  intro returned script
  obtain ⟨⟨places, leftmost, binds⟩, injects⟩ :
      Bound (source.map lineKey) 0 0 (mutated.map lineKey) _ :=
    bound_bindLines (source.map lineKey) rfl (sublist.trans List.filter_sublist)
  refine ⟨⟨places, leftmost, binds.imp fun _ _ binds => ?_⟩, ?_⟩
  · exact binds.compact (fills_bindLines _ _ _ _)
  · intro line text here content unknown
    have member : (lineKey text, line) ∈ (mutated.map lineKey).zipIdx := by
      rw [List.mem_zipIdx_iff_getElem?, List.getElem?_map, here]
      rfl
    have some_key : lineKey text ≠ [] := mt lineKey_eq_nil_iff.1 (by simp [content])
    exact (injects _ member some_key unknown).compact (fills_bindLines _ _ _ _)

/-- A line that comes twice, with a line dropped between, one injected, and blank lines on either side. -/
theorem align_sequential_leftmost_repeated :
    let source : List Text := [['a'], [], ['b'], ['a'], [' '], ['c', '\r']]
    let mutated : List Text := [[], ['a'], ['X'], ['a'], [], [], ['c']]
    let returned := returning (source.map lineKey) 0 (mutated.map lineKey)
    let script := (RestoreMap.align .sequential source mutated).script
    returned = [(['a'], 1), (['a'], 3), (['c'], 6)] ∧
      (returned.map (·.1)).Sublist ((source.map lineKey).filter (· ≠ [])) ∧
      (∃ places, Leftmost (source.map lineKey) 0 (returned.map (·.1)) places ∧
        List.Forall₂ (fun entry place => script.Binds entry.2 place) returned places) ∧
      script.Injected 2 := by
  intro source mutated returned script
  have sublist : (returned.map (·.1)).Sublist ((source.map lineKey).filter (· ≠ [])) := by
    decide +kernel
  obtain ⟨bound, injected⟩ := align_sequential_leftmost .shortest sublist
  exact ⟨by decide +kernel, sublist, bound, injected 2 ['X'] rfl rfl (by decide +kernel)⟩

end Tracemark.Alignment
