import Mathlib.Data.List.Chain
import Tracemark.Alignment.RestoreMap
import Tracemark.Proofs.Alignment.Script

/-! The scan forward.

Its single operations fill both sides, pair equal keys, and replace nothing. Operations of one kind
that meet are joined. They are contiguous because the script fills both sides, so what was joined
still pairs line with line, and no two operations of one kind are left beside each other.
-/

set_option autoImplicit false

namespace Tracemark.Alignment

namespace EditScript

variable {script : EditScript} {op next : EditOp} {source mutated : Interval}

theorem fits_extendTo (forward : op.Forward) (forward' : next.Forward)
    (meets : next.source.start = op.source.stop) (meets' : next.mutated.start = op.mutated.stop)
    (fit : op.fits = true) (fit' : next.fits = true) (same : next.kind = op.kind) :
    (op.extendTo next).Forward ∧ (op.extendTo next).fits = true := by
  obtain ⟨kind, ⟨start, stop⟩, ⟨line, line'⟩⟩ := op
  obtain ⟨kind', ⟨start', stop'⟩, ⟨from', to'⟩⟩ := next
  simp only at same meets meets'
  subst same meets meets'
  rw [EditOp.fits_iff forward] at fit
  rw [EditOp.fits_iff forward'] at fit'
  obtain ⟨source, mutated⟩ := forward
  obtain ⟨source', mutated'⟩ := forward'
  have whole : (EditOp.extendTo ⟨kind', ⟨start, start'⟩, ⟨line, from'⟩⟩
      ⟨kind', ⟨start', stop'⟩, ⟨from', to'⟩⟩).Forward :=
    ⟨Nat.le_trans source source', Nat.le_trans mutated mutated'⟩
  refine ⟨whole, (EditOp.fits_iff whole).2 ?_⟩
  cases kind' with
  | equal | replace | delete | insert =>
    simp only [EditOp.extendTo] at fit fit' source source' mutated mutated' ⊢
    omega

def join (op : EditOp) (rest : EditScript) : EditScript :=
  match rest with
  | next :: later => if next.kind = op.kind then op.extendTo next :: later else op :: rest
  | [] => [op]

def bare (op : EditOp) : Bool := op.source.isEmpty && op.mutated.isEmpty

theorem compact_eq (script : EditScript) :
    script.compact = (script.filter (!bare ·)).foldr join [] :=
  rfl

theorem bare_iff : bare op = true ↔
    op.source.stop ≤ op.source.start ∧ op.mutated.stop ≤ op.mutated.start := by
  simp [bare, Interval.isEmpty]

theorem bare_eq_false_iff : bare op = false ↔
    op.source.start < op.source.stop ∨ op.mutated.start < op.mutated.stop := by
  rw [← Bool.not_eq_true, bare_iff]
  omega

theorem fills_join (fills : Fills (op :: script) source mutated) :
    Fills (join op script) source mutated := by
  unfold join
  split
  · next next later =>
    split
    · next alike =>
      obtain ⟨start, start', forward, fit, fills⟩ := fills_cons_iff.1 fills
      obtain ⟨meets, meets', forward', fit', fills⟩ := fills_cons_iff.1 fills
      obtain ⟨forward'', fit''⟩ := fits_extendTo forward forward' meets meets' fit fit' alike
      exact fills_cons_iff.2 ⟨start, start', forward'', fit'', fills⟩
    · exact fills
  · exact fills

theorem fills_foldr_join (fills : Fills script source mutated) :
    Fills (script.foldr join []) source mutated := by
  induction script generalizing source mutated with
  | nil => exact fills
  | cons op rest ih =>
    obtain ⟨start, start', forward, fit, fills⟩ := fills_cons_iff.1 fills
    exact fills_join (fills_cons_iff.2 ⟨start, start', forward, fit, ih fills⟩)

theorem fills_compact (fills : Fills (script.filter (!bare ·)) source mutated) :
    Fills (compact script) source mutated := by
  rw [compact_eq]
  exact fills_foldr_join fills

theorem kind_of_mem_join (member : next ∈ join op script) : next.kind = op.kind ∨ next ∈ script := by
  unfold join at member
  split at member
  · split at member
    · rcases List.mem_cons.1 member with rfl | member
      · exact .inl rfl
      · exact .inr (List.mem_cons_of_mem _ member)
    · rcases List.mem_cons.1 member with rfl | member
      · exact .inl rfl
      · exact .inr member
  · exact .inl (congrArg EditOp.kind (List.mem_singleton.1 member))

theorem kind_of_mem_foldr_join (member : op ∈ script.foldr join []) :
    ∃ other ∈ script, other.kind = op.kind := by
  induction script generalizing op with
  | nil => cases member
  | cons first rest ih =>
    rcases kind_of_mem_join member with same | later
    · exact ⟨first, List.mem_cons_self, same.symm⟩
    · obtain ⟨other, listed, same⟩ := ih later
      exact ⟨other, List.mem_cons_of_mem _ listed, same⟩

def Parted (script : EditScript) : Prop := script.IsChain fun op next => op.kind ≠ next.kind

theorem parted_join (parted : Parted script) : Parted (join op script) := by
  unfold join
  split
  · next next later =>
    split
    · next alike =>
      -- The joined operation stands where one of its kind stood.
      cases later with
      | nil => exact .singleton _
      | cons behind others =>
        obtain ⟨apart, rest⟩ := List.isChain_cons_cons.1 parted
        exact List.isChain_cons_cons.2 ⟨alike ▸ apart, rest⟩
    · next unlike => exact List.isChain_cons_cons.2 ⟨Ne.symm unlike, parted⟩
  · exact .singleton _

theorem parted_foldr_join (script : EditScript) : Parted (script.foldr join []) := by
  induction script with
  | nil => exact .nil
  | cons op rest ih => exact parted_join ih

/-! What is joined to one operation. -/

theorem join_join {rest : EditScript} (same : next.kind = op.kind) :
    join op (join next rest) = join (op.extendTo next) rest := by
  cases rest with
  | nil => simp [join, same]
  | cons later others =>
    by_cases alike : later.kind = next.kind
    · simp [join, alike, same, EditOp.extendTo]
    · rw [same] at alike
      simp [join, alike, same, EditOp.extendTo]

theorem compact_cons_of_bare (none : bare op = true) :
    compact (op :: script) = compact script := by
  rw [compact_eq, compact_eq, List.filter_cons_of_neg (by simp [none])]

theorem compact_cons_of_not_bare (some : bare op = false) :
    compact (op :: script) = join op (compact script) := by
  rw [compact_eq, compact_eq, List.filter_cons_of_pos (by simp [some])]
  rfl

theorem compact_cons_congr {other : EditScript} (op : EditOp)
    (same : compact script = compact other) : compact (op :: script) = compact (op :: other) := by
  cases filled : bare op with
  | false => rw [compact_cons_of_not_bare filled, compact_cons_of_not_bare filled, same]
  | true => rw [compact_cons_of_bare filled, compact_cons_of_bare filled, same]

theorem compact_cons_cons (same : next.kind = op.kind)
    (forward : next.Forward) (meets : next.source.start = op.source.stop)
    (meets' : next.mutated.start = op.mutated.stop) (some : bare op = false) :
    compact (op :: next :: script) = compact (op.extendTo next :: script) := by
  obtain ⟨source, mutated⟩ := forward
  have whole : bare (op.extendTo next) = false := by
    rw [bare_eq_false_iff] at some ⊢
    simp only [EditOp.extendTo]
    omega
  rw [compact_cons_of_not_bare some, compact_cons_of_not_bare whole]
  cases filled : bare next with
  | false => rw [compact_cons_of_not_bare filled, join_join same]
  | true =>
    have extended : op.extendTo next = op := by
      rw [bare_iff] at filled
      have stop : next.source.stop = op.source.stop := by omega
      have stop' : next.mutated.stop = op.mutated.stop := by omega
      simp [EditOp.extendTo, stop, stop']
    rw [compact_cons_of_bare filled, extended]

/-- A script without bare operations in which no two of one kind meet is compact. -/
theorem compact_of_parted (parted : Parted (script.filter (!bare ·))) :
    script.compact = script.filter (!bare ·) := by
  rw [compact_eq]
  generalize script.filter (!bare ·) = kept at parted
  induction kept with
  | nil => rfl
  | cons op rest ih =>
    rw [List.foldr_cons, ih parted.tail]
    cases rest with
    | nil => rfl
    | cons next later => exact if_neg (Ne.symm (List.isChain_cons_cons.1 parted).1)

section

variable {α : Type} {first second : List α}

theorem pairsEqual_cons_iff : PairsEqual (op :: script) first second ↔
    (op.kind = .equal → ∀ offset < op.source.length,
      first[op.source.start + offset]? = second[op.mutated.start + offset]?) ∧
      PairsEqual script first second :=
  List.forall_mem_cons

theorem pairs_extendTo (forward : op.Forward) (forward' : next.Forward)
    (meets : next.source.start = op.source.stop) (meets' : next.mutated.start = op.mutated.stop)
    (fit : op.fits = true) (equal : op.kind = .equal)
    (pairs : ∀ offset < op.source.length,
      first[op.source.start + offset]? = second[op.mutated.start + offset]?)
    (pairs' : ∀ offset < next.source.length,
      first[next.source.start + offset]? = second[next.mutated.start + offset]?) :
    ∀ offset < (op.extendTo next).source.length,
      first[op.source.start + offset]? = second[op.mutated.start + offset]? := by
  intro offset inside
  rw [EditOp.fits_iff forward, equal] at fit
  simp only [EditOp.extendTo, Interval.length] at inside pairs pairs' fit
  obtain ⟨source, mutated⟩ := forward
  have source' := forward'.source
  rcases Nat.lt_or_ge offset (op.source.stop - op.source.start) with here | beyond
  · exact pairs offset here
  · have there := pairs' (offset - (op.source.stop - op.source.start)) (by omega)
    have place : next.source.start + (offset - (op.source.stop - op.source.start)) =
        op.source.start + offset := by omega
    have place' : next.mutated.start + (offset - (op.source.stop - op.source.start)) =
        op.mutated.start + offset := by omega
    rwa [place, place'] at there

theorem pairsEqual_join (fills : Fills (op :: script) source mutated)
    (pairs : PairsEqual (op :: script) first second) :
    PairsEqual (join op script) first second := by
  unfold join
  split
  · next next later =>
    split
    · next alike =>
      obtain ⟨-, -, forward, fit, fills⟩ := fills_cons_iff.1 fills
      obtain ⟨meets, meets', forward', -, -⟩ := fills_cons_iff.1 fills
      obtain ⟨pairs, later⟩ := pairsEqual_cons_iff.1 pairs
      obtain ⟨pairs', later⟩ := pairsEqual_cons_iff.1 later
      refine pairsEqual_cons_iff.2 ⟨fun equal => ?_, later⟩
      exact pairs_extendTo forward forward' meets meets' fit equal (pairs equal)
        (pairs' (alike.trans equal))
    · exact pairs
  · exact pairs

theorem pairsEqual_foldr_join (fills : Fills script source mutated)
    (pairs : PairsEqual script first second) :
    PairsEqual (script.foldr join []) first second := by
  induction script generalizing source mutated with
  | nil => exact pairs
  | cons op rest ih =>
    obtain ⟨start, start', forward, fit, fills⟩ := fills_cons_iff.1 fills
    obtain ⟨here, later⟩ := pairsEqual_cons_iff.1 pairs
    exact pairsEqual_join (fills_cons_iff.2 ⟨start, start', forward, fit, fills_foldr_join fills⟩)
      (pairsEqual_cons_iff.2 ⟨here, ih fills later⟩)

end

end EditScript

open EditScript

theorem lt_length_of_skipped? {key : Text} {remaining : List Text} {skipped : Nat}
    (found : skipped? key remaining = some skipped) : skipped < remaining.length := by
  unfold skipped? at found
  split at found
  · split at found
    · next head =>
      cases found
      cases remaining with
      | nil => cases head
      | cons line rest => exact Nat.succ_pos _
    · cases found
  · obtain ⟨within, -⟩ := List.findIdx?_eq_some_iff_getElem.1 found
    exact within

theorem getElem?_of_skipped? {key : Text} {remaining : List Text} {skipped : Nat}
    (found : skipped? key remaining = some skipped) : remaining[skipped]? = some key := by
  unfold skipped? at found
  split at found
  · next blank =>
    split at found
    · next head =>
      cases found
      rw [blank, ← head, List.head?_eq_getElem?]
    · cases found
  · obtain ⟨within, same, -⟩ := List.findIdx?_eq_some_iff_getElem.1 found
    rw [List.getElem?_eq_getElem within, of_decide_eq_true same]

theorem skipped?_head (key : Text) (rest : List Text) : skipped? key (key :: rest) = some 0 := by
  unfold skipped?
  split
  · next empty => simp [empty]
  · simp [List.findIdx?_cons]

theorem compact_bindLines_kept (keys : List Text) (cursor line : Nat) (remaining rest : List Text) :
    (bindLines cursor line (keys ++ remaining) (keys ++ rest)).compact =
      compact (⟨.equal, ⟨cursor, cursor + keys.length⟩, ⟨line, line + keys.length⟩⟩ ::
        bindLines (cursor + keys.length) (line + keys.length) remaining rest) := by
  induction keys generalizing cursor line with
  | nil => rw [compact_cons_of_bare (by simp [bare, Interval.isEmpty])]; rfl
  | cons key keys ih =>
    have some : bare ⟨.equal, ⟨cursor, cursor + 1⟩, ⟨line, line + 1⟩⟩ = false :=
      bare_eq_false_iff.2 (.inr (Nat.lt_succ_self line))
    rw [List.cons_append, List.cons_append, bindLines, skipped?_head]
    simp only [Nat.add_zero, Nat.zero_add, List.drop_succ_cons, List.drop_zero]
    rw [compact_cons_of_bare (by simp [bare, Interval.isEmpty]), compact_cons_of_not_bare some, ih,
      ← compact_cons_of_not_bare some, compact_cons_cons (by rfl) ⟨by simp, by simp⟩ (by rfl) (by rfl) some]
    simp only [EditOp.extendTo, List.length_cons, Nat.add_assoc, Nat.add_comm 1]

theorem compact_bindLines_self (keys : List Text) (cursor line : Nat) :
    (bindLines cursor line keys keys).compact =
      compact [⟨.equal, ⟨cursor, cursor + keys.length⟩, ⟨line, line + keys.length⟩⟩] := by
  have same := compact_bindLines_kept keys cursor line [] []
  rw [List.append_nil] at same
  exact same.trans (compact_cons_congr _ (compact_cons_of_bare (by simp [bare, Interval.isEmpty])))

theorem kind_of_mem_bindLines {cursor line : Nat} {remaining mutated : List Text} {op : EditOp}
    (member : op ∈ bindLines cursor line remaining mutated) : op.kind ≠ .replace := by
  fun_induction bindLines cursor line remaining mutated with
  | case1 =>
    rw [List.mem_singleton.1 member]
    exact nofun
  | case2 _ _ _ _ _ _ _ _ ih =>
    rcases List.mem_cons.1 member with rfl | member
    · exact nofun
    · rcases List.mem_cons.1 member with rfl | member
      · exact nofun
      · exact ih member
  | case3 _ _ _ _ _ _ ih =>
    rcases List.mem_cons.1 member with rfl | member
    · exact nofun
    · exact ih member

theorem pairsEqual_bindLines (source mutated : List Text) {cursor line : Nat}
    {remaining rest : List Text} (left : remaining = source.drop cursor)
    (left' : rest = mutated.drop line) :
    PairsEqual (bindLines cursor line remaining rest) source mutated := by
  fun_induction bindLines cursor line remaining rest with
  | case1 => simp [PairsEqual]
  | case2 cursor line remaining key rest skipped found bound ih =>
    have same := getElem?_of_skipped? found
    rw [left, List.getElem?_drop] at same
    have here : mutated[line]? = some key := by
      rw [← List.head?_drop, ← left', List.head?_cons]
    refine pairsEqual_cons_iff.2 ⟨by simp, ?_⟩
    refine pairsEqual_cons_iff.2 ⟨fun _ offset single => ?_, ih ?_ ?_⟩
    · have first : offset = 0 := by
        simp only [Interval.length] at single
        omega
      rw [first]
      exact same.trans here.symm
    · rw [left, List.drop_drop, Nat.add_assoc]
    · rw [← List.tail_drop, ← left', List.tail_cons]
  | case3 cursor line remaining key rest _ ih =>
    refine pairsEqual_cons_iff.2 ⟨by simp, ih left ?_⟩
    rw [← List.tail_drop, ← left', List.tail_cons]

theorem fills_bindLines (cursor line : Nat) (remaining mutated : List Text) :
    Fills ((bindLines cursor line remaining mutated).filter (!bare ·))
      ⟨cursor, cursor + remaining.length⟩ ⟨line, line + mutated.length⟩ := by
  -- The source lines that a scan skips make an operation only when there are any.
  have skip {from' to' line : Nat} {rest : EditScript} {source mutated : Nat} (le : from' ≤ to')
      (fills : Fills (rest.filter (!bare ·)) ⟨to', source⟩ ⟨line, mutated⟩) :
      Fills ((⟨.insert, ⟨from', to'⟩, ⟨line, line⟩⟩ :: rest).filter (!bare ·)) ⟨from', source⟩
        ⟨line, mutated⟩ := by
    rcases Nat.eq_or_lt_of_le le with rfl | lt
    · simpa [bare, Interval.isEmpty] using fills
    · have kept : (!bare ⟨.insert, ⟨from', to'⟩, ⟨line, line⟩⟩) = true := by
        simp [bare, Interval.isEmpty, lt]
      have forward : EditOp.Forward ⟨.insert, ⟨from', to'⟩, ⟨line, line⟩⟩ := ⟨le, Nat.le_refl _⟩
      rw [List.filter_cons_of_pos (by exact kept)]
      exact fills_cons_iff.2 ⟨rfl, rfl, forward, (EditOp.fits_iff forward).2 ⟨lt, rfl⟩, fills⟩
  induction mutated generalizing cursor line remaining with
  | nil =>
    exact skip (Nat.le_add_right _ _) (fills_nil_iff.2 ⟨rfl, rfl⟩)
  | cons key rest ih =>
    unfold bindLines
    split
    · next skipped found =>
      have within := lt_length_of_skipped? found
      have later := ih (cursor + skipped + 1) (line + 1) (remaining.drop (skipped + 1))
      have ends : cursor + skipped + 1 + (remaining.drop (skipped + 1)).length =
          cursor + remaining.length := by
        rw [List.length_drop]
        omega
      have ends' : line + 1 + rest.length = line + (key :: rest).length := by
        rw [List.length_cons]
        omega
      rw [ends, ends'] at later
      apply skip (Nat.le_add_right _ _)
      have forward : EditOp.Forward
          ⟨.equal, ⟨cursor + skipped, cursor + skipped + 1⟩, ⟨line, line + 1⟩⟩ :=
        ⟨Nat.le_succ _, Nat.le_succ _⟩
      rw [List.filter_cons_of_pos (by simp [bare, Interval.isEmpty])]
      refine fills_cons_iff.2 ⟨rfl, rfl, forward, (EditOp.fits_iff forward).2 ?_, later⟩
      simp only
      omega
    · have later := ih cursor (line + 1) remaining
      have ends' : line + 1 + rest.length = line + (key :: rest).length := by
        rw [List.length_cons]
        omega
      rw [ends'] at later
      have forward : EditOp.Forward ⟨.delete, ⟨cursor, cursor⟩, ⟨line, line + 1⟩⟩ :=
        ⟨Nat.le_refl _, Nat.le_succ _⟩
      rw [List.filter_cons_of_pos (by simp [bare, Interval.isEmpty])]
      exact fills_cons_iff.2
        ⟨rfl, rfl, forward, (EditOp.fits_iff forward).2 ⟨rfl, Nat.lt_succ_self _⟩, later⟩

theorem fills_sequential (source mutated : List Text) :
    Fills (sequential source mutated) ⟨0, source.length⟩ ⟨0, mutated.length⟩ := by
  have fills := fills_bindLines 0 0 source mutated
  rw [Nat.zero_add, Nat.zero_add] at fills
  exact fills_compact fills

theorem pairsEqual_sequential (source mutated : List Text) :
    PairsEqual (sequential source mutated) source mutated := by
  have pairs : PairsEqual (bindLines 0 0 source mutated) source mutated :=
    pairsEqual_bindLines source mutated rfl rfl
  exact pairsEqual_foldr_join (fills_bindLines 0 0 source mutated)
    fun op member => pairs op (List.mem_filter.1 member).1

/-- The script of a scan forward covers both documents in order and replaces nothing. Operations side
by side are of different kinds, and lines that it holds for equal are there and have the same key. -/
theorem align_sequential_partition (differ : Differ) (source mutated : List Text) :
    let script := (RestoreMap.align .sequential source mutated differ).script
    script.isPartition source.length mutated.length = true ∧
      (∀ op ∈ script, op.Forward) ∧
      (∀ op ∈ script, op.kind ≠ .replace) ∧
      (script.IsChain fun op next => op.kind ≠ next.kind) ∧
      ∀ op ∈ script, op.kind = .equal → ∀ offset < op.source.length,
        ∃ line line', source[op.source.start + offset]? = some line ∧
          mutated[op.mutated.start + offset]? = some line' ∧ lineKey line = lineKey line' := by
  intro script
  have fills : Fills script ⟨0, source.length⟩ ⟨0, mutated.length⟩ := by
    have keys := fills_sequential (source.map lineKey) (mutated.map lineKey)
    rwa [List.length_map, List.length_map] at keys
  have pairs : PairsEqual script (source.map lineKey) (mutated.map lineKey) :=
    pairsEqual_sequential _ _
  refine ⟨fills.covers, fills.forward, ?kinds, parted_foldr_join _, ?keys⟩
  case kinds =>
    intro op member
    obtain ⟨other, listed, same⟩ := kind_of_mem_foldr_join member
    rw [← same]
    exact kind_of_mem_bindLines (List.mem_filter.1 listed).1
  case keys =>
    intro op member equal offset inside
    obtain ⟨-, within, -, within'⟩ := fills.bounds member
    have fit := fills.fits member
    rw [EditOp.fits_iff (fills.forward op member), equal] at fit
    simp only [Interval.length] at inside within within' fit
    have here : op.source.start + offset < source.length := by omega
    have there : op.mutated.start + offset < mutated.length := by omega
    have same := pairs op member equal offset inside
    rw [List.getElem?_map, List.getElem?_map, List.getElem?_eq_getElem here,
      List.getElem?_eq_getElem there] at same
    exact ⟨_, _, List.getElem?_eq_getElem here, List.getElem?_eq_getElem there, Option.some.inj same⟩

end Tracemark.Alignment
