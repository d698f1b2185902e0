import Mathlib.Data.List.Induction
import Mathlib.Data.List.Nodup
import Mathlib.Data.List.TakeWhile
import Tracemark.Registry

/-! The order of a registry.

A registry is told by the calls that made it. A registration lives until a later call names its part
again. The entries of a registry are its living registrations, brought into order by a stable sort: a
part that is registered goes behind all parts of its priority, and taking a part out moves no other.
-/

set_option autoImplicit false

namespace Tracemark.Registry

variable {α : Type}

inductive Call (α : Type) where
  | register (name : String) (priority : Int) (item : α)
  | deregister (name : String)
  deriving DecidableEq, Repr

namespace Call

def name : Call α → String
  | register name _ _ => name
  | deregister name => name

def registration? : Call α → Option (Entry α)
  | register name priority item => some ⟨name, priority, item⟩
  | deregister _ => none

def apply (registry : Registry α) : Call α → Registry α
  | register name priority item => registry.register name priority item
  | deregister name => (registry.deregister name).2

end Call

def applyAll (calls : List (Call α)) : Registry α := calls.foldl Call.apply empty

/-- The registrations whose part no later call names, in the order of the calls. -/
def living : List (Call α) → List (Entry α)
  | [] => []
  | call :: later =>
    if later.any (·.name = call.name) then living later
    else call.registration?.toList ++ living later

def lastCall? (calls : List (Call α)) (name : String) : Option (Call α) :=
  calls.reverse.find? (·.name = name)

def precedes (first second : Entry α) : Bool := second.priority ≤ first.priority

variable {entry : Entry α} {entries first second : List (Entry α)} {call : Call α} {name : String}

/-! Lists in order of priority. -/

theorem precedes_iff {first second : Entry α} :
    precedes first second = true ↔ second.priority ≤ first.priority := by
  simp [precedes]

theorem precedes_trans (first second third : Entry α) (before : precedes first second = true)
    (after : precedes second third = true) : precedes first third = true := by
  rw [precedes_iff] at before after ⊢
  exact Int.le_trans after before

theorem precedes_total (first second : Entry α) :
    (precedes first second || precedes second first) = true := by
  simp only [precedes, Bool.or_eq_true, decide_eq_true_eq]
  exact Int.le_total _ _

def Sorted (entries : List (Entry α)) : Prop := entries.Pairwise (precedes · ·)

def ofPriority (priority : Int) (entries : List (Entry α)) : List (Entry α) :=
  entries.filter (·.priority = priority)

theorem ofPriority_append (priority : Int) (first second : List (Entry α)) :
    ofPriority priority (first ++ second) = ofPriority priority first ++ ofPriority priority second :=
  List.filter_append ..

theorem head_le_of_ofPriority_eq {head head' : Entry α} (sorted : Sorted (head :: first))
    (same : ofPriority head'.priority (head :: first) = ofPriority head'.priority (head' :: second)) :
    head'.priority ≤ head.priority := by
  have member : head' ∈ head :: first := by
    have inside : head' ∈ ofPriority head'.priority (head :: first) := by
      rw [same]
      simp [ofPriority]
    exact List.mem_of_mem_filter inside
  rcases List.mem_cons.1 member with rfl | later
  · exact Int.le_refl _
  · exact precedes_iff.1 (List.rel_of_pairwise_cons sorted later)

/-- A list in order of priority is told by the entries of each priority. -/
theorem eq_of_ofPriority_eq (sorted : Sorted first) (sorted' : Sorted second)
    (same : ∀ priority, ofPriority priority first = ofPriority priority second) : first = second := by
  induction first generalizing second with
  | nil =>
    cases second with
    | nil => rfl
    | cons head rest => simpa [ofPriority] using same head.priority
  | cons head rest ih =>
    cases second with
    | nil => simpa [ofPriority] using same head.priority
    | cons head' rest' =>
      have level : head.priority = head'.priority :=
        Int.le_antisymm (head_le_of_ofPriority_eq sorted' (same head.priority).symm)
          (head_le_of_ofPriority_eq sorted (same head'.priority))
      have heads : head = head' := by
        have leading := same head.priority
        simp only [ofPriority, List.filter_cons, level, decide_true, if_true] at leading
        exact (List.cons.inj leading).1
      subst heads
      congr 1
      apply ih sorted.of_cons sorted'.of_cons
      intro priority
      have whole := same priority
      simp only [ofPriority, List.filter_cons] at whole ⊢
      split at whole
      · exact (List.cons.inj whole).2
      · exact whole

theorem ofPriority_mergeSort (priority : Int) (entries : List (Entry α)) :
    ofPriority priority (entries.mergeSort precedes) = ofPriority priority entries := by
  have level : (ofPriority priority entries).Pairwise (precedes · ·) := by
    apply List.pairwise_of_forall_mem_list
    intro first member second member'
    have same := List.of_mem_filter member
    have same' := List.of_mem_filter member'
    simp only [decide_eq_true_eq] at same same'
    exact precedes_iff.2 (Int.le_of_eq (same'.trans same.symm))
  have kept : (ofPriority priority entries).Sublist (entries.mergeSort precedes) :=
    List.sublist_mergeSort precedes_trans precedes_total level List.filter_sublist
  have inside := kept.filter (·.priority = priority)
  rw [ofPriority, List.filter_filter] at inside
  simp only [Bool.and_self] at inside
  have count := ((List.mergeSort_perm entries precedes).filter (·.priority = priority)).length_eq
  exact (inside.eq_of_length count.symm).symm

/-- What is in order of priority and has kept the order within each priority is the stable sort. -/
theorem eq_mergeSort (sorted : Sorted first)
    (same : ∀ priority, ofPriority priority first = ofPriority priority second) :
    first = second.mergeSort precedes := by
  apply eq_of_ofPriority_eq sorted (List.pairwise_mergeSort precedes_trans precedes_total _)
  intro priority
  rw [ofPriority_mergeSort, same]

theorem sorted_mergeSort (entries : List (Entry α)) : Sorted (entries.mergeSort precedes) :=
  List.pairwise_mergeSort precedes_trans precedes_total entries

/-! Placing an entry. -/

theorem lt_of_mem_dropWhile (sorted : Sorted entries) {priority : Int}
    (member : entry ∈ entries.dropWhile (priority ≤ ·.priority)) : entry.priority < priority := by
  induction entries with
  | nil => cases member
  | cons head rest ih =>
    rw [List.dropWhile_cons] at member
    split at member
    · exact ih sorted.of_cons member
    · next low =>
      have below : head.priority < priority := by simpa using low
      rcases List.mem_cons.1 member with rfl | later
      · exact below
      · have ordered := precedes_iff.1 (List.rel_of_pairwise_cons sorted later)
        omega

theorem sorted_place (sorted : Sorted entries) : Sorted (place entry entries) := by
  have parts : Sorted (entries.takeWhile (entry.priority ≤ ·.priority) ++
      entries.dropWhile (entry.priority ≤ ·.priority)) := by
    rwa [List.takeWhile_append_dropWhile]
  obtain ⟨front, back, across⟩ := List.pairwise_append.1 parts
  refine List.pairwise_append.2 ⟨front, List.pairwise_cons.2 ⟨?_, back⟩, ?_⟩
  · intro other member
    rw [precedes_iff]
    exact Int.le_of_lt (lt_of_mem_dropWhile sorted member)
  · intro other member later member'
    rcases List.mem_cons.1 member' with rfl | member'
    · simpa [precedes] using List.mem_takeWhile_imp member
    · exact across other member later member'

/-- A placed entry is the last one of its priority, and nothing else changes. -/
theorem ofPriority_place (sorted : Sorted entries) (priority : Int) :
    ofPriority priority (place entry entries) = ofPriority priority (entries ++ [entry]) := by
  have parts := List.takeWhile_append_dropWhile
    (p := fun other : Entry α => decide (entry.priority ≤ other.priority)) (l := entries)
  by_cases level : entry.priority = priority
  · have nothing : ofPriority priority (entries.dropWhile (entry.priority ≤ ·.priority)) = [] := by
      rw [ofPriority, List.filter_eq_nil_iff]
      intro other member
      have lower := lt_of_mem_dropWhile sorted member
      simp only [decide_eq_true_eq]
      omega
    have whole : ofPriority priority (entries.takeWhile (entry.priority ≤ ·.priority)) =
        ofPriority priority entries := by
      conv_rhs => rw [← parts, ofPriority_append, nothing, List.append_nil]
    have split : place entry entries = entries.takeWhile (entry.priority ≤ ·.priority) ++ [entry] ++
        entries.dropWhile (entry.priority ≤ ·.priority) := by
      simp [place]
    rw [split, ofPriority_append, ofPriority_append, nothing, whole, List.append_nil,
      ofPriority_append]
  · have absent (others : List (Entry α)) : ofPriority priority (entry :: others) =
        ofPriority priority others := List.filter_cons_of_neg (by simpa using level)
    rw [place, ofPriority_append, absent, ← ofPriority_append, parts, ofPriority_append, absent]
    simp [ofPriority]

theorem place_mergeSort (entry : Entry α) (entries : List (Entry α)) :
    place entry (entries.mergeSort precedes) = (entries ++ [entry]).mergeSort precedes := by
  have sorted := sorted_mergeSort entries
  apply eq_mergeSort (sorted_place sorted)
  intro priority
  rw [ofPriority_place sorted, ofPriority_append, ofPriority_mergeSort, ← ofPriority_append]

theorem filter_mergeSort (chosen : Entry α → Bool) (entries : List (Entry α)) :
    (entries.mergeSort precedes).filter chosen = (entries.filter chosen).mergeSort precedes := by
  apply eq_mergeSort ((sorted_mergeSort entries).filter chosen)
  intro priority
  rw [ofPriority, List.filter_comm, ofPriority, List.filter_comm _ chosen entries]
  exact congrArg (List.filter chosen) (ofPriority_mergeSort priority entries)

/-! Names. -/

def entryNames (entries : List (Entry α)) : List String := entries.map (·.name)

theorem eraseP_eq_filter (apart : (entryNames entries).Nodup) :
    entries.eraseP (·.name = name) = entries.filter (·.name ≠ name) := by
  induction entries with
  | nil => rfl
  | cons head rest ih =>
    obtain ⟨outside, later⟩ := List.nodup_cons.1 apart
    by_cases named : head.name = name
    · have others : ∀ other ∈ rest, other.name ≠ name := fun other member same =>
        outside (List.mem_map.2 ⟨other, member, same.trans named.symm⟩)
      rw [List.eraseP_cons_of_pos (by simpa using named), List.filter_cons_of_neg (by simpa using named),
        List.filter_eq_self.2 (by simpa using others)]
    · rw [List.eraseP_cons_of_neg (by simpa using named), List.filter_cons_of_pos (by simpa using named),
        ih later]

theorem find?_eq_some_iff_mem (apart : (entryNames entries).Nodup) :
    entries.find? (·.name = name) = some entry ↔ entry ∈ entries ∧ entry.name = name := by
  induction entries with
  | nil => simp
  | cons head rest ih =>
    obtain ⟨outside, later⟩ := List.nodup_cons.1 apart
    by_cases named : head.name = name
    · rw [List.find?_cons_of_pos (by simpa using named), Option.some.injEq, List.mem_cons]
      constructor
      · rintro rfl
        exact ⟨.inl rfl, named⟩
      · rintro ⟨rfl | member, same⟩
        · rfl
        · exact absurd (List.mem_map.2 ⟨entry, member, same.trans named.symm⟩) outside
    · rw [List.find?_cons_of_neg (by simpa using named), ih later, List.mem_cons]
      constructor
      · exact fun found => ⟨.inr found.1, found.2⟩
      · rintro ⟨rfl | member, same⟩
        · exact absurd same named
        · exact ⟨member, same⟩

theorem find?_perm (perm : first.Perm second) (apart : (entryNames first).Nodup) :
    first.find? (·.name = name) = second.find? (·.name = name) := by
  have apart' : (entryNames second).Nodup := (perm.map _).nodup_iff.1 apart
  apply Option.ext
  intro entry
  rw [find?_eq_some_iff_mem apart, find?_eq_some_iff_mem apart', perm.mem_iff]

/-! Living registrations. -/

theorem name_of_registration? (found : call.registration? = some entry) : entry.name = call.name := by
  cases call with
  | register name priority item =>
    cases found
    rfl
  | deregister name => cases found

/-- One more call ends the life of what it names, and puts its own registration at the end. -/
theorem living_concat (calls : List (Call α)) (call : Call α) : living (calls ++ [call]) =
    (living calls).filter (·.name ≠ call.name) ++ call.registration?.toList := by
  induction calls with
  | nil => simp [living]
  | cons first later ih =>
    have own : ∀ entry ∈ first.registration?.toList, entry.name = first.name :=
      fun entry member => name_of_registration? (Option.mem_toList.1 member)
    rw [List.cons_append, living, living, ih, List.any_append]
    by_cases again : later.any (·.name = first.name) = true
    · rw [again, Bool.true_or, if_pos rfl, if_pos rfl]
    · rw [Bool.not_eq_true] at again
      rw [again, Bool.false_or, if_neg Bool.false_ne_true, List.filter_append]
      by_cases same : call.name = first.name
      · have gone : first.registration?.toList.filter (·.name ≠ call.name) = [] := by
          rw [List.filter_eq_nil_iff]
          intro entry member
          simp [own entry member, same]
        rw [gone, List.nil_append]
        simp [same]
      · have kept : first.registration?.toList.filter (·.name ≠ call.name) =
            first.registration?.toList := by
          rw [List.filter_eq_self]
          intro entry member
          simpa [own entry member] using Ne.symm same
        rw [kept]
        simp [same]

theorem nodup_living (calls : List (Call α)) : (entryNames (living calls)).Nodup := by
  induction calls using List.reverseRecOn with
  | nil => exact List.nodup_nil
  | append_singleton calls call ih =>
    rw [living_concat, entryNames, List.map_append]
    apply List.Nodup.append (ih.sublist (List.filter_sublist.map _))
    · cases call.registration? <;> simp
    · intro name member member'
      obtain ⟨entry, inside, rfl⟩ := List.mem_map.1 member
      obtain ⟨other, inside', same⟩ := List.mem_map.1 member'
      have own := name_of_registration? (Option.mem_toList.1 inside')
      have apart := List.of_mem_filter inside
      rw [← same, own] at apart
      simp at apart

theorem find?_filter_ne {other : String} (different : other ≠ name) :
    (entries.filter (·.name ≠ other)).find? (·.name = name) = entries.find? (·.name = name) := by
  rw [List.find?_filter]
  congr 1
  funext entry
  by_cases named : entry.name = name
  · simp [named, Ne.symm different]
  · simp [named]

theorem find?_filter_self : (entries.filter (·.name ≠ name)).find? (·.name = name) = none := by
  rw [List.find?_eq_none]
  intro entry member
  simpa using List.of_mem_filter member

theorem find?_living (calls : List (Call α)) (name : String) :
    (living calls).find? (·.name = name) = (lastCall? calls name).bind Call.registration? := by
  induction calls using List.reverseRecOn with
  | nil => rfl
  | append_singleton calls call ih =>
    have own : call.registration?.toList.find? (·.name = name) =
        if call.name = name then call.registration? else none := by
      cases entered : call.registration? with
      | none => simp
      | some entry => simp [List.find?_singleton, name_of_registration? entered]
    rw [living_concat, lastCall?, List.reverse_concat, List.find?_append, own]
    by_cases same : call.name = name
    · subst same
      rw [find?_filter_self, List.find?_cons_of_pos (by simp), if_pos rfl]
      rfl
    · rw [find?_filter_ne same, List.find?_cons_of_neg (by simpa using same), if_neg same,
        Option.or_none]
      exact ih

/-! Registries. -/

theorem applyAll_concat (calls : List (Call α)) (call : Call α) :
    applyAll (calls ++ [call]) = call.apply (applyAll calls) :=
  List.foldl_concat ..

theorem nodup_mergeSort_living (calls : List (Call α)) :
    (entryNames ((living calls).mergeSort precedes)).Nodup :=
  ((List.mergeSort_perm _ _).map _).nodup_iff.2 (nodup_living calls)

theorem entries_applyAll (calls : List (Call α)) :
    (applyAll calls).entries = (living calls).mergeSort precedes := by
  induction calls using List.reverseRecOn with
  | nil => simp [applyAll, living, empty]
  | append_singleton calls call ih =>
    rw [applyAll_concat, living_concat]
    cases call with
    | register name priority item =>
      change place ⟨name, priority, item⟩ ((applyAll calls).entries.filter (·.name ≠ name)) = _
      rw [ih, filter_mergeSort, place_mergeSort]
      rfl
    | deregister name =>
      change (applyAll calls).entries.eraseP (·.name = name) = _
      rw [ih, eraseP_eq_filter (nodup_mergeSort_living calls), filter_mergeSort]
      exact congrArg (List.mergeSort · precedes) (List.append_nil _).symm

theorem find?_applyAll (calls : List (Call α)) (name : String) :
    (applyAll calls).entries.find? (·.name = name) =
      (lastCall? calls name).bind Call.registration? := by
  rw [entries_applyAll, find?_perm (List.mergeSort_perm _ _) (nodup_mergeSort_living calls),
    find?_living]

theorem deregister_of_absent {registry : Registry α}
    (absent : registry.entries.find? (·.name = name) = none) :
    registry.deregister name = (none, registry) := by
  rw [deregister, absent, List.eraseP_of_forall_not (List.find?_eq_none.1 absent)]
  rfl

/-- A registry answers as the living registrations of some calls do. -/
structure Answers (calls : List (Call α)) (registry : Registry α) : Prop where
  entries : registry.entries = (living calls).mergeSort precedes
  items : registry.items = ((living calls).mergeSort precedes).map (·.item)
  names : registry.names = ((living calls).mergeSort precedes).map (·.name)
  apart : registry.names.Nodup
  contains : ∀ name, registry.contains name = true ↔ name ∈ (living calls).map (·.name)
  size : registry.size = (living calls).length
  /-- A part is taken out when the last call that names it has registered it. -/
  deregister : ∀ name,
    match lastCall? calls name with
    | some (.register _ _ item) => (registry.deregister name).1 = some item
    | _ => registry.deregister name = (none, registry)

/-- After any calls a registry has its living registrations in the stable order of falling priority,
each under a name of its own, and finds and gives back each part as it was registered last. -/
theorem applyAll_answers (calls : List (Call α)) : Answers calls (applyAll calls) where
  entries := entries_applyAll calls
  items := by rw [items, entries_applyAll]
  names := by rw [names, entries_applyAll]
  apart := by
    rw [names, entries_applyAll]
    exact nodup_mergeSort_living calls
  contains name := by
    rw [← mem_names_iff, names, entries_applyAll]
    exact ((List.mergeSort_perm _ _).map _).mem_iff
  size := by rw [size, entries_applyAll, List.length_mergeSort]
  deregister name := by
    have found := find?_applyAll calls name
    cases last : lastCall? calls name with
    | none =>
      rw [last] at found
      exact deregister_of_absent found
    | some call =>
      rw [last] at found
      cases call with
      | register _ _ item =>
        change ((applyAll calls).deregister name).1 = some item
        rw [deregister, found]
        rfl
      | deregister _ => exact deregister_of_absent found

-- A part that is registered again counts as the last one of its priority.
example : (applyAll [.register "a" 10 1, .register "b" 20 2, .register "c" 20 3, .register "b" 20 4,
    .deregister "a", .deregister "d"]).items = [3, 4] := by
  decide

end Tracemark.Registry
