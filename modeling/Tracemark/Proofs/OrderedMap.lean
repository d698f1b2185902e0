import Tracemark.OrderedMap

/-! Maps that are written to many times.

Writing entries one after another leaves each key where it came first, with the value that came last.
Entries under keys that are hidden, or that hold their values already, change nothing that is seen.
-/

set_option autoImplicit false

namespace Tracemark.OrderedMap

variable {κ β : Type} [DecidableEq κ] {hidden : List κ} {key other : κ} {value : β}
  {entries : List (κ × β)}

theorem get?_insert (map : OrderedMap κ β) (value : β) :
    (map.insert key value).get? other = if other = key then some value else map.get? other := by
  split
  · next same => rw [same, get?_insert_self]
  · next different => exact get?_insert_of_ne map value different

theorem insert_insert (map : OrderedMap κ β) (key : κ) (first second : β) :
    (map.insert key first).insert key second = map.insert key second := by
  obtain ⟨entries⟩ := map
  induction entries with
  | nil => simp [insert, put]
  | cons entry rest ih =>
    by_cases same : entry.1 = key
    · simp [insert, put, same]
    · simpa [insert, put, same] using ih

/-! Hidden keys. -/

def without (hidden : List κ) (map : OrderedMap κ β) : OrderedMap κ β :=
  ⟨map.entries.filter (·.1 ∉ hidden)⟩

theorem without_nil (map : OrderedMap κ β) : map.without [] = map :=
  congrArg mk (List.filter_eq_self.2 (by simp))

theorem without_insert_of_mem (map : OrderedMap κ β) (value : β) (member : key ∈ hidden) :
    (map.insert key value).without hidden = map.without hidden := by
  obtain ⟨entries⟩ := map
  induction entries with
  | nil => simp [insert, put, without, member]
  | cons entry rest ih =>
    simp only [insert, put, without, decide_not, mk.injEq] at ih ⊢
    by_cases same : entry.1 = key
    · simp [same, member]
    · simp [same, List.filter_cons, ih]

theorem without_insert_of_not_mem (map : OrderedMap κ β) (value : β) (shown : key ∉ hidden) :
    (map.insert key value).without hidden = (map.without hidden).insert key value := by
  obtain ⟨entries⟩ := map
  induction entries with
  | nil => simp [insert, put, without, shown]
  | cons entry rest ih =>
    simp only [insert, without, decide_not, mk.injEq] at ih ⊢
    by_cases same : entry.1 = key
    · simp [put, same, shown]
    · by_cases covered : entry.1 ∈ hidden <;> simp [put, same, covered, ih]

/-! Entries one after another. -/

def insertAll (map : OrderedMap κ β) (entries : List (κ × β)) : OrderedMap κ β :=
  entries.foldl (fun map entry => map.insert entry.1 entry.2) map

theorem without_insertAll {entries : List (κ × β)} (map : OrderedMap κ β)
    (covered : ∀ entry ∈ entries, entry.1 ∈ hidden) :
    (map.insertAll entries).without hidden = map.without hidden := by
  induction entries generalizing map with
  | nil => rfl
  | cons entry rest ih =>
    have later := ih (map.insert entry.1 entry.2) fun other member =>
      covered other (List.mem_cons_of_mem _ member)
    exact later.trans (without_insert_of_mem map entry.2 (covered entry List.mem_cons_self))

theorem keys_insertAll [BEq κ] [LawfulBEq κ] {map : OrderedMap κ β} {done : List κ}
    (written : map.keys = done.eraseDups) (entries : List (κ × β)) :
    (map.insertAll entries).keys = (done ++ entries.map (·.1)).eraseDups := by
  induction entries generalizing map done with
  | nil => rwa [List.map_nil, List.append_nil]
  | cons entry rest ih =>
    have step : (map.insert entry.1 entry.2).keys = (done ++ [entry.1]).eraseDups := by
      rw [keys_insert, written, List.eraseDups_append]
      by_cases member : entry.1 ∈ done <;> simp [member, List.removeAll, List.eraseDups_cons]
    have run := ih step
    rwa [List.append_assoc] at run

theorem keys_insertAll_empty [BEq κ] [LawfulBEq κ] (entries : List (κ × β)) :
    (empty.insertAll entries).keys = (entries.map (·.1)).eraseDups :=
  @keys_insertAll _ _ _ _ _ empty [] rfl entries

theorem get?_insertAll (map : OrderedMap κ β) (entries : List (κ × β)) (key : κ) :
    (map.insertAll entries).get? key =
      ((entries.reverse.find? (·.1 = key)).map (·.2)).or (map.get? key) := by
  induction entries generalizing map with
  | nil => rfl
  | cons entry rest ih =>
    have step : (map.insert entry.1 entry.2).get? key =
        (([entry].find? (·.1 = key)).map (·.2)).or (map.get? key) := by
      rw [get?_insert, List.find?_singleton]
      by_cases same : entry.1 = key
      · simp [same]
      · simp [same, Ne.symm same]
    have run := ih (map.insert entry.1 entry.2)
    rwa [step, ← Option.or_assoc, ← Option.map_or, ← List.find?_append, ← List.reverse_cons] at run

theorem get?_insertAll_of_not_mem (map : OrderedMap κ β) (outside : key ∉ entries.map (·.1)) :
    (map.insertAll entries).get? key = map.get? key := by
  induction entries generalizing map with
  | nil => rfl
  | cons entry rest ih =>
    rw [List.map_cons, List.mem_cons, not_or] at outside
    exact (ih (map.insert entry.1 entry.2) outside.2).trans (get?_insert_of_ne map _ outside.1)

theorem get?_insertAll_of_mem (map : OrderedMap κ β) (distinct : (entries.map (·.1)).Nodup)
    (member : (key, value) ∈ entries) : (map.insertAll entries).get? key = some value := by
  induction entries generalizing map with
  | nil => cases member
  | cons entry rest ih =>
    rw [List.map_cons, List.nodup_cons] at distinct
    rcases List.mem_cons.1 member with rfl | member
    · exact (get?_insertAll_of_not_mem _ distinct.1).trans (get?_insert_self map _ _)
    · exact ih (map.insert entry.1 entry.2) distinct.2 member

theorem get?_insertAll_eq_iff {keys : List κ} (map : OrderedMap κ β)
    (distinct : (entries.map (·.1)).Nodup) (covered : ∀ entry ∈ entries, entry.1 ∈ keys) :
    (∀ key ∈ keys, (map.insertAll entries).get? key = map.get? key) ↔
      ∀ entry ∈ entries, map.get? entry.1 = some entry.2 := by
  constructor
  · intro same entry member
    rw [← same entry.1 (covered entry member)]
    exact get?_insertAll_of_mem map distinct member
  · intro there key _
    by_cases member : key ∈ entries.map (·.1)
    · obtain ⟨entry, inside, rfl⟩ := List.mem_map.1 member
      rw [there entry inside]
      exact get?_insertAll_of_mem map distinct inside
    · exact get?_insertAll_of_not_mem map member

end Tracemark.OrderedMap
