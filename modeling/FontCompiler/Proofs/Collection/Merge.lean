import Mathlib.Data.List.Basic
import FontCompiler.Collection.KeyedList

/-!
# Ordered maps merged

The entries of one map are written into another, in order. The merged map has the keys of the
first map and then the new ones of the second, and under a key of the second what has been
combined there.
-/

namespace FontCompiler.OrderedMap

universe u v

variable {κ : Type u} {ν : Type v} [DecidableEq κ]

theorem keys_put (table : OrderedMap κ ν) (key : κ) (value : ν) :
    KeyedList.keys (KeyedList.put (key, value) table) =
      if key ∈ KeyedList.keys table then KeyedList.keys table
      else KeyedList.keys table ++ [key] :=
  KeyedList.keys_putInto (key, value) table.entries

theorem get?_put (table : OrderedMap κ ν) (key wanted : κ) (value : ν) :
    get? (KeyedList.put (key, value) table) wanted =
      if key = wanted then some value else table.get? wanted := by
  rw [get?, KeyedList.find?_put]
  split
  · rfl
  · rfl

/-- Two maps are equal if they have the same keys in the same order and the same values. -/
theorem ext_get? {table other : OrderedMap κ ν}
    (keys : KeyedList.keys table = KeyedList.keys other)
    (values : ∀ key, table.get? key = other.get? key) : table = other := by
  have listed : ∀ table : OrderedMap κ ν, table.entries =
      (KeyedList.keys table).filterMap fun key => (table.get? key).map (key, ·) := by
    intro table
    have stored : ∀ entry ∈ table.entries, (table.get? entry.1).map (entry.1, ·) = some entry :=
      fun entry held => by rw [get?_eq_some_iff.mpr held, Option.map_some]
    rw [KeyedList.keys, List.filterMap_map]
    exact ((List.filterMap_congr stored).trans List.filterMap_some).symm
  have entries : table.entries = other.entries := by
    rw [listed table, listed other, keys]
    simp only [values]
  cases table
  cases other
  cases entries
  rfl

/-- The first map with each entry of the second written into it, combined with what the first map
has under its key. -/
def mergeWith (combine : Option ν → ν → ν) (table other : OrderedMap κ ν) : OrderedMap κ ν :=
  other.entries.foldl (fun merged entry =>
    KeyedList.put (entry.1, combine (merged.get? entry.1) entry.2) merged) table

variable {combine : Option ν → ν → ν}

theorem mergeWith_cons (table : OrderedMap κ ν) (entry : κ × ν) (rest : List (κ × ν))
    (distinct : ((entry :: rest).map Prod.fst).Nodup) :
    table.mergeWith combine ⟨entry :: rest, distinct⟩ =
      mergeWith combine (KeyedList.put (entry.1, combine (table.get? entry.1) entry.2) table)
        ⟨rest, (List.nodup_cons.mp distinct).2⟩ := rfl

theorem keys_mergeWith (table other : OrderedMap κ ν) :
    KeyedList.keys (table.mergeWith combine other) = KeyedList.keys table ++
      (KeyedList.keys other).filter fun key => decide (key ∉ KeyedList.keys table) := by
  obtain ⟨entries, distinct⟩ := other
  induction entries generalizing table with
  | nil => exact (List.append_nil _).symm
  | cons entry rest ih =>
      have fresh : entry.1 ∉ rest.map Prod.fst := (List.nodup_cons.mp distinct).1
      rw [mergeWith_cons, ih, keys_put]
      change _ = _ ++ (entry.1 :: rest.map Prod.fst).filter _
      by_cases present : entry.1 ∈ KeyedList.keys table
      · rw [if_pos present, List.filter_cons_of_neg (by simpa using present)]
        rfl
      · rw [if_neg present, List.filter_cons_of_pos (by simpa using present), List.append_assoc,
          List.singleton_append]
        refine congrArg (_ ++ entry.1 :: ·) (List.filter_congr fun key listed => ?_)
        have other : key ≠ entry.1 := fun same => fresh (same ▸ listed)
        simp [other]

theorem get?_cons (entry : κ × ν) (rest : List (κ × ν))
    (distinct : ((entry :: rest).map Prod.fst).Nodup) (key : κ) :
    get? (⟨entry :: rest, distinct⟩ : OrderedMap κ ν) key =
      if entry.1 = key then some entry.2
      else get? (⟨rest, (List.nodup_cons.mp distinct).2⟩ : OrderedMap κ ν) key := by
  unfold get? KeyedList.find?
  by_cases same : entry.1 = key <;> simp [same]

theorem get?_eq_none {table : OrderedMap κ ν} {key : κ} (absent : key ∉ KeyedList.keys table) :
    table.get? key = none := by
  cases found : table.get? key with
  | none => rfl
  | some value =>
      exact absurd (List.mem_map.mpr ⟨_, get?_eq_some_iff.mp found, rfl⟩) absent

theorem get?_mergeWith (table other : OrderedMap κ ν) (key : κ) :
    (table.mergeWith combine other).get? key =
      ((other.get? key).map (combine (table.get? key))).or (table.get? key) := by
  obtain ⟨entries, distinct⟩ := other
  induction entries generalizing table with
  | nil => rfl
  | cons entry rest ih =>
      obtain ⟨fresh, distinctRest⟩ := List.nodup_cons.mp distinct
      rw [mergeWith_cons, ih, get?_put, get?_cons]
      by_cases same : entry.1 = key
      · subst same
        have absent : get? (⟨rest, distinctRest⟩ : OrderedMap κ ν) entry.1 = none :=
          get?_eq_none fresh
        rw [if_pos rfl, if_pos rfl, absent]
        rfl
      · rw [if_neg same, if_neg same]

/-- What is written into the second map first may as well be written into the merged map. -/
theorem mergeWith_put (table other : OrderedMap κ ν) (key : κ) (value : ν) :
    table.mergeWith combine (KeyedList.put (key, value) other) =
      KeyedList.put (key, combine (table.get? key) value) (table.mergeWith combine other) := by
  refine ext_get? ?_ fun wanted => ?_
  · rw [keys_put, keys_mergeWith, keys_mergeWith, keys_put]
    by_cases old : key ∈ KeyedList.keys table
    · by_cases again : key ∈ KeyedList.keys other <;> simp [old, again]
    · by_cases again : key ∈ KeyedList.keys other <;> simp [old, again]
  · rw [get?_put, get?_mergeWith, get?_mergeWith, get?_put]
    by_cases same : key = wanted
    · subst same
      rw [if_pos rfl, if_pos rfl]
      rfl
    · rw [if_neg same, if_neg same]

end FontCompiler.OrderedMap
