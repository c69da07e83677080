import FontCompiler.Collection.SortedSet

/-!
# Finite maps in key order

A sorted map lists its entries by increasing key. Most maps of this library
are tabulated from their key set, so an entry says directly what its value is.
-/

namespace FontCompiler

universe u v

/-- A finite map, held as its entries in increasing order of their keys. -/
structure SortedMap (κ : Type u) (ν : Type v) [Ord κ] where
  entries : List (κ × ν)
  increasing : entries.Pairwise (fun first second => compare first.1 second.1 = .lt)

namespace SortedMap

variable {κ : Type u} {ν : Type v} [Ord κ]

def empty : SortedMap κ ν := ⟨[], .nil⟩

instance : EmptyCollection (SortedMap κ ν) := ⟨empty⟩

instance : Inhabited (SortedMap κ ν) := ⟨empty⟩

def find? [DecidableEq κ] (table : SortedMap κ ν) (key : κ) : Option ν :=
  (table.entries.find? (fun entry => decide (entry.1 = key))).map Prod.snd

def findD [DecidableEq κ] (table : SortedMap κ ν) (key : κ) (default : ν) : ν :=
  (table.find? key).getD default

def keys (table : SortedMap κ ν) : SortedSet κ :=
  ⟨table.entries.map Prod.fst, List.pairwise_map.mpr table.increasing⟩

def values (table : SortedMap κ ν) : List ν := table.entries.map Prod.snd

/-- The map with the given keys and the value that a function gives each of them. -/
def tabulate (keys : SortedSet κ) (value : κ → ν) : SortedMap κ ν :=
  ⟨keys.toList.map fun key => (key, value key), List.pairwise_map.mpr keys.increasing⟩

theorem keys_tabulate (keys : SortedSet κ) (value : κ → ν) :
    (tabulate keys value).keys = keys := by
  cases keys with
  | mk members increasing => simp [tabulate, SortedMap.keys, Function.comp_def]

theorem find?_tabulate [DecidableEq κ] (keys : SortedSet κ) (value : κ → ν) (key : κ) :
    (tabulate keys value).find? key = if key ∈ keys then some (value key) else none := by
  have search : ∀ members : List κ,
      ((members.map fun member => (member, value member)).find?
        (fun entry => decide (entry.1 = key))).map Prod.snd =
      if key ∈ members then some (value key) else none := by
    intro members
    induction members with
    | nil => simp
    | cons first rest ih =>
        by_cases same : first = key
        · simp [same]
        · have other : ¬ key = first := fun equal => same equal.symm
          simpa [same, other] using ih
  exact search keys.toList

theorem mem_entries_tabulate {keys : SortedSet κ} {value : κ → ν} {key : κ} {stored : ν} :
    (key, stored) ∈ (tabulate keys value).entries ↔ key ∈ keys ∧ stored = value key := by
  constructor
  · intro listed
    obtain ⟨member, held, same⟩ := List.mem_map.mp listed
    cases same
    exact ⟨held, rfl⟩
  · rintro ⟨held, rfl⟩
    exact List.mem_map.mpr ⟨key, held, rfl⟩

/-- Keys are distinct, so an entry is what is found under its key. -/
theorem find?_eq_some_iff [Std.ReflOrd κ] [DecidableEq κ] {table : SortedMap κ ν} {key : κ}
    {stored : ν} : table.find? key = some stored ↔ (key, stored) ∈ table.entries := by
  have search : ∀ entries : List (κ × ν),
      entries.Pairwise (fun first second => compare first.1 second.1 = .lt) →
      ((entries.find? (fun entry => decide (entry.1 = key))).map Prod.snd = some stored ↔
        (key, stored) ∈ entries) := by
    intro entries increasing
    induction entries with
    | nil => simp
    | cons first rest ih =>
        obtain ⟨below, tail⟩ := List.pairwise_cons.mp increasing
        by_cases same : first.1 = key
        · have last : (key, stored) ∉ rest := fun later => by
            have self : compare key key = .eq := Std.ReflCmp.compare_self
            have strict := below _ later
            rw [same, self] at strict
            cases strict
          subst same
          simp [Prod.ext_iff, eq_comm, last]
        · have other : (key, stored) ≠ first := fun equal => same (equal ▸ rfl)
          simp [same, other, ih tail]
  exact search table.entries table.increasing

theorem findD_of_find?_eq_some [DecidableEq κ] {table : SortedMap κ ν} {key : κ}
    {default stored : ν} (found : table.find? key = some stored) :
    table.findD key default = stored := by
  rw [findD, found, Option.getD_some]

theorem findD_of_find?_eq_none [DecidableEq κ] {table : SortedMap κ ν} {key : κ} {default : ν}
    (missing : table.find? key = none) : table.findD key default = default := by
  rw [findD, missing, Option.getD_none]

/-- A key under which something other than the default is found. -/
theorem mem_keys_of_findD_ne [DecidableEq κ] {table : SortedMap κ ν} {key : κ} {default : ν}
    (found : table.findD key default ≠ default) : key ∈ table.keys := by
  cases search : table.entries.find? (fun entry => decide (entry.1 = key)) with
  | none => exact absurd (by rw [findD, find?, search]; rfl) found
  | some entry =>
      have same : entry.1 = key := by simpa using List.find?_some search
      rw [← same]
      exact List.mem_map.mpr ⟨entry, List.mem_of_find?_eq_some search, rfl⟩

/-- Put an entry before the first larger key, or in place of the entry with the same key. -/
def insertInto (key : κ) (value : ν) : List (κ × ν) → List (κ × ν)
  | [] => [(key, value)]
  | first :: rest =>
      match compare key first.1 with
      | .lt => (key, value) :: first :: rest
      | .eq => (first.1, value) :: rest
      | .gt => first :: insertInto key value rest

theorem key_mem_insertInto {key : κ} {value : ν} {entries : List (κ × ν)} {found : κ}
    (listed : found ∈ (insertInto key value entries).map Prod.fst) :
    found = key ∨ found ∈ entries.map Prod.fst := by
  induction entries with
  | nil => simpa [insertInto] using listed
  | cons first rest ih =>
      unfold insertInto at listed
      split at listed
      · simpa using listed
      · exact .inr (by simpa using listed)
      · rw [List.map_cons] at listed
        rcases List.mem_cons.mp listed with rfl | later
        · exact .inr List.mem_cons_self
        · exact (ih later).imp id (List.mem_cons_of_mem _)

theorem insertInto_increasing [Std.TransOrd κ] (key : κ) (value : ν) {entries : List (κ × ν)}
    (increasing : (entries.map Prod.fst).Pairwise
      (fun first second => compare first second = .lt)) :
    ((insertInto key value entries).map Prod.fst).Pairwise
      (fun first second => compare first second = .lt) := by
  induction entries with
  | nil => simp [insertInto]
  | cons first rest ih =>
      rw [List.map_cons] at increasing
      have tail := List.pairwise_cons.mp increasing
      unfold insertInto
      split
      case h_1 below =>
        rw [List.map_cons, List.map_cons]
        refine List.pairwise_cons.mpr ⟨fun other found => ?_, increasing⟩
        rcases List.mem_cons.mp found with rfl | later
        · exact below
        · exact Std.TransCmp.lt_trans below (tail.1 other later)
      case h_2 => exact increasing
      case h_3 above =>
        rw [List.map_cons]
        refine List.pairwise_cons.mpr ⟨fun other found => ?_, ih tail.2⟩
        rcases key_mem_insertInto found with rfl | later
        · exact Std.OrientedCmp.lt_of_gt above
        · exact tail.1 other later

def insert [Std.TransOrd κ] (key : κ) (value : ν) (table : SortedMap κ ν) : SortedMap κ ν :=
  ⟨insertInto key value table.entries, List.pairwise_map.mp
    (insertInto_increasing key value (List.pairwise_map.mpr table.increasing))⟩

theorem find?_insertInto [Std.LawfulEqOrd κ] [DecidableEq κ] (key wanted : κ) (value : ν)
    (entries : List (κ × ν)) :
    (insertInto key value entries).find? (fun entry => decide (entry.1 = wanted)) =
      if key = wanted then some (key, value)
      else entries.find? (fun entry => decide (entry.1 = wanted)) := by
  induction entries with
  | nil => by_cases same : key = wanted <;> simp [insertInto, same]
  | cons first rest ih =>
      unfold insertInto
      split
      case h_1 => by_cases same : key = wanted <;> simp [same]
      case h_2 equal =>
        have keySame : key = first.1 := Std.LawfulEqCmp.eq_of_compare equal
        by_cases same : key = wanted
        · simp [← keySame, same]
        · have other : ¬ first.1 = wanted := fun first => same (keySame.trans first)
          simp [same, other]
      case h_3 above =>
        by_cases same : first.1 = wanted
        · have other : ¬ key = wanted := fun equal => by
            have self : compare key first.1 = .eq := by
              rw [equal, same]
              exact Std.ReflCmp.compare_self
            rw [self] at above
            cases above
          simp [same, other]
        · rw [List.find?_cons_of_neg (by simpa using same), ih,
            List.find?_cons_of_neg (by simpa using same)]

@[simp] theorem find?_insert [Std.TransOrd κ] [Std.LawfulEqOrd κ] [DecidableEq κ]
    (table : SortedMap κ ν) (key wanted : κ) (value : ν) :
    (table.insert key value).find? wanted =
      if key = wanted then some value else table.find? wanted := by
  unfold find? insert
  dsimp only
  rw [find?_insertInto]
  by_cases same : key = wanted <;> simp [same]

end SortedMap

end FontCompiler
