/-!
# Records with distinct keys in the order they were added

Writing a record under a key that is already present replaces the old record
where it stands. A new key goes to the end.
-/

namespace FontCompiler

universe u v

/-- Records in the order in which their keys first came, no key twice. -/
structure KeyedList {κ : Type u} {ν : Type v} (key : ν → κ) where
  entries : List ν
  distinct : (entries.map key).Nodup

/-- Values under distinct keys, in the order in which the keys first came. -/
abbrev OrderedMap (κ : Type u) (ν : Type v) := KeyedList (Prod.fst : κ × ν → κ)

namespace KeyedList

variable {κ : Type u} {ν : Type v} {key : ν → κ}

def empty : KeyedList key := ⟨[], .nil⟩

instance : EmptyCollection (KeyedList key) := ⟨empty⟩

instance : Inhabited (KeyedList key) := ⟨empty⟩

def isEmpty (table : KeyedList key) : Bool := table.entries.isEmpty

def size (table : KeyedList key) : Nat := table.entries.length

def keys (table : KeyedList key) : List κ := table.entries.map key

def filter (test : ν → Bool) (table : KeyedList key) : KeyedList key :=
  ⟨table.entries.filter test, table.distinct.sublist (List.filter_sublist.map key)⟩

def map (image : ν → ν) (keeps : ∀ entry, key (image entry) = key entry)
    (table : KeyedList key) : KeyedList key :=
  ⟨table.entries.map image, by
    have same : key ∘ image = key := funext keeps
    rw [List.map_map, same]
    exact table.distinct⟩

variable [DecidableEq κ]

def find? (table : KeyedList key) (wanted : κ) : Option ν :=
  table.entries.find? (fun entry => decide (key entry = wanted))

def contains (table : KeyedList key) (wanted : κ) : Bool := (table.find? wanted).isSome

theorem key_of_find? {table : KeyedList key} {wanted : κ} {entry : ν}
    (found : table.find? wanted = some entry) : key entry = wanted := by
  simpa using List.find?_some found

theorem mem_keys_of_find? {table : KeyedList key} {wanted : κ} {entry : ν}
    (found : table.find? wanted = some entry) : wanted ∈ table.keys :=
  List.mem_map.mpr ⟨entry, List.mem_of_find?_eq_some found, key_of_find? found⟩

theorem contains_iff {table : KeyedList key} {wanted : κ} :
    table.contains wanted = true ↔ wanted ∈ table.keys := by
  unfold contains find?
  rw [List.find?_isSome]
  simp [keys]

/-- The record found under a key is the one listed record with that key. -/
theorem find?_eq_some_iff {table : KeyedList key} {wanted : κ} {entry : ν} :
    table.find? wanted = some entry ↔ entry ∈ table.entries ∧ key entry = wanted := by
  constructor
  · intro found
    exact ⟨List.mem_of_find?_eq_some found, key_of_find? found⟩
  · rintro ⟨listed, rfl⟩
    cases table with
    | mk entries distinct =>
        induction entries with
        | nil => cases listed
        | cons first rest ih =>
            rw [List.map_cons] at distinct
            obtain ⟨fresh, tail⟩ := List.nodup_cons.mp distinct
            rcases List.mem_cons.mp listed with rfl | later
            · exact List.find?_cons_of_pos (decide_eq_true rfl)
            · have other : ¬ key first = key entry := fun same =>
                fresh (same ▸ List.mem_map_of_mem later)
              exact (List.find?_cons_of_neg (by simpa using other)).trans (ih tail later)

@[simp] theorem find?_map (image : ν → ν) (keeps : ∀ entry, key (image entry) = key entry)
    (table : KeyedList key) (wanted : κ) :
    (table.map image keeps).find? wanted = (table.find? wanted).map image := by
  have same : (fun entry => decide (key entry = wanted)) ∘ image =
      fun entry => decide (key entry = wanted) := funext fun entry => by simp [keeps]
  unfold find? map
  rw [List.find?_map, same]

/-- Replace the record with the same key where it stands, or add a record at the end. -/
def putInto (key : ν → κ) (entry : ν) : List ν → List ν
  | [] => [entry]
  | first :: rest =>
      if key first = key entry then entry :: rest else first :: putInto key entry rest

theorem keys_putInto (entry : ν) (entries : List ν) :
    (putInto key entry entries).map key =
      if key entry ∈ entries.map key then entries.map key
      else entries.map key ++ [key entry] := by
  induction entries with
  | nil => simp [putInto]
  | cons first rest ih =>
      unfold putInto
      split
      · next same => simp [same]
      · next other =>
          have flipped : ¬ key entry = key first := fun equal => other equal.symm
          rw [List.map_cons, ih]
          by_cases later : key entry ∈ rest.map key
          · simp [later]
          · simp [later, flipped]

theorem putInto_distinct (entry : ν) {entries : List ν} (distinct : (entries.map key).Nodup) :
    ((putInto key entry entries).map key).Nodup := by
  rw [keys_putInto]
  split
  · exact distinct
  · next fresh =>
      refine List.nodup_append.mpr ⟨distinct, List.pairwise_singleton _ _, ?_⟩
      intro first listed second equal same
      rw [List.mem_singleton] at equal
      exact fresh (equal ▸ same ▸ listed)

def put (entry : ν) (table : KeyedList key) : KeyedList key :=
  ⟨putInto key entry table.entries, putInto_distinct entry table.distinct⟩

theorem find?_putInto (entry : ν) (entries : List ν) (wanted : κ) :
    (putInto key entry entries).find? (fun other => decide (key other = wanted)) =
      if key entry = wanted then some entry
      else entries.find? (fun other => decide (key other = wanted)) := by
  induction entries with
  | nil => by_cases same : key entry = wanted <;> simp [putInto, same]
  | cons first rest ih =>
      unfold putInto
      split
      · next equal => by_cases same : key entry = wanted <;> simp [equal, same]
      · next other =>
          by_cases same : key first = wanted
          · have different : ¬ key entry = wanted := fun equal => other (same.trans equal.symm)
            simp [same, different]
          · rw [List.find?_cons_of_neg (by simpa using same), ih,
              List.find?_cons_of_neg (by simpa using same)]

@[simp] theorem find?_put (entry : ν) (table : KeyedList key) (wanted : κ) :
    (table.put entry).find? wanted =
      if key entry = wanted then some entry else table.find? wanted :=
  find?_putInto entry table.entries wanted

/-- Write the records of a list one after the other. -/
def ofList (entries : List ν) : KeyedList key :=
  entries.foldl (fun table entry => table.put entry) empty

end KeyedList

namespace OrderedMap

variable {κ : Type u} {ν : Type v} [DecidableEq κ]

def get? (table : OrderedMap κ ν) (wanted : κ) : Option ν :=
  (KeyedList.find? table wanted).map Prod.snd

theorem get?_eq_some_iff {table : OrderedMap κ ν} {wanted : κ} {value : ν} :
    table.get? wanted = some value ↔ (wanted, value) ∈ table.entries := by
  unfold get?
  rw [Option.map_eq_some_iff]
  constructor
  · rintro ⟨entry, found, rfl⟩
    obtain ⟨listed, rfl⟩ := KeyedList.find?_eq_some_iff.mp found
    exact listed
  · intro listed
    exact ⟨(wanted, value), KeyedList.find?_eq_some_iff.mpr ⟨listed, rfl⟩, rfl⟩

/-- The value under a key after a change, which starts from a default for a new key. -/
def alter (wanted : κ) (default : ν) (change : ν → ν) (table : OrderedMap κ ν) :
    OrderedMap κ ν :=
  KeyedList.put (wanted, change ((get? table wanted).getD default)) table

theorem get?_alter (table : OrderedMap κ ν) (key wanted : κ) (default : ν) (change : ν → ν) :
    (table.alter key default change).get? wanted =
      if key = wanted then some (change ((table.get? key).getD default))
      else table.get? wanted := by
  rw [get?, alter, KeyedList.find?_put]
  split
  · rfl
  · rfl

end OrderedMap

end FontCompiler
