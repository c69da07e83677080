/-!
# Finite sets as increasing lists

A sorted set stores its members once each, in increasing order. Two sets with
the same members are therefore equal, and the members can be listed in the one
order that every reader of the set sees.
-/

namespace FontCompiler

universe u v

/-- A finite set, held as its members in increasing order. -/
structure SortedSet (α : Type u) [Ord α] where
  toList : List α
  increasing : toList.Pairwise (fun first second => compare first second = .lt)
  deriving DecidableEq

namespace SortedSet

variable {α : Type u} [Ord α]

/-- Place a member before the first larger one, or nowhere if it is there already. -/
def insertInto (member : α) : List α → List α
  | [] => [member]
  | first :: rest =>
      match compare member first with
      | .lt => member :: first :: rest
      | .eq => first :: rest
      | .gt => first :: insertInto member rest

theorem mem_of_mem_insertInto {member other : α} {members : List α}
    (found : other ∈ insertInto member members) : other = member ∨ other ∈ members := by
  induction members with
  | nil => simpa [insertInto] using found
  | cons first rest ih =>
      unfold insertInto at found
      split at found
      · simpa using found
      · exact .inr found
      · rcases List.mem_cons.mp found with rfl | later
        · exact .inr List.mem_cons_self
        · exact (ih later).imp id (List.mem_cons_of_mem _)

theorem insertInto_increasing [Std.TransOrd α] (member : α) {members : List α}
    (increasing : members.Pairwise (fun first second => compare first second = .lt)) :
    (insertInto member members).Pairwise (fun first second => compare first second = .lt) := by
  induction members with
  | nil => simp [insertInto]
  | cons first rest ih =>
      have tail := List.pairwise_cons.mp increasing
      unfold insertInto
      split
      case h_1 below =>
        refine List.pairwise_cons.mpr ⟨fun other found => ?_, increasing⟩
        rcases List.mem_cons.mp found with rfl | later
        · exact below
        · exact Std.TransCmp.lt_trans below (tail.1 other later)
      case h_2 => exact increasing
      case h_3 above =>
        refine List.pairwise_cons.mpr ⟨fun other found => ?_, ih tail.2⟩
        rcases mem_of_mem_insertInto found with rfl | later
        · exact Std.OrientedCmp.lt_of_gt above
        · exact tail.1 other later

instance : Membership α (SortedSet α) where
  mem set member := member ∈ set.toList

theorem mem_def {set : SortedSet α} {member : α} : member ∈ set ↔ member ∈ set.toList :=
  Iff.rfl

instance [DecidableEq α] (set : SortedSet α) (member : α) : Decidable (member ∈ set) :=
  inferInstanceAs (Decidable (member ∈ set.toList))

def empty : SortedSet α := ⟨[], .nil⟩

instance : EmptyCollection (SortedSet α) := ⟨empty⟩

instance : Inhabited (SortedSet α) := ⟨empty⟩

def singleton (member : α) : SortedSet α := ⟨[member], List.pairwise_singleton _ _⟩

def isEmpty (set : SortedSet α) : Bool := set.toList.isEmpty

def size (set : SortedSet α) : Nat := set.toList.length

def filter (test : α → Bool) (set : SortedSet α) : SortedSet α :=
  ⟨set.toList.filter test, set.increasing.filter test⟩

@[simp] theorem mem_filter {set : SortedSet α} {test : α → Bool} {member : α} :
    member ∈ set.filter test ↔ member ∈ set ∧ test member = true :=
  List.mem_filter

@[simp] theorem not_mem_empty {member : α} : ¬ member ∈ (∅ : SortedSet α) :=
  List.not_mem_nil

@[simp] theorem mem_singleton {member other : α} : other ∈ singleton member ↔ other = member :=
  List.mem_singleton

section Insertion

variable [Std.TransOrd α]

def insert (member : α) (set : SortedSet α) : SortedSet α :=
  ⟨insertInto member set.toList, insertInto_increasing member set.increasing⟩

def insertAll (set : SortedSet α) (members : List α) : SortedSet α :=
  members.foldl (fun current member => current.insert member) set

def ofList (members : List α) : SortedSet α := insertAll empty members

def union (first second : SortedSet α) : SortedSet α := first.insertAll second.toList

omit [Std.TransOrd α] in
theorem mem_insertInto [Std.LawfulEqOrd α] {member other : α} {members : List α} :
    other ∈ insertInto member members ↔ other = member ∨ other ∈ members := by
  refine ⟨mem_of_mem_insertInto, ?_⟩
  induction members with
  | nil => simp [insertInto]
  | cons first rest ih =>
      intro listed
      unfold insertInto
      split
      · simpa using listed
      · next same =>
          rcases listed with rfl | found
          · rw [Std.LawfulEqCmp.eq_of_compare same]
            exact List.mem_cons_self
          · exact found
      · rcases listed with rfl | found
        · exact List.mem_cons_of_mem _ (ih (.inl rfl))
        · rcases List.mem_cons.mp found with rfl | later
          · exact List.mem_cons_self
          · exact List.mem_cons_of_mem _ (ih (.inr later))

@[simp] theorem mem_insert [Std.LawfulEqOrd α] {set : SortedSet α} {member other : α} :
    other ∈ set.insert member ↔ other = member ∨ other ∈ set :=
  mem_insertInto

@[simp] theorem mem_insertAll [Std.LawfulEqOrd α] {set : SortedSet α} {members : List α}
    {other : α} : other ∈ set.insertAll members ↔ other ∈ set ∨ other ∈ members := by
  induction members generalizing set with
  | nil => simp [insertAll]
  | cons first rest ih =>
      have step : set.insertAll (first :: rest) = (set.insert first).insertAll rest := rfl
      rw [step, ih, mem_insert, List.mem_cons]
      constructor
      · rintro ((same | old) | later)
        · exact .inr (.inl same)
        · exact .inl old
        · exact .inr (.inr later)
      · rintro (old | same | later)
        · exact .inl (.inr old)
        · exact .inl (.inl same)
        · exact .inr later

@[simp] theorem mem_ofList [Std.LawfulEqOrd α] {members : List α} {other : α} :
    other ∈ ofList members ↔ other ∈ members := by
  have none : ¬ other ∈ (empty : SortedSet α) := List.not_mem_nil
  rw [ofList, mem_insertAll]
  exact ⟨fun found => found.resolve_left none, .inr⟩

@[simp] theorem mem_union [Std.LawfulEqOrd α] {first second : SortedSet α} {other : α} :
    other ∈ first.union second ↔ other ∈ first ∨ other ∈ second :=
  mem_insertAll

end Insertion

theorem nodup [Std.ReflOrd α] (set : SortedSet α) : set.toList.Nodup :=
  set.increasing.imp fun {first second} below same => by
    have self : compare second second = .eq := Std.ReflCmp.compare_self
    rw [same, self] at below
    cases below

theorem toList_eq_of_mem_iff [Std.TransOrd α] {first second : List α}
    (firstIncreasing : first.Pairwise (fun a b => compare a b = .lt))
    (secondIncreasing : second.Pairwise (fun a b => compare a b = .lt))
    (same : ∀ member, member ∈ first ↔ member ∈ second) : first = second := by
  induction first generalizing second with
  | nil =>
      cases second with
      | nil => rfl
      | cons head tail => exact absurd ((same head).mpr List.mem_cons_self) List.not_mem_nil
  | cons head tail ih =>
      cases second with
      | nil => exact absurd ((same head).mp List.mem_cons_self) List.not_mem_nil
      | cons other rest =>
          have tailBelow := List.pairwise_cons.mp firstIncreasing
          have restBelow := List.pairwise_cons.mp secondIncreasing
          have irreflexive : ∀ member : α, ¬ compare member member = .lt := fun member below => by
            have self : compare member member = .eq := Std.ReflCmp.compare_self
            rw [self] at below
            cases below
          have headSame : head = other := by
            rcases List.mem_cons.mp ((same head).mp List.mem_cons_self) with equal | later
            · exact equal
            · rcases List.mem_cons.mp ((same other).mpr List.mem_cons_self) with equal | further
              · exact equal.symm
              · exact absurd (Std.TransCmp.lt_trans (restBelow.1 head later)
                  (tailBelow.1 other further)) (irreflexive other)
          subst headSame
          rw [ih tailBelow.2 restBelow.2 fun member => ?_]
          constructor
          · intro found
            have listed := (same member).mp (List.mem_cons_of_mem _ found)
            rcases List.mem_cons.mp listed with rfl | later
            · exact absurd (tailBelow.1 _ found) (irreflexive _)
            · exact later
          · intro found
            have listed := (same member).mpr (List.mem_cons_of_mem _ found)
            rcases List.mem_cons.mp listed with rfl | later
            · exact absurd (restBelow.1 _ found) (irreflexive _)
            · exact later

/-- Sets with the same members are the same set. -/
theorem ext [Std.TransOrd α] {first second : SortedSet α}
    (same : ∀ member, member ∈ first ↔ member ∈ second) : first = second := by
  cases first with
  | mk members increasing =>
      cases second with
      | mk others othersIncreasing =>
          have equal : members = others :=
            toList_eq_of_mem_iff increasing othersIncreasing same
          subst equal
          rfl

/-- Sets are compared by their increasing lists. -/
instance : Ord (SortedSet α) where
  compare first second := compare first.toList second.toList

instance [Std.TransOrd α] : Std.TransOrd (SortedSet α) where
  eq_swap {first second} :=
    (Std.OrientedCmp.eq_swap :
      compare first.toList second.toList = (compare second.toList first.toList).swap)
  isLE_trans {first second third} below above := by
    have lower : (compare first.toList second.toList).isLE := below
    have upper : (compare second.toList third.toList).isLE := above
    exact (Std.TransCmp.isLE_trans lower upper : (compare first.toList third.toList).isLE)

instance [Std.LawfulEqOrd α] : Std.LawfulEqOrd (SortedSet α) where
  compare_self {set} := (Std.ReflCmp.compare_self : compare set.toList set.toList = .eq)
  eq_of_compare {first second} same := by
    have lists : compare first.toList second.toList = .eq := same
    have equal : first.toList = second.toList := Std.LawfulEqCmp.eq_of_compare lists
    cases first
    cases second
    cases equal
    rfl

end SortedSet

end FontCompiler
