import FontCompiler.Proofs.Feature.Name

/-!
# New names

Names are taken one after another, each while it is free. The names taken on the
way from one set to a larger one are therefore distinct, and the first set has
none of them.
-/

namespace FontCompiler

/-- Distinct names that are taken after something and were free before it. -/
structure NewNames (before after : SortedSet String) (names : List String) : Prop where
  kept : ∀ name ∈ before, name ∈ after
  taken : ∀ name ∈ names, name ∈ after
  free : ∀ name ∈ names, name ∉ before
  distinct : names.Nodup

namespace NewNames

variable {before after : SortedSet String} {names : List String}

theorem start (taken : SortedSet String) : NewNames taken taken [] where
  kept _ held := held
  taken _ listed := nomatch listed
  free _ listed := nomatch listed
  distinct := List.nodup_nil

/-- Taking a name that is none of the new ones. -/
theorem take (new : NewNames before after names) (name : String) :
    NewNames before (after.insert name) names :=
  { new with
    kept := fun other held => SortedSet.mem_insert.mpr (.inr (new.kept other held))
    taken := fun other listed => SortedSet.mem_insert.mpr (.inr (new.taken other listed)) }

/-- Taking a name that is free. -/
theorem single {taken : SortedSet String} {name : String} (free : name ∉ taken) :
    NewNames taken (taken.insert name) [name] where
  kept _ held := SortedSet.mem_insert.mpr (.inr held)
  taken _ listed := SortedSet.mem_insert.mpr (.inl (List.mem_singleton.mp listed))
  free other listed := by
    rw [List.mem_singleton.mp listed]
    exact free
  distinct := List.nodup_singleton name

/-- New names stay new when further ones are taken, and differ from these. -/
theorem trans {last : SortedSet String} {others : List String}
    (new : NewNames before after names) (newer : NewNames after last others) :
    NewNames before last (names ++ others) where
  kept name held := newer.kept name (new.kept name held)
  taken name listed :=
    (List.mem_append.mp listed).elim (fun old => newer.kept name (new.taken name old))
      (newer.taken name)
  free name listed :=
    (List.mem_append.mp listed).elim (new.free name)
      fun later held => newer.free name later (new.kept name held)
  distinct := List.nodup_append'.mpr ⟨new.distinct, newer.distinct,
    fun name old later => newer.free name later (new.taken name old)⟩

/-- Fewer names, in any order, are new too. -/
theorem subperm (new : NewNames before after names) {others : List String}
    (fewer : others.Subperm names) : NewNames before after others where
  kept := new.kept
  taken name listed := new.taken name (fewer.subset listed)
  free name listed := new.free name (fewer.subset listed)
  distinct := by
    obtain ⟨same, perm, sublist⟩ := fewer
    exact perm.nodup_iff.mp (new.distinct.sublist sublist)

end NewNames

end FontCompiler
