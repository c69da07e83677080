import FontCompiler.Kerning.ClassNames
import FontCompiler.Proofs.Feature.Name

/-!
# Names of kerning classes stay apart

Naming classes only ever adds names that were free before, so no two classes
share a name, and none has a name that the feature file used already.
-/

namespace FontCompiler

namespace KernClassNames

/-- What naming classes may do: take further names, and name further classes by
distinct names that were free. -/
structure Grows (earlier later : KernClassNames) : Prop where
  taken : ∀ name ∈ earlier.taken, name ∈ later.taken
  named : ∃ added, later.named = earlier.named ++ added ∧ (added.map Prod.snd).Nodup ∧
    ∀ row ∈ added, row.2 ∈ later.taken ∧ row.2 ∉ earlier.taken

namespace Grows

theorem refl (names : KernClassNames) : Grows names names :=
  ⟨fun _ held => held, [], (List.append_nil _).symm, .nil, fun _ listed => nomatch listed⟩

theorem trans {first second third : KernClassNames} (lower : Grows first second)
    (upper : Grows second third) : Grows first third := by
  obtain ⟨lowerTaken, early, earlyNamed, earlyDistinct, earlyFresh⟩ := lower
  obtain ⟨upperTaken, late, lateNamed, lateDistinct, lateFresh⟩ := upper
  refine ⟨fun name held => upperTaken name (lowerTaken name held), early ++ late, ?_, ?_, ?_⟩
  · rw [lateNamed, earlyNamed, List.append_assoc]
  · rw [List.map_append]
    refine List.nodup_append'.mpr ⟨earlyDistinct, lateDistinct, ?_⟩
    rintro name earlyListed lateListed
    obtain ⟨earlyRow, earlyMember, rfl⟩ := List.mem_map.mp earlyListed
    obtain ⟨lateRow, lateMember, same⟩ := List.mem_map.mp lateListed
    have free := (lateFresh lateRow lateMember).2
    rw [same] at free
    exact free (earlyFresh earlyRow earlyMember).1
  · intro row listed
    rcases List.mem_append.mp listed with earlyListed | lateListed
    · exact ⟨upperTaken _ (earlyFresh row earlyListed).1, (earlyFresh row earlyListed).2⟩
    · exact ⟨(lateFresh row lateListed).1,
        fun held => (lateFresh row lateListed).2 (lowerTaken _ held)⟩

variable {earlier later : KernClassNames}

theorem mem_named (grows : Grows earlier later) {row : KernClassKey × String}
    (listed : row ∈ earlier.named) : row ∈ later.named := by
  obtain ⟨added, named, -⟩ := grows.named
  rw [named]
  exact List.mem_append_left _ listed

/-- A name that was taken for something else names no class later. -/
theorem ne_of_taken (grows : Grows earlier later) {name : String} (held : name ∈ earlier.taken)
    (other : ∀ row ∈ earlier.named, row.2 ≠ name) : ∀ row ∈ later.named, row.2 ≠ name := by
  obtain ⟨added, named, -, fresh⟩ := grows.named
  rintro row listed rfl
  rw [named] at listed
  rcases List.mem_append.mp listed with old | new
  · exact other row old rfl
  · exact (fresh row new).2 held

/-- Classes named from nothing have distinct names that were free at the start. -/
theorem of_unnamed {taken : SortedSet String} (grows : Grows { taken } later) :
    (later.named.map Prod.snd).Nodup ∧
      ∀ row ∈ later.named, row.2 ∈ later.taken ∧ row.2 ∉ taken := by
  obtain ⟨added, named, distinct, fresh⟩ := grows.named
  rw [named, List.nil_append]
  exact ⟨distinct, fresh⟩

end Grows

/-- What a selector must be to stand for a side. -/
def StandsFor (names : KernClassNames) (position : KernPosition) (script : Script) :
    KernSide → PairSide → Prop
  | .glyph name, selector => selector = .glyph name
  | .group _ members, selector =>
      ∃ name, selector = .named name ∧ (⟨position, script, members⟩, name) ∈ names.named

theorem StandsFor.grows {earlier later : KernClassNames} {position : KernPosition}
    {script : Script} {side : KernSide} {selector : PairSide}
    (stands : earlier.StandsFor position script side selector) (grows : Grows earlier later) :
    later.StandsFor position script side selector := by
  cases side with
  | glyph name => exact stands
  | group group members =>
      obtain ⟨name, same, listed⟩ := stands
      exact ⟨name, same, grows.mem_named listed⟩

/-- Selecting a side gives a selector that stands for it, and at most names its class. -/
theorem select_standsFor (position : KernPosition) (script : Script) (names : KernClassNames)
    (side : KernSide) :
    Grows names (names.select position script side).2 ∧
      (names.select position script side).2.StandsFor position script side
        (names.select position script side).1 := by
  cases side with
  | glyph name => exact ⟨.refl names, rfl⟩
  | group group members =>
      unfold select
      dsimp only
      split
      · next row found =>
          have same : row.1 = ⟨position, script, members⟩ := by simpa using List.find?_some found
          refine ⟨.refl names, row.2, rfl, ?_⟩
          rw [← same]
          exact List.mem_of_find?_eq_some found
      · next =>
          refine ⟨⟨fun name held => SortedSet.mem_insert.mpr (.inr held), [_], rfl,
            List.nodup_singleton _, fun row listed => ?_⟩, _, rfl,
            List.mem_append_right _ (List.mem_singleton_self _)⟩
          cases List.mem_singleton.mp listed
          exact ⟨SortedSet.mem_insert.mpr (.inl rfl), freshClassName_not_mem _ _⟩

theorem take_grows (name : String) (names : KernClassNames) : Grows names (names.take name) :=
  ⟨fun _ held => SortedSet.mem_insert.mpr (.inr held), [], (List.append_nil _).symm, .nil,
    fun _ listed => nomatch listed⟩

theorem mem_definitions {names : KernClassNames} {statement : Statement} :
    statement ∈ names.definitions ↔
      ∃ row ∈ names.named, statement = .glyphClass ⟨row.2, row.1.members.toList⟩ := by
  unfold definitions
  rw [List.mem_map]
  constructor
  · rintro ⟨row, listed, rfl⟩
    exact ⟨row, mem_sortBy.mp listed, rfl⟩
  · rintro ⟨row, listed, rfl⟩
    exact ⟨row, mem_sortBy.mpr listed, rfl⟩

end KernClassNames

end FontCompiler
