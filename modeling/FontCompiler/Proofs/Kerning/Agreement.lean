import FontCompiler.Proofs.Kerning.NewClasses

/-!
# Kerning drafted for different files

Drafts of one setting for two feature files take the same names, if the files have
the same names of the kinds that kerning takes.
-/

namespace FontCompiler

/-- Whether class names were given out alike. -/
structure KernClassNames.Agree (names others : KernClassNames) : Prop where
  taken : AgreeFor classMaker? .kern names.taken others.taken
  named : names.named = others.named

theorem KernClassNames.Agree.select {names others : KernClassNames} (agree : names.Agree others)
    (position : KernPosition) (script : Script) (side : KernSide) :
    (names.select position script side).1 = (others.select position script side).1 ∧
      Agree (names.select position script side).2 (others.select position script side).2 := by
  cases side with
  | glyph name => exact ⟨rfl, agree⟩
  | group group members =>
      unfold KernClassNames.select
      dsimp only
      rw [agree.named]
      split
      · exact ⟨rfl, agree⟩
      · have begins : classMaker? "kern" = some .kern := rfl
        have made :
            classMaker? ("kern" ++ position.digit ++ "." ++ script.tag.text ++ "." ++ group) =
              some .kern :=
          classMaker?_append (classMaker?_append (classMaker?_append (classMaker?_append
            (classMaker?_append begins _) _) _) _) _
        rw [agree.taken.freshClassName_eq made]
        exact ⟨rfl, agree.taken.insert _, rfl⟩

namespace KernSetting

variable {α : Type} [Coordinate α] {setting : KernSetting α}

theorem rules_agree (setting : KernSetting α) {names others : KernClassNames}
    (agree : names.Agree others) (script : Script) (pairs : List (KerningPair α)) :
    (setting.rules script names pairs).1 = (setting.rules script others pairs).1 ∧
      (setting.rules script names pairs).2.Agree (setting.rules script others pairs).2 := by
  induction pairs generalizing names others with
  | nil => exact ⟨rfl, agree⟩
  | cons pair rest ih =>
      obtain ⟨sameFirst, firstAgree⟩ := agree.select .first script pair.first
      obtain ⟨sameSecond, secondAgree⟩ := firstAgree.select .second script pair.second
      obtain ⟨sameRest, restAgree⟩ := ih secondAgree
      refine ⟨?_, restAgree⟩
      unfold rules
      dsimp only
      rw [sameFirst, sameSecond, sameRest]

omit [Coordinate α] in
theorem opening_agree (setting : KernSetting α) {names others : KernClassNames}
    (agree : names.Agree others) (name : String) :
    (setting.opening name names).1 = (setting.opening name others).1 ∧
      (setting.opening name names).2.Agree (setting.opening name others).2 := by
  unfold opening
  split
  · exact ⟨rfl, agree⟩
  · split
    · exact ⟨rfl, agree⟩
    · have begins : classMaker? "MFS_" = some .kern := rfl
      rw [agree.taken.freshClassName_eq (classMaker?_append begins name)]
      exact ⟨rfl, agree.taken.insert _, agree.named⟩

/-- Whether drafts hold the same lookups and classes, and their files the same
names of the kinds that kerning takes. -/
structure Agree (draft other : KernDraft α) : Prop where
  lookupNames : AgreeFor lookupMaker? .kern draft.lookupNames other.lookupNames
  classNames : draft.classNames.Agree other.classNames
  lookups : draft.lookups = other.lookups

variable {draft other : KernDraft α}

theorem Agree.addLookup (agree : Agree draft other) (script : Script) (name : String)
    (opening : List Statement) (pairs : List (KerningPair α)) :
    Agree (setting.addLookup script name opening pairs draft)
      (setting.addLookup script name opening pairs other) := by
  obtain ⟨sameRules, rulesAgree⟩ := setting.rules_agree agree.classNames script
    (pairs.filter fun pair => !pair.mixesDirections setting.directions)
  unfold KernSetting.addLookup
  dsimp only
  rw [sameRules]
  split
  · exact ⟨agree.lookupNames, rulesAgree, agree.lookups⟩
  · exact ⟨agree.lookupNames.insert name, rulesAgree, by rw [agree.lookups]⟩

theorem Agree.addScript (agree : Agree draft other) (script : Script) :
    Agree (setting.addScript draft script) (setting.addScript other script) := by
  have begins : lookupMaker? "kern_" = some .kern := rfl
  have ofBases : Agree (setting.addBases draft script) (setting.addBases other script) := by
    unfold addBases
    split
    · dsimp only
      rw [agree.lookupNames.freshName_eq (lookupMaker?_append begins _)]
      obtain ⟨sameOpening, openingAgree⟩ := setting.opening_agree agree.classNames
        (freshName ("kern_" ++ script.tag.text) other.lookupNames)
      rw [sameOpening]
      have opened : Agree
          { draft with classNames := (setting.opening _ draft.classNames).2 }
          { other with classNames := (setting.opening _ other.classNames).2 } :=
        ⟨agree.lookupNames, openingAgree, agree.lookups⟩
      exact opened.addLookup _ _ _ _
    · exact agree
  rw [addScript_eq_addMarks, addScript_eq_addMarks]
  unfold addMarks
  split
  · dsimp only
    rw [ofBases.lookupNames.freshName_eq (lookupMaker?_append (lookupMaker?_append begins _) _)]
    exact ofBases.addLookup _ _ _ _
  · exact ofBases

theorem Agree.foldl (agree : Agree draft other) (scripts : List Script) :
    Agree (scripts.foldl setting.addScript draft) (scripts.foldl setting.addScript other) := by
  induction scripts generalizing draft other with
  | nil => exact agree
  | cons script rest ih => exact ih (agree.addScript script)

/-- The drafts for two files agree when the files have the same names of the kinds
that kerning takes. -/
theorem draft_agree (setting : KernSetting α) {file other : FeatureFile}
    (lookups : AgreeFor lookupMaker? .kern file.lookupNames other.lookupNames)
    (classes : AgreeFor classMaker? .kern file.classNames other.classNames) :
    Agree (setting.draft file) (setting.draft other) := by
  have start : Agree
      { lookupNames := file.lookupNames, classNames := { taken := file.classNames } : KernDraft α }
      { lookupNames := other.lookupNames, classNames := { taken := other.classNames } } :=
    ⟨lookups, ⟨classes, rfl⟩, rfl⟩
  exact start.foldl setting.scripts.toList

end KernSetting

end FontCompiler
