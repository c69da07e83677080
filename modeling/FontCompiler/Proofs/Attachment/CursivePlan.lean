import FontCompiler.Proofs.Feature.Coherence
import FontCompiler.Proofs.Layout.Maker

/-!
# Plans of cursive lookups

Each suffix has one planned lookup, or one for each direction. A plan takes a name
also when no glyph has a rule for its lookup. Whether the lookup is made depends on
the glyphs, whatever names the feature file has taken.
-/

namespace FontCompiler

open Statement

/-- What a cursive lookup is made from. -/
structure CursivePlan (α : Type) where
  wanted : String
  suffix : Option String
  direction : Direction
  glyphs : List (Glyph α)
  /-- The lookup has a name of the kind that cursive lookups have. -/
  named : lookupMaker? wanted = some .cursive

section Plans

variable {α : Type} [Coordinate α]

namespace CursivePlan

def rules (plan : CursivePlan α) : List Statement :=
  plan.glyphs.filterMap (cursiveRule? plan.suffix)

/-- The lookup under a name, if it has rules. -/
def lookup (plan : CursivePlan α) (name : String) : List Statement :=
  cursiveLookup name plan.suffix plan.direction plan.glyphs

/-- The name that the lookups of a suffix begin with. -/
def base : Option String → String
  | none => "curs"
  | some text => "curs_" ++ text

omit [Coordinate α] in
theorem lookupMaker?_base (suffix : Option String) :
    lookupMaker? (base suffix) = some .cursive := by
  cases suffix with
  | none => rfl
  | some text => exact lookupMaker?_append rfl text

def ofSuffix (glyphs : List (Glyph α)) (leftToRight : SortedSet GlyphName)
    (suffix : Option String) : List (CursivePlan α) :=
  let pinned := suffixDirection? suffix
  if pinned.isNone && !leftToRight.isEmpty then
    [{ wanted := base suffix ++ "_ltr"
       suffix
       direction := .leftToRight
       glyphs := glyphs.filter fun glyph => decide (glyph.name ∈ leftToRight)
       named := lookupMaker?_append (lookupMaker?_base suffix) _ },
     { wanted := base suffix ++ "_rtl"
       suffix
       direction := .rightToLeft
       glyphs := glyphs.filter fun glyph => decide (glyph.name ∉ leftToRight)
       named := lookupMaker?_append (lookupMaker?_base suffix) _ }]
  else
    [{ wanted := base suffix
       suffix
       direction := pinned.getD .rightToLeft
       glyphs
       named := lookupMaker?_base suffix }]

/-- The lookups of plans, each under a fresh name. -/
def lookups (taken : SortedSet String) : List (CursivePlan α) → List Statement
  | [] => []
  | plan :: rest =>
      let name := freshName plan.wanted taken
      plan.lookup name ++ lookups (taken.insert name) rest

def takenAfter (taken : SortedSet String) (plans : List (CursivePlan α)) : SortedSet String :=
  plans.foldl (fun taken plan => taken.insert (freshName plan.wanted taken)) taken

theorem lookups_append (taken : SortedSet String) (plans others : List (CursivePlan α)) :
    lookups taken (plans ++ others) =
      lookups taken plans ++ lookups (takenAfter taken plans) others := by
  induction plans generalizing taken with
  | nil => rfl
  | cons plan rest ih =>
      rw [List.cons_append, lookups, ih, ← List.append_assoc]
      rfl

theorem suffixLookups_eq (glyphs : List (Glyph α)) (leftToRight : SortedSet GlyphName)
    (taken : SortedSet String) (suffix : Option String) :
    suffixLookups glyphs leftToRight taken suffix =
      (lookups taken (ofSuffix glyphs leftToRight suffix),
        takenAfter taken (ofSuffix glyphs leftToRight suffix)) := by
  unfold suffixLookups ofSuffix
  dsimp only
  split
  · simp only [lookups, List.append_nil]
    cases suffix <;> rfl
  · simp only [lookups, List.append_nil]
    cases suffix <;> rfl

theorem cursiveLookups_eq_lookups (glyphs : List (Glyph α)) (leftToRight : SortedSet GlyphName)
    (taken : SortedSet String) (suffixes : List (Option String)) :
    cursiveLookups glyphs leftToRight taken suffixes =
      lookups taken (suffixes.flatMap (ofSuffix glyphs leftToRight)) := by
  induction suffixes generalizing taken with
  | nil => rfl
  | cons suffix rest ih =>
      rw [cursiveLookups, suffixLookups_eq, List.flatMap_cons, lookups_append]
      dsimp only
      rw [ih]

theorem lookup_cases (plan : CursivePlan α) (name : String) :
    plan.rules = [] ∧ plan.lookup name = [] ∨
      plan.rules ≠ [] ∧ ∃ flag, plan.lookup name =
        [.block .lookup name (.lookupFlag flag :: plan.rules)] ∧ flag.filterClass = none := by
  unfold lookup cursiveLookup rules
  dsimp only
  split
  · next none => exact .inl ⟨List.isEmpty_iff.mp none, rfl⟩
  · next some => exact .inr ⟨fun none => some (List.isEmpty_iff.mpr none), _, rfl, rfl⟩

theorem lookups_ne_nil_iff {taken : SortedSet String} {plans : List (CursivePlan α)} :
    lookups taken plans ≠ [] ↔ ∃ plan ∈ plans, plan.rules ≠ [] := by
  induction plans generalizing taken with
  | nil => simp [lookups]
  | cons plan rest ih =>
      unfold lookups
      dsimp only
      rw [List.exists_mem_cons_iff, ← @ih (taken.insert (freshName plan.wanted taken))]
      rcases plan.lookup_cases (freshName plan.wanted taken) with
        ⟨none, same⟩ | ⟨some, flag, same, -⟩
      · rw [same, none]
        simp
      · rw [same]
        simp [some]

theorem mem_rules {plan : CursivePlan α} {statement : Statement}
    (listed : statement ∈ plan.rules) :
    ∃ glyph entry exit, statement = .position (.cursive glyph entry exit) := by
  obtain ⟨glyph, -, found⟩ := List.mem_filterMap.mp listed
  unfold cursiveRule? at found
  split at found
  · cases found
  · cases found
    exact ⟨_, _, _, rfl⟩

/-- The walk through a lookup that is made. -/
theorem visit_lookup (plan : CursivePlan α) (name : String) (flag : LookupFlag) :
    visit [.block .lookup name (.lookupFlag flag :: plan.rules)] =
      .block .lookup name (.lookupFlag flag :: plan.rules) :: .lookupFlag flag :: plan.rules := by
  rw [visit_cons, List.append_nil, children, visit_of_flat fun statement listed => ?_]
  rcases List.mem_cons.mp listed with rfl | ruled
  · rfl
  · obtain ⟨glyph, entry, exit, rfl⟩ := mem_rules ruled
    rfl

/-- A statement of a lookup that is made is the lookup, its flag or a rule. -/
theorem of_mem_visit_lookup {plan : CursivePlan α} {name : String} {statement : Statement}
    (listed : statement ∈ visit (plan.lookup name)) :
    (∃ body, statement = .block .lookup name body) ∨
      (∃ flag, statement = .lookupFlag flag ∧ flag.filterClass = none) ∨
      ∃ glyph entry exit, statement = .position (.cursive glyph entry exit) := by
  rcases plan.lookup_cases name with ⟨-, same⟩ | ⟨-, flag, same, plain⟩
  · rw [same, visit_nil] at listed
    cases listed
  · rw [same, visit_lookup] at listed
    rcases List.mem_cons.mp listed with rfl | inside
    · exact .inl ⟨_, rfl⟩
    · rcases List.mem_cons.mp inside with rfl | ruled
      · exact .inr (.inl ⟨flag, rfl, plain⟩)
      · exact .inr (.inr (mem_rules ruled))

/-- A statement of the lookups is a lookup, a flag or a rule. -/
theorem of_mem_visit_lookups {taken : SortedSet String} {plans : List (CursivePlan α)}
    {statement : Statement} (listed : statement ∈ visit (lookups taken plans)) :
    (∃ name body, statement = .block .lookup name body ∧ lookupMaker? name = some .cursive) ∨
      (∃ flag, statement = .lookupFlag flag ∧ flag.filterClass = none) ∨
      ∃ glyph entry exit, statement = .position (.cursive glyph entry exit) := by
  induction plans generalizing taken with
  | nil =>
      rw [lookups, visit_nil] at listed
      cases listed
  | cons plan rest ih =>
      unfold lookups at listed
      dsimp only at listed
      rw [visit_append] at listed
      rcases List.mem_append.mp listed with first | later
      · rcases of_mem_visit_lookup first with ⟨body, same⟩ | other
        · exact .inl ⟨_, body, same, lookupMaker?_freshName plan.named taken⟩
        · exact .inr other
      · exact ih later

/-- The lookups have new names. -/
theorem lookups_newNames (taken : SortedSet String) (plans : List (CursivePlan α)) :
    ∃ after, NewNames taken after (definedLookups (lookups taken plans)) := by
  induction plans generalizing taken with
  | nil =>
      have none : definedLookups (lookups taken ([] : List (CursivePlan α))) = [] := by
        simp [definedLookups, lookups]
      rw [none]
      exact ⟨taken, .start taken⟩
  | cons plan rest ih =>
      obtain ⟨after, later⟩ := ih (taken.insert (freshName plan.wanted taken))
      refine ⟨after, ?_⟩
      unfold lookups
      dsimp only
      rw [definedLookups_append]
      refine NewNames.trans ?_ later
      rcases plan.lookup_cases (freshName plan.wanted taken) with
        ⟨-, same⟩ | ⟨-, flag, same, -⟩
      · have none : definedLookups ([] : List Statement) = [] := by simp [definedLookups]
        rw [same, none]
        exact (NewNames.start taken).take _
      · have own : definedLookups (plan.lookup (freshName plan.wanted taken)) =
            [freshName plan.wanted taken] := by
          have isName : lookupName? (.block .lookup (freshName plan.wanted taken)
              (.lookupFlag flag :: plan.rules)) = some (freshName plan.wanted taken) := rfl
          rw [same, definedLookups, visit_lookup, List.filterMap_cons_some isName]
          refine congrArg (_ :: ·) (List.filterMap_eq_nil_iff.mpr fun statement listed => ?_)
          rcases List.mem_cons.mp listed with rfl | ruled
          · rfl
          · obtain ⟨glyph, entry, exit, rfl⟩ := mem_rules ruled
            rfl
        rw [own]
        exact .single (freshName_not_mem _ _)

end CursivePlan

end Plans

namespace CursiveWriter

variable {α : Type} [Coordinate α] {writer : CursiveWriter} {context : LayoutContext α}
  {file : FeatureFile}

def plans (context : LayoutContext α) (file : FeatureFile) : List (CursivePlan α) :=
  (joinedSuffixes context.view.glyphsInOrder).flatMap
    (CursivePlan.ofSuffix context.view.glyphsInOrder (context.leftToRightGlyphs file))

def additions (writer : CursiveWriter) (context : LayoutContext α) (file : FeatureFile) :
    List Statement :=
  if (wantedFeatures writer.overlap file features).isEmpty then []
  else
    let lookups := CursivePlan.lookups file.lookupNames (plans context file)
    if lookups.isEmpty then [] else [.block .feature "curs" lookups]

/-- The writer adds its statements to the file. -/
theorem write_eq_appending :
    ∃ notices, writer.write context file =
      .appending (writer.additions context file) file notices := by
  unfold write additions
  dsimp only
  split
  · exact ⟨_, rfl⟩
  · rw [CursivePlan.cursiveLookups_eq_lookups]
    exact ⟨_, rfl⟩

theorem additions_cases (writer : CursiveWriter) (context : LayoutContext α)
    (file : FeatureFile) :
    writer.additions context file = [] ∨
      writer.additions context file =
        [.block .feature "curs" (CursivePlan.lookups file.lookupNames (plans context file))] := by
  unfold additions
  dsimp only
  split
  · exact .inl rfl
  · split
    · exact .inl rfl
    · exact .inr rfl

/-- The writer has something to add exactly when its feature is wanted and a planned
lookup has rules. -/
theorem additions_ne_nil_iff :
    writer.additions context file ≠ [] ↔
      "curs" ∈ wantedFeatures writer.overlap file features ∧
        ∃ plan ∈ plans context file, plan.rules ≠ [] := by
  have wanted : wantedFeatures writer.overlap file features ≠ [] ↔
      "curs" ∈ wantedFeatures writer.overlap file features := by
    unfold wantedFeatures features
    cases writer.overlap with
    | append => simp
    | skip => cases file.hasFeature "curs" <;> simp
  have made := @CursivePlan.lookups_ne_nil_iff α _ file.lookupNames (plans context file)
  rw [← made, ← wanted]
  unfold additions
  dsimp only
  split
  · next none => simp [List.isEmpty_iff.mp none]
  · next some =>
      have nonempty := fun none => some (List.isEmpty_iff.mpr none)
      split
      · next none => simp [List.isEmpty_iff.mp none]
      · next more =>
          have lookups := fun none => more (List.isEmpty_iff.mpr none)
          exact iff_of_true (List.cons_ne_nil _ _) ⟨nonempty, lookups⟩

theorem exists_mem_additions (some : writer.additions context file ≠ []) :
    ∃ body, .block .feature "curs" body ∈ writer.additions context file := by
  rcases writer.additions_cases context file with none | same
  · exact absurd none some
  · rw [same]
    exact ⟨_, List.mem_singleton_self _⟩

theorem of_mem_visit_additions {statement : Statement}
    (listed : statement ∈ visit (writer.additions context file)) :
    (∃ body, statement = .block .feature "curs" body) ∨
      (∃ name body, statement = .block .lookup name body ∧
        lookupMaker? name = some .cursive) ∨
      (∃ flag, statement = .lookupFlag flag ∧ flag.filterClass = none) ∨
      ∃ glyph entry exit, statement = .position (.cursive glyph entry exit) := by
  rcases writer.additions_cases context file with none | same
  · rw [none, visit_nil] at listed
    cases listed
  · rw [same, visit_cons, List.append_nil] at listed
    rcases List.mem_cons.mp listed with rfl | inside
    · exact .inl ⟨_, rfl⟩
    · exact .inr (CursivePlan.of_mem_visit_lookups inside)

theorem allMadeBy_additions : AllMadeBy .cursive (writer.additions context file) := by
  intro statement listed
  rcases of_mem_visit_additions listed with
    ⟨body, rfl⟩ | ⟨name, body, rfl, named⟩ | ⟨flag, rfl, -⟩ | ⟨glyph, entry, exit, rfl⟩
  · exact .feature body (List.mem_singleton_self _)
  · exact .lookup body named
  · exact .lookupFlag flag
  · exact .position _

/-- What the writer adds fits the file. -/
theorem fits_additions :
    Contribution.Fits { appended := writer.additions context file } file := by
  have noClass : definedGlyphClasses (writer.additions context file) = [] ∧
      definedMarkClasses (writer.additions context file) = [] := by
    constructor <;>
    · refine List.filterMap_eq_nil_iff.mpr fun statement listed => ?_
      rcases of_mem_visit_additions listed with
        ⟨body, rfl⟩ | ⟨name, body, rfl, -⟩ | ⟨flag, rfl, -⟩ | ⟨glyph, entry, exit, rfl⟩ <;> rfl
  refine ⟨by simp, ?_, ⟨file.classNames, ?_⟩, fun name listed => ?_,
    fun statement listed name used => ?_, fun statement listed name used => ?_⟩
  · dsimp only
    rcases writer.additions_cases context file with none | same
    · rw [none]
      exact ⟨file.lookupNames, by simpa [definedLookups] using NewNames.start _⟩
    · obtain ⟨after, new⟩ :=
        CursivePlan.lookups_newNames file.lookupNames (plans context file)
      refine ⟨after, ?_⟩
      have noName : ∀ body, lookupName? (.block .feature "curs" body) = none := fun _ => rfl
      rw [same, definedLookups, visit_cons, List.append_nil,
        List.filterMap_cons_none (noName _)]
      exact new
  · dsimp only
    rw [noClass.1]
    exact .start _
  · dsimp only at listed
    rw [noClass.2] at listed
    cases listed
  · rcases of_mem_visit_additions listed with
      ⟨body, rfl⟩ | ⟨name, body, rfl, -⟩ | ⟨flag, rfl, -⟩ | ⟨glyph, entry, exit, rfl⟩ <;>
        cases used
  · rcases of_mem_visit_additions listed with
      ⟨body, rfl⟩ | ⟨name, body, rfl, -⟩ | ⟨flag, rfl, plain⟩ | ⟨glyph, entry, exit, rfl⟩
    · cases used
    · cases used
    · rw [classUses, plain] at used
      cases used
    · cases used

end CursiveWriter

end FontCompiler
