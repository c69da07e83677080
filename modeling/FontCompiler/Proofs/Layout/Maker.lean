import FontCompiler.Layout.Run
import FontCompiler.Proofs.Feature.Name
import FontCompiler.Proofs.Feature.Walk

/-!
# Which writer makes what

The first letters of the name of a lookup or of a class tell which kind of writer
takes such names. A number at the end of a name, or characters left out of it, do
not change them, so no kind of writer ever takes a name that another would want.
-/

namespace FontCompiler

/-- The kind of writer that takes such a name for a lookup. -/
def lookupMaker? (name : String) : Option BuiltinKind :=
  match name.toList with
  | 'k' :: _ => some .kern
  | 'm' :: _ => some .mark
  | 'c' :: _ => some .cursive
  | _ => none

/-- The kind of writer that takes such a name for a class. -/
def classMaker? (name : String) : Option BuiltinKind :=
  match name.toList with
  | 'k' :: _ => some .kern
  | 'M' :: 'F' :: _ => some .kern
  | 'm' :: _ => some .mark
  | 'M' :: 'C' :: _ => some .mark
  | _ => none

section Makers

variable {kind : BuiltinKind} {name : String}

theorem lookupMaker?_append (made : lookupMaker? name = some kind) (rest : String) :
    lookupMaker? (name ++ rest) = some kind := by
  unfold lookupMaker? at made ⊢
  rw [String.toList_append]
  split at made
  · next letters => simpa [letters] using made
  · next letters => simpa [letters] using made
  · next letters => simpa [letters] using made
  · cases made

theorem lookupMaker?_freshName (made : lookupMaker? name = some kind) (taken : SortedSet String) :
    lookupMaker? (freshName name taken) = some kind := by
  obtain ⟨rest, same⟩ := exists_freshName_eq name taken
  rw [same]
  exact lookupMaker?_append made rest

theorem classMaker?_append (made : classMaker? name = some kind) (rest : String) :
    classMaker? (name ++ rest) = some kind := by
  unfold classMaker? at made ⊢
  rw [String.toList_append]
  split at made
  · next letters => simpa [letters] using made
  · next letters => simpa [letters] using made
  · next letters => simpa [letters] using made
  · next letters => simpa [letters] using made
  · cases made

/-- The telling letters may stand in the name of a class. -/
theorem classMaker?_filter (made : classMaker? name = some kind) :
    classMaker? (String.ofList (name.toList.filter isClassNameChar)) = some kind := by
  have keptK : isClassNameChar 'k' = true := rfl
  have keptM : isClassNameChar 'M' = true := rfl
  have keptF : isClassNameChar 'F' = true := rfl
  have keptm : isClassNameChar 'm' = true := rfl
  have keptC : isClassNameChar 'C' = true := rfl
  unfold classMaker? at made ⊢
  rw [String.toList_ofList]
  split at made
  · next letters => simpa [letters, keptK] using made
  · next letters => simpa [letters, keptM, keptF] using made
  · next letters => simpa [letters, keptm] using made
  · next letters => simpa [letters, keptM, keptC] using made
  · cases made

theorem classMaker?_freshClassName (made : classMaker? name = some kind)
    (taken : SortedSet String) : classMaker? (freshClassName name taken) = some kind := by
  unfold freshClassName
  obtain ⟨rest, same⟩ :=
    exists_freshName_eq (String.ofList (name.toList.filter isClassNameChar)) taken
  rw [same]
  exact classMaker?_append (classMaker?_filter made) rest

/-- The name of a mark lookup begins like that of a class for marks. -/
theorem classMaker?_of_lookupMaker?_mark (made : lookupMaker? name = some .mark) :
    classMaker? name = some .mark := by
  unfold lookupMaker? at made
  unfold classMaker?
  split at made
  · cases made
  · next letters =>
      rw [letters]
      rfl
  · cases made
  · cases made

end Makers

/-- Whether two sets of taken names have the same names of a kind of writer. -/
def AgreeFor (maker? : String → Option BuiltinKind) (kind : BuiltinKind)
    (taken other : SortedSet String) : Prop :=
  ∀ name, maker? name = some kind → (name ∈ taken ↔ name ∈ other)

section Agreement

variable {maker? : String → Option BuiltinKind} {kind : BuiltinKind}
  {taken other : SortedSet String} {name : String}

theorem AgreeFor.insert (agree : AgreeFor maker? kind taken other) (name : String) :
    AgreeFor maker? kind (taken.insert name) (other.insert name) := by
  intro further made
  rw [SortedSet.mem_insert, SortedSet.mem_insert, agree further made]

/-- A fresh name depends on the taken names of its own kind only. -/
theorem AgreeFor.freshName_eq (agree : AgreeFor lookupMaker? kind taken other)
    (made : lookupMaker? name = some kind) : freshName name taken = freshName name other :=
  freshName_congr fun rest => agree _ (lookupMaker?_append made rest)

theorem AgreeFor.freshClassName_eq (agree : AgreeFor classMaker? kind taken other)
    (made : classMaker? name = some kind) : freshClassName name taken = freshClassName name other :=
  freshName_congr fun rest => agree _ (classMaker?_append (classMaker?_filter made) rest)

end Agreement

def BuiltinKind.features : BuiltinKind → List String
  | kern => KernWriter.features
  | mark => MarkWriter.features
  | cursive => CursiveWriter.features
  | definitions => []

theorem BuiltinKind.eq_of_mem_features {kind other : BuiltinKind} {feature : String}
    (listed : feature ∈ kind.features) (again : feature ∈ other.features) : kind = other := by
  have apart : ∀ kind other : BuiltinKind, ∀ feature ∈ kind.features,
      feature ∈ other.features → kind = other := by
    intro kind other
    cases kind <;> cases other <;> decide
  exact apart kind other feature listed again

namespace Statement

/-- What a kind of writer may write, taken without what is inside it. -/
inductive MadeBy : BuiltinKind → Statement → Prop where
  | comment {kind : BuiltinKind} (text : String) : MadeBy kind (.comment text)
  | script {kind : BuiltinKind} (tag : Tag) : MadeBy kind (.script tag)
  | language {kind : BuiltinKind} (tag : Tag) : MadeBy kind (.language tag)
  | lookupReference {kind : BuiltinKind} (name : String) : MadeBy kind (.lookupReference name)
  | lookupFlag {kind : BuiltinKind} (flag : LookupFlag) : MadeBy kind (.lookupFlag flag)
  | position {kind : BuiltinKind} (rule : PositionRule) : MadeBy kind (.position rule)
  | glyphClass {kind : BuiltinKind} {definition : GlyphClass} :
      classMaker? definition.name = some kind → MadeBy kind (.glyphClass definition)
  | markClass {entry : MarkClassEntry} :
      classMaker? entry.className = some .mark → MadeBy .mark (.markClass entry)
  | lookup {kind : BuiltinKind} {name : String} (body : List Statement) :
      lookupMaker? name = some kind → MadeBy kind (.block .lookup name body)
  | feature {kind : BuiltinKind} {name : String} (body : List Statement) :
      name ∈ kind.features → MadeBy kind (.block .feature name body)
  | table (body : List Statement) :
      MadeBy .definitions (.block .table FeatureFile.definitionBlock body)
  | glyphClassLists (lists : GlyphClassLists) : MadeBy .definitions (.glyphClassLists lists)
  | ligatureCarets (glyph : GlyphName) (positions : List Int) :
      MadeBy .definitions (.ligatureCarets glyph positions)

/-- Whether a kind of writer may write all of some statements and what is inside them. -/
def AllMadeBy (kind : BuiltinKind) (statements : List Statement) : Prop :=
  ∀ statement ∈ visit statements, statement.MadeBy kind

namespace AllMadeBy

variable {kind : BuiltinKind} {statements : List Statement}

theorem nil : AllMadeBy kind [] := by
  intro statement listed
  rw [visit_nil] at listed
  cases listed

theorem append {others : List Statement} (made : AllMadeBy kind statements)
    (otherMade : AllMadeBy kind others) : AllMadeBy kind (statements ++ others) := by
  intro statement listed
  rw [visit_append] at listed
  exact (List.mem_append.mp listed).elim (made statement) (otherMade statement)

/-- Statements are made by a kind when each is, with what is inside it. -/
theorem of_forall (made : ∀ statement ∈ statements,
    statement.MadeBy kind ∧ AllMadeBy kind statement.children) : AllMadeBy kind statements := by
  intro found listed
  obtain ⟨statement, member, rfl | inside⟩ := mem_visit.mp listed
  · exact (made _ member).1
  · exact (made statement member).2 found inside

theorem of_flat (flat : ∀ statement ∈ statements, statement.children = [])
    (made : ∀ statement ∈ statements, statement.MadeBy kind) : AllMadeBy kind statements := by
  refine of_forall fun statement listed => ⟨made statement listed, ?_⟩
  rw [flat statement listed]
  exact nil

theorem madeBy (made : AllMadeBy kind statements) {statement : Statement}
    (listed : statement ∈ statements) : statement.MadeBy kind :=
  made statement (mem_visit.mpr ⟨statement, listed, .inl rfl⟩)

end AllMadeBy

end Statement

end FontCompiler
