import FontCompiler.Layout.Writer

/-!
# The table of glyph definitions

The table lists the glyphs of each layout class, as the font's categories assign
them, and the carets of ligatures, as their anchors place them.
-/

namespace FontCompiler

structure DefinitionWriter where
  overlap : OverlapPolicy := .skip
  deriving DecidableEq, Repr

section Definitions

variable {α : Type}

def FontView.glyphsOfCategory (view : FontView α) (category : GlyphCategory) : List GlyphName :=
  view.glyphOrder.filter fun name => decide (view.categories.get? name = some category)

/-- The lists of all layout classes, if the font has categories. -/
def FontView.glyphClassLists? (view : FontView α) : Option GlyphClassLists :=
  if view.categories.isEmpty then none
  else some ⟨view.glyphsOfCategory .base, view.glyphsOfCategory .ligature,
    view.glyphsOfCategory .mark, view.glyphsOfCategory .component⟩

variable [Coordinate α]

def Anchor.caret? (anchor : Anchor α) : Option Int :=
  match anchor.role? with
  | some (.caret vertical) =>
      some (Coordinate.toInt32 (Coordinate.roundHalfUp
        (if vertical then anchor.position.y else anchor.position.x)))
  | _ => none

def Glyph.carets (glyph : Glyph α) : List Int :=
  (SortedSet.ofList (glyph.anchors.filterMap Anchor.caret?)).toList

/-- The carets of the glyphs that have any, in glyph order. -/
def FontView.caretStatements (view : FontView α) : List (GlyphName × List Int) :=
  (view.glyphsInOrder.map fun glyph => (glyph.name, glyph.carets)).filter
    fun entry => !entry.2.isEmpty

end Definitions

def declaresClasses (table : List Statement) : Bool :=
  table.any fun
    | .glyphClassLists _ => true
    | _ => false

def glyphsWithCarets (table : List Statement) : List GlyphName :=
  table.filterMap fun
    | .ligatureCarets glyph _ => some glyph
    | _ => none

namespace DefinitionWriter

def writerName : String := "GdefFeatureWriter"

variable {α : Type} [Coordinate α]

def missing (view : FontView α) (table : List Statement) : List Statement :=
  (if declaresClasses table then []
    else view.glyphClassLists?.toList.map Statement.glyphClassLists) ++
  (view.caretStatements.filter fun entry => !(glyphsWithCarets table).contains entry.1).map
    fun entry => .ligatureCarets entry.1 entry.2

/-- Write the table, or complete the first one that the file has. -/
def write (writer : DefinitionWriter) (context : LayoutContext α) (file : FeatureFile) :
    Written α :=
  match file.table? FeatureFile.definitionBlock with
  | some table =>
      if writer.overlap = .skip then
        .unchanged file [.tableExists writerName FeatureFile.definitionBlock]
      else
        let added := missing context.view table
        if added.isEmpty then .unchanged file []
        else ⟨file.extendTable FeatureFile.definitionBlock added, true, []⟩
  | none =>
      let added := missing context.view []
      .appending (if added.isEmpty then [] else [.block .table FeatureFile.definitionBlock added])
        file []

end DefinitionWriter

end FontCompiler
