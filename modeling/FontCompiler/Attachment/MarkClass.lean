import FontCompiler.Attachment.AnchoredGlyph
import FontCompiler.Collection.Sorting
import FontCompiler.Feature.File

/-!
# Mark classes

All marks with a mark anchor form one class, each with the place of its anchor.
A class that the feature file has under the right name is completed when it
agrees with the marks; otherwise the marks get a class of their own.
-/

namespace FontCompiler

structure UsedMarkClass where
  anchor : String
  name : String
  /-- The entries that the feature file lacks. -/
  entries : List MarkClassEntry
  deriving DecidableEq, Repr

/-- The class names that are taken, and the mark classes in use. -/
structure MarkClasses where
  taken : SortedSet String
  used : List UsedMarkClass := []

def marksWithAnchor (glyphs : List AnchoredGlyph) (anchor : String) : List (GlyphName × Place) :=
  sortBy (fun mark other => (compare mark.1 other.1).isLE)
    ((glyphs.filter AnchoredGlyph.isMark).filterMap fun anchored =>
      (anchored.place? anchor).map fun place => (anchored.glyph, place))

namespace MarkClasses

/-- Whether a class of the feature file places no mark elsewhere. -/
def agrees (existing : OrderedMap GlyphName Place) (marks : List (GlyphName × Place)) : Bool :=
  marks.all fun mark => (existing.get? mark.1).all fun place => decide (place = mark.2)

def choose (file : FeatureFile) (taken : SortedSet String) (anchor : String)
    (marks : List (GlyphName × Place)) : UsedMarkClass :=
  let wanted := "MC" ++ anchor
  match (file.markClasses.get? wanted).filter fun existing => agrees existing marks with
  | some existing =>
      let missing := marks.filter fun mark => (existing.get? mark.1).isNone
      ⟨anchor, wanted, missing.map fun mark => ⟨mark.1, mark.2, wanted⟩⟩
  | none =>
      let name := freshClassName wanted taken
      ⟨anchor, name, marks.map fun mark => ⟨mark.1, mark.2, name⟩⟩

/-- The name of the class of an anchor, and the classes after it is in use; none
when no mark has the anchor. -/
def use? (file : FeatureFile) (glyphs : List AnchoredGlyph) (anchor : String)
    (classes : MarkClasses) : Option (String × MarkClasses) :=
  match classes.used.find? (fun used => decide (used.anchor = anchor)) with
  | some used => some (used.name, classes)
  | none =>
      let marks := marksWithAnchor glyphs anchor
      if marks.isEmpty then none
      else
        let used := choose file classes.taken anchor marks
        some (used.name, ⟨classes.taken.insert used.name, classes.used ++ [used]⟩)

def definitions (classes : MarkClasses) : List Statement :=
  (classes.used.flatMap UsedMarkClass.entries).map Statement.markClass

end MarkClasses

end FontCompiler
