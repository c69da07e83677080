import FontCompiler.Attachment.AnchorPair
import FontCompiler.Attachment.MarkClass

/-!
# The mark features

Marks attach to bases and to parts of ligatures in one feature, and to other
marks in another. Each pair of anchors has a lookup of its own.
-/

namespace FontCompiler

structure MarkWriter where
  overlap : OverlapPolicy := .skip
  /-- The step of the grid to which anchors go down. -/
  quantization : Nat := 1
  deriving DecidableEq, Repr

/-- The names in use, and the lookups made with them. -/
structure MarkDraft where
  classes : MarkClasses
  lookupNames : SortedSet String
  lookups : List Statement := []

namespace MarkDraft

def addLookup (name : String) (body : List Statement) (draft : MarkDraft) : MarkDraft :=
  { draft with
    lookupNames := draft.lookupNames.insert name
    lookups := draft.lookups ++ [.block .lookup name body] }

/-- The glyphs with an anchor among marks or among other glyphs, and its places. -/
def attachable (glyphs : List AnchoredGlyph) (marks : Bool) (anchor : String) :
    List (GlyphName × Place) :=
  (glyphs.filter fun anchored => anchored.isMark == marks).filterMap fun anchored =>
    (anchored.place? anchor).map fun place => (anchored.glyph, place)

/-- Add the lookup that attaches marks to bases by a pair of anchors. -/
def addBasePair (file : FeatureFile) (glyphs : List AnchoredGlyph) (draft : MarkDraft)
    (numbered : AnchorPair × Nat) : MarkDraft :=
  let bases := attachable glyphs false numbered.1.base
  if bases.isEmpty then draft
  else
    match draft.classes.use? file glyphs numbered.1.mark with
    | none => draft
    | some (className, classes) =>
        let name := freshName ("mark" ++ toString (numbered.2 + 1)) draft.lookupNames
        let rules := bases.map fun (base, place) =>
          Statement.position (.markToBase base [⟨place, className⟩])
        addLookup name rules { draft with classes := classes }

/-- The ligatures with the first anchor of a chain, and the places of the chain on each. -/
def ligatures (glyphs : List AnchoredGlyph) (parts : List String) :
    List (GlyphName × List Place) :=
  (glyphs.filter fun anchored => !anchored.isMark).filterMap fun anchored =>
    let places := (parts.map anchored.place?).takeWhile Option.isSome
    if places.isEmpty then none else some (anchored.glyph, places.filterMap id)

/-- Add the lookup that attaches marks to ligatures by a chain of anchors. -/
def addChain (file : FeatureFile) (glyphs : List AnchoredGlyph) (draft : MarkDraft)
    (numbered : AnchorChain × Nat) : MarkDraft :=
  let ligatures := ligatures glyphs numbered.1.parts
  if ligatures.isEmpty then draft
  else
    match draft.classes.use? file glyphs numbered.1.mark with
    | none => draft
    | some (className, classes) =>
        let name := freshName ("mark2liga" ++ toString (numbered.2 + 1)) draft.lookupNames
        let rules := ligatures.map fun (ligature, places) =>
          Statement.position (.markToLigature ligature
            (places.map fun place => [⟨place, className⟩]))
        addLookup name rules { draft with classes := classes }

/-- Add the lookup that attaches marks to marks by a pair of anchors. The lookup
sees only the marks that attach and those that they attach to. -/
def addMarkPair (file : FeatureFile) (glyphs : List AnchoredGlyph) (draft : MarkDraft)
    (numbered : AnchorPair × Nat) : MarkDraft :=
  let bases := attachable glyphs true numbered.1.base
  if bases.isEmpty then draft
  else
    match draft.classes.use? file glyphs numbered.1.mark with
    | none => draft
    | some (className, classes) =>
        let name := freshName ("mkmk" ++ toString (numbered.2 + 1)) draft.lookupNames
        let filterName := freshClassName (name ++ "MkAttach") classes.taken
        let seen := SortedSet.ofList ((attachable glyphs true numbered.1.mark).map Prod.fst ++
          bases.map Prod.fst)
        let rules := bases.map fun (base, place) =>
          Statement.position (.markToMark base [⟨place, className⟩])
        addLookup name
          (.glyphClass ⟨filterName, seen.toList⟩ ::
            .lookupFlag { filterClass := some filterName } :: rules)
          { draft with classes := { classes with taken := classes.taken.insert filterName } }

/-- Add the lookups of the feature for bases and ligatures. -/
def addMarks (file : FeatureFile) (glyphs : List AnchoredGlyph) (names : SortedSet String)
    (draft : MarkDraft) : MarkDraft :=
  (anchorChains names).zipIdx.foldl (addChain file glyphs)
    ((anchorPairs names).zipIdx.foldl (addBasePair file glyphs) draft)

def addMarksToMarks (file : FeatureFile) (glyphs : List AnchoredGlyph) (names : SortedSet String)
    (draft : MarkDraft) : MarkDraft :=
  (anchorPairs names).zipIdx.foldl (addMarkPair file glyphs) draft

def block (name : String) (draft : MarkDraft) : List Statement :=
  if draft.lookups.isEmpty then [] else [.block .feature name draft.lookups]

end MarkDraft

namespace MarkWriter

def features : List String := ["mark", "mkmk"]

def writerName : String := "MarkFeatureWriter"

def statements (file : FeatureFile) (wanted : List String) (glyphs : List AnchoredGlyph) :
    List Statement :=
  let names := SortedSet.ofList
    (glyphs.flatMap fun anchored => anchored.anchors.map Prod.fst)
  let start : MarkDraft :=
    { classes := { taken := file.classNames }, lookupNames := file.lookupNames }
  let marks := if wanted.contains "mark" then start.addMarks file glyphs names else start
  let between := if wanted.contains "mkmk" then
      { marks with lookups := [] }.addMarksToMarks file glyphs names
    else { marks with lookups := [] }
  let blocks := marks.block "mark" ++ between.block "mkmk"
  if blocks.isEmpty then [] else between.classes.definitions ++ blocks

variable {α : Type} [Coordinate α]

def write (writer : MarkWriter) (context : LayoutContext α) (file : FeatureFile) :
    Except WriterError (Written α) :=
  if writer.quantization = 0 then .error .zeroQuantization
  else
    let wanted := wantedFeatures writer.overlap file features
    let notices := existingFeatures writerName writer.overlap file features
    if wanted.isEmpty then .ok (.unchanged file notices)
    else
      let classes := context.glyphClasses? file
      let glyphs := context.view.glyphsInOrder.filterMap
        (anchoredGlyph? writer.quantization classes)
      .ok (.appending (statements file wanted glyphs) file
        (notices ++ context.view.glyphsInOrder.flatMap (anchorNotices classes)))

end MarkWriter

end FontCompiler
