import FontCompiler.Kerning.Lookup

/-!
# The kerning features

Kerning lookups are registered under the tags of their script, in the feature
for kerning or, for some scripts, in the feature for distances. The lookups of
the default scripts apply in every script, before its own.
-/

namespace FontCompiler

/-- The lookups registered under each tag of a feature. -/
abbrev Registration := OrderedMap Tag (List String)

namespace Registration

def add (tag : Tag) (lookups : List String) (registration : Registration) : Registration :=
  registration.alter tag [] fun listed => lookups.foldl
    (fun merged lookup => if merged.contains lookup then merged else merged ++ [lookup]) listed

/-- The statements that register lookups under a tag. Languages of their own are
opened so that they use the lookups too. -/
def tagStatements (languages : OrderedMap Tag (List Tag)) (entry : Tag × List String) :
    List Statement :=
  [.comment "", .script entry.1, .language defaultLanguageTag] ++
    entry.2.map Statement.lookupReference ++
    (((languages.get? entry.1).getD []).filter fun language => language != defaultLanguageTag).map
      Statement.language

def statements (languages : OrderedMap Tag (List Tag)) (registration : Registration) :
    List Statement :=
  registration.entries.flatMap (tagStatements languages)

end Registration

def lookupsOfScript (lookups : List KernLookup) (script : Script) : List String :=
  (lookups.filter fun lookup => decide (lookup.script = script)).map KernLookup.name

def defaultLookups (lookups : List KernLookup) : List String :=
  Script.defaults.flatMap (lookupsOfScript lookups)

/-- The scripts under which lookups are registered: those of glyphs, of declared
languages and of pairs. -/
def knownScripts (scriptsByGlyph : ScriptsByGlyph) (languages : OrderedMap Tag (List Tag))
    (pairScripts : SortedSet Script) : SortedSet Script :=
  (SortedSet.ofList (scriptsByGlyph.values.flatMap SortedSet.toList ++
    languages.entries.filterMap (fun entry => Script.ofLayoutTag? entry.1) ++
    pairScripts.toList)).filter fun script => !script.isDefault && script != .unknown

def registerScript (lookups : List KernLookup) (registration : Registration) (script : Script) :
    Registration :=
  let names := defaultLookups lookups ++ lookupsOfScript lookups script
  if names.isEmpty then registration
  else script.layoutTags.foldl (fun current tag => current.add tag names) registration

def kernRegistration (lookups : List KernLookup) (scripts : SortedSet Script) : Registration :=
  let names := defaultLookups lookups
  let start : Registration := if names.isEmpty then ∅ else Registration.add defaultScriptTag names ∅
  (scripts.toList.filter fun script => !Script.distanceKerned.contains script).foldl
    (registerScript lookups) start

def distanceRegistration (lookups : List KernLookup) (scripts : SortedSet Script) : Registration :=
  (scripts.toList.filter fun script => Script.distanceKerned.contains script).foldl
    (registerScript lookups) ∅

def registrationBlock (features : List String) (languages : OrderedMap Tag (List Tag))
    (name : String) (registration : Registration) : List Statement :=
  if features.contains name && !registration.isEmpty then
    [.block .feature name (registration.statements languages)]
  else []

namespace KernWriter

def features : List String := ["kern", "dist"]

def writerName : String := "KernFeatureWriter"

variable {α : Type} [Coordinate α]

/-- The marks that kerning between bases passes over. -/
def marks (writer : KernWriter) (context : LayoutContext α) (file : FeatureFile) :
    SortedSet GlyphName :=
  if writer.ignoreMarks then ((context.glyphClasses? file).map GlyphClasses.mark).getD ∅ else ∅

def setting (writer : KernWriter) (context : LayoutContext α) (file : FeatureFile)
    (pairs : List (KerningPair α)) : KernSetting α :=
  let marks := writer.marks context file
  let scripts := context.scriptsByGlyph file
  { writer
    directions := context.directionsByGlyph file
    spacingMarks := marks.toList.filter fun mark =>
      (context.view.glyph? mark).any fun glyph => !Coordinate.isZero glyph.width
    basePairs := splitByScript scripts (FontCompiler.basePairs marks pairs)
    markPairs := splitByScript scripts (FontCompiler.markPairs marks pairs) }

def blocks (context : LayoutContext α) (file : FeatureFile) (features : List String)
    (setting : KernSetting α) (lookups : List KernLookup) : List Statement :=
  let languages := file.declaredLanguages
  let scripts := knownScripts (context.scriptsByGlyph file) languages setting.scripts
  registrationBlock features languages "kern" (kernRegistration lookups scripts) ++
    registrationBlock features languages "dist" (distanceRegistration lookups scripts)

def writePairs (writer : KernWriter) (context : LayoutContext α) (file : FeatureFile)
    (features : List String) (notices : List (Notice α)) (pairs : List (KerningPair α)) :
    Written α :=
  let marks := writer.marks context file
  let scripts := context.scriptsByGlyph file
  let mixed := (mixedParts scripts (FontCompiler.basePairs marks pairs) ++
    mixedParts scripts (FontCompiler.markPairs marks pairs)).map Notice.mixedScripts
  let setting := writer.setting context file pairs
  let draft := setting.draft file
  let notices := notices ++ mixed ++ draft.notices
  if draft.lookups.isEmpty then .unchanged file notices
  else
    let blocks := blocks context file features setting draft.lookups
    if blocks.isEmpty then .unchanged file notices
    else
      .appending (draft.classNames.definitions ++ [.comment ""] ++
        draft.lookups.map KernLookup.statement ++ blocks) file notices

def write (writer : KernWriter) (context : LayoutContext α) (file : FeatureFile) :
    Except WriterError (Written α) :=
  if writer.quantization = 0 then .error .zeroQuantization
  else
    let wanted := wantedFeatures writer.overlap file features
    let notices := existingFeatures writerName writer.overlap file features
    if wanted.isEmpty then .ok (.unchanged file notices)
    else
      let contains := context.view.contains
      let groups := KerningGroups.ofTable contains context.view.groups
      let repeated := (KerningGroups.repeatedMembers contains [] context.view.groups.entries).map
        Notice.repeatedMember
      let notices := notices ++ repeated
      let pairs := resolvedPairs groups contains context.view.kerning
      if pairs.isEmpty then .ok (.unchanged file notices)
      else .ok (writer.writePairs context file wanted notices pairs)

end KernWriter

end FontCompiler
