import FontCompiler.Collection.KeyedList
import FontCompiler.Collection.SortedSet
import FontCompiler.Feature.Statement

/-!
# What a feature file holds

Writers ask a feature file for what its author wrote: its features and tables,
its languages, and the names that are taken. Statements inside blocks count too,
except that features, tables and languages are those of the top level. A wanted
name that is taken gets a number at its end, the least that makes it fresh.
-/

namespace FontCompiler

namespace Statement

mutual

/-- The number of statements in a statement, itself included. -/
def count : Statement → Nat
  | block _ _ body => countAll body + 1
  | _ => 1

def countAll : List Statement → Nat
  | [] => 0
  | first :: rest => count first + countAll rest

end

theorem countAll_append (first second : List Statement) :
    countAll (first ++ second) = countAll first + countAll second := by
  induction first with
  | nil => simp [countAll]
  | cons statement rest ih => simp [countAll, ih, Nat.add_assoc]

theorem countAll_children_lt (statement : Statement) :
    countAll statement.children < statement.count := by
  cases statement <;> simp [children, count, countAll]

/-- Every statement of an agenda, each followed by those inside it. -/
def visit : List Statement → List Statement
  | [] => []
  | first :: rest => first :: visit (first.children ++ rest)
termination_by agenda => countAll agenda
decreasing_by
  have inside := countAll_children_lt first
  rw [countAll_append, countAll]
  omega

end Statement

namespace FeatureFile

def append (statements : List Statement) (file : FeatureFile) : FeatureFile :=
  ⟨file.statements ++ statements⟩

/-- Every statement of the file, depth first. -/
def allStatements (file : FeatureFile) : List Statement := Statement.visit file.statements

def hasFeature (file : FeatureFile) (name : String) : Bool :=
  file.statements.any fun statement => (statement.body? .feature name).isSome

/-- The statements of the first table block with a name. -/
def table? (file : FeatureFile) (name : String) : Option (List Statement) :=
  file.statements.findSome? (Statement.body? .table name)

def hasTable (file : FeatureFile) (name : String) : Bool := (file.table? name).isSome

/-- Add statements to the first table block with a name. -/
def extendFirstTable (name : String) (added : List Statement) : List Statement → List Statement
  | [] => []
  | first :: rest =>
      match first.body? .table name with
      | some body => .block .table name (body ++ added) :: rest
      | none => first :: extendFirstTable name added rest

/-- The file with statements added to its first table block with a name. -/
def extendTable (name : String) (added : List Statement) (file : FeatureFile) : FeatureFile :=
  ⟨extendFirstTable name added file.statements⟩

def languageSystems (file : FeatureFile) : List (Tag × Tag) :=
  file.statements.filterMap fun
    | .languageSystem script language => some (script, language)
    | _ => none

/-- The declared languages of each script, each once, in order of declaration. -/
def declaredLanguages (file : FeatureFile) : OrderedMap Tag (List Tag) :=
  file.languageSystems.foldl
    (fun table entry => table.alter entry.1 [] fun languages =>
      if languages.contains entry.2 then languages else languages ++ [entry.2]) ∅

def classNames (file : FeatureFile) : SortedSet String :=
  .ofList (file.allStatements.filterMap fun
    | .glyphClass definition => some definition.name
    | .markClass entry => some entry.className
    | _ => none)

def lookupNames (file : FeatureFile) : SortedSet String :=
  .ofList (file.allStatements.filterMap fun
    | .block .lookup name _ => some name
    | _ => none)

/-- The places of the glyphs of each mark class; the last entry of a glyph counts. -/
def markClasses (file : FeatureFile) : OrderedMap String (OrderedMap GlyphName Place) :=
  (file.allStatements.filterMap fun
    | .markClass entry => some entry
    | _ => none).foldl
    (fun table entry =>
      table.alter entry.className ∅ fun glyphs => glyphs.put (entry.glyph, entry.place)) ∅

def definitionBlock : String := "GDEF"

def glyphClassLists? (file : FeatureFile) : Option GlyphClassLists :=
  (file.table? definitionBlock).bind fun body => body.findSome? fun
    | .glyphClassLists lists => some lists
    | _ => none

def substitutions (file : FeatureFile) : List SubstitutionRule :=
  file.allStatements.filterMap fun
    | .substitution rule => some rule
    | _ => none

end FeatureFile

def numberedName (name : String) (number : Nat) : String := name ++ "_" ++ toString number

/-- The name, or the name with the least number that is not taken. More numbers
are tried than names are taken, so one of them is fresh. -/
def freshName (name : String) (taken : SortedSet String) : String :=
  if name ∈ taken then
    (((List.range (taken.size + 1)).map fun index => numberedName name (index + 1)).find?
      fun candidate => decide (candidate ∉ taken)).getD name
  else name

/-- Whether a character may stand in the name of a class. -/
def isClassNameChar (char : Char) : Bool :=
  char.isAlphanum || decide (char = '.') || decide (char = '_')

/-- A name of a class made of the characters of a name that may stand in it. -/
def freshClassName (name : String) (taken : SortedSet String) : String :=
  freshName (String.ofList (name.toList.filter isClassNameChar)) taken

end FontCompiler
