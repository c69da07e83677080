import FontCompiler.Attachment.CursiveWriter
import FontCompiler.Attachment.MarkWriter
import FontCompiler.Kerning.Writer
import FontCompiler.Layout.DefinitionWriter

/-!
# Running writers

Writers are known by name, the built-in ones from the start. A run gives one
feature file from writer to writer, writers of substitutions first, because the
others look at what substitutions produce. The run stops at the first writer
that fails and keeps what the writers before it wrote.
-/

namespace FontCompiler

inductive BuiltinWriter where
  | kern (writer : KernWriter)
  | mark (writer : MarkWriter)
  | cursive (writer : CursiveWriter)
  | definitions (writer : DefinitionWriter)
  deriving DecidableEq, Repr

namespace BuiltinWriter

variable {α : Type} [Coordinate α]

def toWriter : BuiltinWriter → Writer α
  | kern writer => ⟨KernWriter.writerName, positionTable, writer.write⟩
  | mark writer => ⟨MarkWriter.writerName, positionTable, writer.write⟩
  | cursive writer =>
      ⟨CursiveWriter.writerName, positionTable, fun context file => .ok (writer.write context file)⟩
  | definitions writer =>
      ⟨DefinitionWriter.writerName, definitionTable,
        fun context file => .ok (writer.write context file)⟩

end BuiltinWriter

inductive BuiltinKind where
  | kern
  | mark
  | cursive
  | definitions
  deriving DecidableEq, Repr

namespace BuiltinKind

/-- All kinds, in the order in which they run by default. -/
def all : List BuiltinKind := [kern, mark, cursive, definitions]

def name : BuiltinKind → String
  | kern => KernWriter.writerName
  | mark => MarkWriter.writerName
  | cursive => CursiveWriter.writerName
  | definitions => DefinitionWriter.writerName

def shortName : BuiltinKind → String
  | kern => "kern"
  | mark => "mark"
  | cursive => "curs"
  | definitions => "gdef"

def read (name : String) : Except WriterError BuiltinKind :=
  match all.find? (fun kind => decide (kind.name = name) || decide (kind.shortName = name)) with
  | some kind => .ok kind
  | none => .error (.unknownWriter name)

def builtin : BuiltinKind → BuiltinWriter
  | kern => .kern {}
  | mark => .mark {}
  | cursive => .cursive {}
  | definitions => .definitions {}

end BuiltinKind

abbrev WriterTable (α : Type) := OrderedMap String (Writer α)

namespace WriterTable

variable {α : Type}

/-- Add a writer, in the place of any under the same name. -/
def add (name : String) (writer : Writer α) (table : WriterTable α) : WriterTable α :=
  table.put (name, writer)

def find (table : WriterTable α) (name : String) : Except WriterError (Writer α) :=
  match table.get? name with
  | some writer => .ok writer
  | none => .error (.unknownWriter name)

variable [Coordinate α]

def builtin : WriterTable α :=
  BuiltinKind.all.foldl (fun table kind => table.add kind.name kind.builtin.toWriter) ∅

end WriterTable

/-- The writers that run when nothing else is asked for. -/
def standardWriters {α : Type} [Coordinate α] : List (Writer α) :=
  BuiltinKind.all.map fun kind => kind.builtin.toWriter

structure WriterReport where
  name : String
  wrote : Bool
  deriving DecidableEq, Repr

/-- What a run of writers leaves behind, also when it fails. -/
structure WriterRun (α : Type) where
  file : FeatureFile
  notices : List (Notice α)
  reports : Except WriterError (List WriterReport)

section Run

variable {α : Type}

def runOrder (writers : List (Writer α)) : List (Writer α) :=
  (writers.filter fun writer => decide (writer.table = substitutionTable)) ++
    writers.filter fun writer => decide (writer.table ≠ substitutionTable)

def runWriters (context : LayoutContext α) (file : FeatureFile) : List (Writer α) → WriterRun α
  | [] => ⟨file, [], .ok []⟩
  | writer :: rest =>
      match writer.write context file with
      | .error error => ⟨file, [], .error error⟩
      | .ok written =>
          let later := runWriters context written.file rest
          { file := later.file
            notices := written.notices ++ later.notices
            reports := later.reports.map fun reports =>
              ⟨writer.name, written.wrote⟩ :: reports }

/-- Run writers on a view of a font, unless two glyphs stand for one codepoint. -/
def FontView.writeLayout (view : FontView α) (characters : CharacterData) (file : FeatureFile)
    (writers : List (Writer α)) : WriterRun α :=
  match LayoutContext.ofView view characters with
  | .error fault => ⟨file, [], .error (.font fault)⟩
  | .ok context => runWriters context file (runOrder writers)

end Run

end FontCompiler
