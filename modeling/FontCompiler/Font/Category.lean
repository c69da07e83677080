/-!
# Glyph categories

The category that a font assigns to a glyph says in which class of the layout
tables it belongs.
-/

namespace FontCompiler

/-- The layout class of a glyph. -/
inductive GlyphCategory where
  | unassigned
  | base
  | ligature
  | mark
  | component
  deriving DecidableEq, Repr

/-- A text that names no category. -/
structure UnknownCategory where
  text : String
  deriving DecidableEq

def UnknownCategory.message (unknown : UnknownCategory) : String :=
  "unknown OpenType category '" ++ unknown.text ++ "'"

namespace GlyphCategory

def text : GlyphCategory → String
  | unassigned => "unassigned"
  | base => "base"
  | ligature => "ligature"
  | mark => "mark"
  | component => "component"

def all : List GlyphCategory := [unassigned, base, ligature, mark, component]

def read (name : String) : Except UnknownCategory GlyphCategory :=
  match all.find? (fun category => decide (category.text = name)) with
  | some category => .ok category
  | none => .error ⟨name⟩

end GlyphCategory

end FontCompiler
