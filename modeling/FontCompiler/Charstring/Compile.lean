import FontCompiler.Charstring.Encoding
import FontCompiler.Outline.Flatten

/-!
# Compiling glyphs to charstrings

A glyph's program draws its flattened outline. Before the glyphs of a whole view
are compiled, a cycle among their references is refused.
-/

namespace FontCompiler

structure CharstringOptions (α : Type) where
  /-- Whether points and widths are rounded, a half going up. -/
  round : Bool := true
  /-- The advance that programs leave out. -/
  defaultWidth : Option α := none
  /-- The value that written widths are relative to. -/
  nominalWidth : α

namespace CharstringOptions

variable {α : Type} [Coordinate α]

/-- The width written for an advance, if any. -/
def writtenWidth? (options : CharstringOptions α) (advance : α) : Option α :=
  if options.defaultWidth.any fun width => Coordinate.equals width advance then none
  else some (advance - options.nominalWidth)

end CharstringOptions

namespace FontView

variable {α : Type} [Coordinate α]

def charstring (view : FontView α) (options : CharstringOptions α) (width : Option α)
    (glyph : Glyph α) : CharstringProgram α :=
  .ofEvents options.round width (view.flatEvents glyph.events)

def charstrings (view : FontView α) (options : CharstringOptions α) :
    Except FontError (List (GlyphName × CharstringProgram α)) :=
  view.checkCycles.map fun _ => view.glyphsInOrder.map fun glyph =>
    (glyph.name, view.charstring options (options.writtenWidth? glyph.width) glyph)

def charstringSkips (view : FontView α) : List SkippedComponent :=
  view.glyphsInOrder.flatMap fun glyph => view.skippedComponents glyph.events

def charstringsMessage (programs : List (GlyphName × CharstringProgram α)) : String :=
  "compiled " ++ toString programs.length ++ " charstring(s)"

end FontView

end FontCompiler
