import FontCompiler.Collection.Remaining
import FontCompiler.Font.Basic
import FontCompiler.Font.Error

/-!
# Cycles of references

The references between the glyphs of a view are walked depth first in glyph
order. A reference to a glyph on the path that led there closes a cycle, which
is a fault of the font. References to glyphs outside the view are not followed.
-/

namespace FontCompiler

namespace FontView

variable {α : Type}

def references (view : FontView α) (name : GlyphName) : List GlyphName :=
  match view.glyph? name with
  | some glyph => (glyph.components.map Component.base).filter fun base => view.contains base
  | none => []

/-- Walk on from the last name of a path to the listed names. The walk ends with
a cycle or with all names that it has settled, from which no cycle can be reached. -/
def settle (view : FontView α) (path settled : List GlyphName) :
    List GlyphName → Except FontError (List GlyphName)
  | [] => .ok settled
  | name :: rest =>
      if name ∈ path then
        .error (.componentCycle name (path.dropWhile (fun other => other != name) ++ [name]))
      else if name ∈ settled then settle view path settled rest
      else if name ∈ view.glyphs.keys then
        match settle view (path ++ [name]) settled (view.references name) with
        | .error fault => .error fault
        | .ok further => settle view path (name :: further) rest
      else settle view path settled rest
termination_by names => (remaining view.glyphs.keys path, names.length)
decreasing_by
  · exact Prod.Lex.right _ (Nat.lt_succ_self _)
  · refine Prod.Lex.left _ _ (remaining_lt ‹_› ‹_› (List.mem_append_right _ List.mem_cons_self) ?_)
    exact fun other visited => List.mem_append_left _ visited
  · exact Prod.Lex.right _ (Nat.lt_succ_self _)
  · exact Prod.Lex.right _ (Nat.lt_succ_self _)

/-- Refuse a view with a cycle of references. -/
def checkCycles (view : FontView α) : Except FontError Unit :=
  (view.settle [] [] view.glyphOrder).map fun _ => ()

end FontView

end FontCompiler
