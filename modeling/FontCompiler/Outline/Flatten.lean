import FontCompiler.Font.ComponentCycle

/-!
# Flattening references

A reference is replaced by the outline of its glyph under the map of the
reference, references in that glyph included. A reference is left out when its
glyph does not exist or is already being drawn.
-/

namespace FontCompiler

inductive SkippedComponent where
  | missing (base : GlyphName)
  /-- The glyph is being drawn further up the chain of references. -/
  | recursive (base : GlyphName)
  deriving DecidableEq, Repr

def SkippedComponent.message : SkippedComponent → String
  | missing base => "component base glyph '" ++ base ++ "' not found; skipped"
  | recursive base => "component '" ++ base ++ "' references itself; skipped"

/-- What becomes of an event when references are flattened. -/
inductive Flattened (α : Type) where
  | drawn (event : OutlineEvent α)
  | skipped (component : SkippedComponent)
  deriving DecidableEq

namespace Flattened

variable {α : Type}

def event? : Flattened α → Option (OutlineEvent α)
  | drawn event => some event
  | skipped _ => none

def skipped? : Flattened α → Option SkippedComponent
  | drawn _ => none
  | skipped component => some component

end Flattened

namespace FontView

variable {α : Type} [Coordinate α]

/-- Draw a reference while the glyphs of a path are being drawn. -/
def expand (view : FontView α) (path : List GlyphName) (base : GlyphName) (map : Affine α) :
    List (Flattened α) :=
  match found : view.part? base with
  | none => [.skipped (.missing base)]
  | some glyph =>
      if base ∈ path then [.skipped (.recursive base)]
      else
        (glyph.contourEvents.map fun event => .drawn (event.transform map)) ++
          glyph.components.flatMap fun part =>
            expand view (base :: path) part.base (map.compose part.transform)
termination_by remaining view.parts.keys path
decreasing_by
  exact remaining_lt (KeyedList.mem_keys_of_find? found) ‹_› List.mem_cons_self
    fun _ visited => List.mem_cons_of_mem _ visited

def flattenEvent (view : FontView α) : OutlineEvent α → List (Flattened α)
  | .component base transform => view.expand [] base (Affine.identity.compose transform)
  | event => [.drawn event]

def flatten (view : FontView α) (events : List (OutlineEvent α)) : List (Flattened α) :=
  events.flatMap view.flattenEvent

def flatEvents (view : FontView α) (events : List (OutlineEvent α)) : List (OutlineEvent α) :=
  (view.flatten events).filterMap Flattened.event?

def skippedComponents (view : FontView α) (events : List (OutlineEvent α)) :
    List SkippedComponent :=
  (view.flatten events).filterMap Flattened.skipped?

end FontView

end FontCompiler
