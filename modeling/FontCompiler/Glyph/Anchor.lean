import FontCompiler.Geometry

/-!
# Anchors

What an anchor is for follows from its name. A leading underscore makes it the
point by which a mark attaches, a trailing number puts it on one part of a
ligature, and some names are kept for cursive joins and ligature carets.
-/

namespace FontCompiler

structure Anchor (α : Type) where
  label : Option String
  position : Point α
  deriving DecidableEq

/-- What an anchor is for. -/
inductive AnchorRole where
  /-- The point on a base to which marks attach. -/
  | base
  /-- The point by which a mark attaches, for anchors of the named kind. -/
  | mark (base : String)
  /-- The point on one part of a ligature, counted from one. -/
  | ligature (base : String) (index : Nat)
  | entry (suffix : Option String)
  | exit (suffix : Option String)
  /-- A place for the caret inside a ligature, measured along the line or across it. -/
  | caret (vertical : Bool)
  deriving DecidableEq, Repr

namespace AnchorRole

/-- The suffix of a cursive anchor: none for the bare stem, else what follows a point. -/
def suffixAfter? (stem name : List Char) : Option (Option String) :=
  match stem.isPrefixOf? name with
  | none => none
  | some [] => some none
  | some ('.' :: char :: rest) => some (some (String.ofList (char :: rest)))
  | some _ => none

/-- A name and the number after its last underscore, if the number fits 32 bits. -/
def numbered? (name : List Char) : Option (String × Nat) :=
  let digits := (name.reverse.takeWhile (fun char => decide (char ≠ '_'))).reverse
  let rest := (name.reverse.dropWhile (fun char => decide (char ≠ '_'))).tail.reverse
  let index := digits.foldl (fun value digit => 10 * value + (digit.toNat - '0'.toNat)) 0
  if !rest.isEmpty && !digits.isEmpty && digits.all Char.isDigit && decide (index < Nat.pow 2 32) then
    some (String.ofList rest, index)
  else none

def ofName (name : String) : AnchorRole :=
  let chars := name.toList
  if "vcaret_".toList.isPrefixOf chars then caret true
  else if "caret_".toList.isPrefixOf chars then caret false
  else
    match suffixAfter? "entry".toList chars, suffixAfter? "exit".toList chars, chars with
    | some suffix, _, _ => entry suffix
    | none, some suffix, _ => exit suffix
    | none, none, '_' :: rest => mark (String.ofList rest)
    | none, none, _ =>
        match numbered? chars with
        | some (stem, index) => ligature stem index
        | none => base

end AnchorRole

namespace Anchor

variable {α : Type}

/-- The name, if there is one; an empty name counts as none. -/
def name? (anchor : Anchor α) : Option String :=
  anchor.label.filter (fun label => !label.isEmpty)

/-- The role, if the anchor has a name. -/
def role? (anchor : Anchor α) : Option AnchorRole := anchor.name?.map AnchorRole.ofName

end Anchor

end FontCompiler
