import FontCompiler.Feature.File

/-!
# Anchors that belong together

A mark anchor is named like the anchors to which it attaches, with an underscore
in front. It attaches to the anchor of that name on a base, and to the numbered
anchors of that name on the parts of a ligature.
-/

namespace FontCompiler

/-- An anchor of bases, and the anchor of marks that attach to it. -/
structure AnchorPair where
  base : String
  mark : String
  deriving DecidableEq, Repr

/-- The numbered anchors of ligatures, and the anchor of marks that attach to them. -/
structure AnchorChain where
  parts : List String
  mark : String
  deriving DecidableEq, Repr

def attachedName? (mark : String) : Option String :=
  match mark.toList with
  | '_' :: first :: rest => some (String.ofList (first :: rest))
  | _ => none

/-- The numbered anchors of a name, from one up to the first number that is missing. -/
def numberedChain (names : SortedSet String) (base : String) : List String :=
  ((List.range names.size).map fun index => numberedName base (index + 1)).takeWhile
    fun name => decide (name ∈ names)

def anchorPairs (names : SortedSet String) : List AnchorPair :=
  names.toList.filterMap fun mark =>
    match attachedName? mark with
    | some base => if base ∈ names then some ⟨base, mark⟩ else none
    | none => none

def anchorChains (names : SortedSet String) : List AnchorChain :=
  names.toList.filterMap fun mark =>
    match attachedName? mark with
    | some base =>
        let parts := numberedChain names base
        if parts.isEmpty then none else some ⟨parts, mark⟩
    | none => none

end FontCompiler
