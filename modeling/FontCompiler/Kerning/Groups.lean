import FontCompiler.Kerning.Pair

/-!
# Kerning groups

The names of kerning groups say for which side they are. On each side a glyph
belongs to the first group that lists it, glyphs outside the font are dropped,
and groups without members disappear. The font's kerning is then read against
the groups that remain.
-/

namespace FontCompiler

inductive KernPosition where
  | first
  | second
  deriving DecidableEq, Repr

namespace KernPosition

def marker : KernPosition → String
  | first => "public.kern1."
  | second => "public.kern2."

/-- What follows the marker in the name of a group for the side. -/
def unmarked? (position : KernPosition) (name : String) : Option String :=
  (position.marker.toList.isPrefixOf? name.toList).map String.ofList

def ofGroup? (name : String) : Option KernPosition :=
  if (first.unmarked? name).isSome then some first
  else if (second.unmarked? name).isSome then some second
  else none

end KernPosition

/-- The cleaned groups of both sides, under their full names. -/
structure KerningGroups where
  first : List (String × SortedSet GlyphName)
  second : List (String × SortedSet GlyphName)

/-- A member of a group that an earlier group of the side has, or that the group lists twice. -/
structure RepeatedMember where
  glyph : GlyphName
  owner : String
  group : String
  deriving DecidableEq, Repr

def RepeatedMember.message (repeated : RepeatedMember) : String :=
  "glyph '" ++ repeated.glyph ++ "' is in kerning groups '" ++ repeated.owner ++ "' and '" ++
    repeated.group ++ "', removing it from '" ++ repeated.group ++ "'"

namespace KerningGroups

/-- The cleaned groups of a side, when some glyphs already have their group. -/
def clean (position : KernPosition) (contains : GlyphName → Bool) (claimed : List GlyphName) :
    List (String × List GlyphName) → List (String × SortedSet GlyphName)
  | [] => []
  | (name, listed) :: rest =>
      if (position.unmarked? name).isSome then
        let members := SortedSet.ofList
          (listed.filter fun glyph => contains glyph && !claimed.contains glyph)
        if members.isEmpty then clean position contains claimed rest
        else (name, members) :: clean position contains (claimed ++ members.toList) rest
      else clean position contains claimed rest

/-- The cleaned groups of a font with the given glyphs. -/
def ofTable (contains : GlyphName → Bool) (groups : GroupTable) : KerningGroups where
  first := clean .first contains [] groups.entries
  second := clean .second contains [] groups.entries

/-- The glyphs that have their group on a side, each with that group. -/
abbrev Owners := List ((KernPosition × GlyphName) × String)

/-- The members of a group that have a group already, and the owners after the group. -/
def claimMembers (position : KernPosition) (contains : GlyphName → Bool) (name : String)
    (owners : Owners) : List GlyphName → List RepeatedMember × Owners
  | [] => ([], owners)
  | glyph :: rest =>
      if contains glyph then
        match owners.find? (fun row => decide (row.1 = (position, glyph))) with
        | some row =>
            let (repeats, final) := claimMembers position contains name owners rest
            (⟨glyph, row.2, name⟩ :: repeats, final)
        | none => claimMembers position contains name (((position, glyph), name) :: owners) rest
      else claimMembers position contains name owners rest

def repeatedMembers (contains : GlyphName → Bool) (owners : Owners) :
    List (String × List GlyphName) → List RepeatedMember
  | [] => []
  | (name, listed) :: rest =>
      match KernPosition.ofGroup? name with
      | some position =>
          let (repeats, further) := claimMembers position contains name owners listed
          repeats ++ repeatedMembers contains further rest
      | none => repeatedMembers contains owners rest

def side (groups : KerningGroups) : KernPosition → List (String × SortedSet GlyphName)
  | .first => groups.first
  | .second => groups.second

/-- What a name stands for on a side. A name with the side's marker is that of a
group, also when a glyph has it. -/
def sideOf? (groups : KerningGroups) (contains : GlyphName → Bool) (position : KernPosition)
    (name : String) : Option KernSide :=
  match position.unmarked? name with
  | some short =>
      ((groups.side position).find? fun row => decide (row.1 = name)).map
        fun row => .group short row.2
  | none => if contains name then some (.glyph name) else none

end KerningGroups

section Pairs

variable {α : Type} [Coordinate α]

/-- The pair of a kerning value. A pair of groups without kerning overrides
nothing and is dropped, and so is a pair that names what does not exist. -/
def resolvedPair? (groups : KerningGroups) (contains : GlyphName → Bool)
    (entry : (String × String) × α) : Option (KerningPair α) :=
  match groups.sideOf? contains .first entry.1.1, groups.sideOf? contains .second entry.1.2 with
  | some first, some second =>
      if Coordinate.isZero entry.2 && first.isGroup && second.isGroup then none
      else some ⟨first, second, entry.2⟩
  | _, _ => none

def resolvedPairs (groups : KerningGroups) (contains : GlyphName → Bool)
    (kerning : KerningTable α) : List (KerningPair α) :=
  kerning.entries.filterMap (resolvedPair? groups contains)

end Pairs

/-- The parts of a side that are bases and marks, each only if it is not empty. -/
def KernSide.splitMarks (marks : SortedSet GlyphName) : KernSide → Option KernSide × Option KernSide
  | .glyph name =>
      if name ∈ marks then (none, some (.glyph name)) else (some (.glyph name), none)
  | .group name members =>
      let part (wanted : SortedSet GlyphName) : Option KernSide :=
        if wanted.isEmpty then none else some (.group name wanted)
      (part (members.filter fun glyph => decide (glyph ∉ marks)),
        part (members.filter fun glyph => decide (glyph ∈ marks)))

section Marks

variable {α : Type}

def partPair (value : α) (first second : Option KernSide) : List (KerningPair α) :=
  match first, second with
  | some first, some second => [⟨first, second, value⟩]
  | _, _ => []

def basePart (marks : SortedSet GlyphName) (pair : KerningPair α) : List (KerningPair α) :=
  partPair pair.value (pair.first.splitMarks marks).1 (pair.second.splitMarks marks).1

/-- The parts of a pair with a mark on one side or on both. -/
def markParts (marks : SortedSet GlyphName) (pair : KerningPair α) : List (KerningPair α) :=
  let (firstBases, firstMarks) := pair.first.splitMarks marks
  let (secondBases, secondMarks) := pair.second.splitMarks marks
  partPair pair.value firstBases secondMarks ++ partPair pair.value firstMarks secondBases ++
    partPair pair.value firstMarks secondMarks

def basePairs (marks : SortedSet GlyphName) (pairs : List (KerningPair α)) : List (KerningPair α) :=
  if marks.isEmpty then pairs else pairs.flatMap (basePart marks)

def markPairs (marks : SortedSet GlyphName) (pairs : List (KerningPair α)) : List (KerningPair α) :=
  if marks.isEmpty then [] else pairs.flatMap (markParts marks)

end Marks

end FontCompiler
