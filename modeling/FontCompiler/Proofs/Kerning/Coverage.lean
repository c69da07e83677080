import FontCompiler.Kerning.Pair

/-!
# What pairs cover

A pair covers the glyphs of its first side together with those of its second.
Cutting a side changes its members but neither its name nor its kind, so these
two say from which entry of the kerning a part comes.
-/

namespace FontCompiler

/-- The kind and the name of a side, which cutting the side leaves as they are. -/
abbrev SideLabel := Bool × String

namespace KernSide

def label (side : KernSide) : SideLabel := (side.isGroup, side.name)

/-- A side cut out of another side. -/
structure PartOf (part side : KernSide) : Prop where
  label_eq : part.label = side.label
  subset : ∀ glyph ∈ part.glyphs, glyph ∈ side.glyphs

theorem PartOf.refl (side : KernSide) : PartOf side side := ⟨rfl, fun _ listed => listed⟩

end KernSide

namespace KerningPair

variable {α : Type}

/-- Which sides of a pair are groups. -/
def level (pair : KerningPair α) : Bool × Bool := (pair.first.isGroup, pair.second.isGroup)

def label (pair : KerningPair α) : SideLabel × SideLabel := (pair.first.label, pair.second.label)

/-- Whether a pair applies to two glyphs. -/
def Covers (pair : KerningPair α) (first second : GlyphName) : Prop :=
  first ∈ pair.first.glyphs ∧ second ∈ pair.second.glyphs

instance (pair : KerningPair α) (first second : GlyphName) : Decidable (pair.Covers first second) :=
  inferInstanceAs (Decidable (_ ∧ _))

theorem eq_of_sides {pair other : KerningPair α} (firsts : pair.first = other.first)
    (seconds : pair.second = other.second) (values : pair.value = other.value) : pair = other := by
  cases pair
  cases other
  cases firsts
  cases seconds
  cases values
  rfl

theorem level_eq_of_label_eq {pair other : KerningPair α} (same : pair.label = other.label) :
    pair.level = other.level :=
  congrArg (fun label : SideLabel × SideLabel => (label.1.1, label.2.1)) same

/-- A pair whose sides are cut out of those of another pair, with the same value. -/
structure PartOf (part pair : KerningPair α) : Prop where
  first : part.first.PartOf pair.first
  second : part.second.PartOf pair.second
  value_eq : part.value = pair.value

namespace PartOf

theorem label_eq {part pair : KerningPair α} (cut : PartOf part pair) : part.label = pair.label :=
  Prod.ext cut.first.label_eq cut.second.label_eq

theorem covers {part pair : KerningPair α} (cut : PartOf part pair) {first second : GlyphName}
    (covered : part.Covers first second) : pair.Covers first second :=
  ⟨cut.first.subset first covered.1, cut.second.subset second covered.2⟩

end PartOf

end KerningPair

variable {α : Type}

/-- A list of pairs gives two glyphs a value by a pair with a label. -/
def Kerns (pairs : List (KerningPair α)) (first second : GlyphName)
    (label : SideLabel × SideLabel) (value : α) : Prop :=
  ∃ pair ∈ pairs, pair.Covers first second ∧ pair.label = label ∧ pair.value = value

/-- Pairs with the same label have the same value. -/
def LabelsAgree (pairs : List (KerningPair α)) : Prop :=
  ∀ pair ∈ pairs, ∀ other ∈ pairs, pair.label = other.label → pair.value = other.value

theorem LabelsAgree.of_parts {parts pairs : List (KerningPair α)} (agree : LabelsAgree pairs)
    (cut : ∀ part ∈ parts, ∃ pair ∈ pairs, part.PartOf pair) : LabelsAgree parts := by
  intro part member other otherMember same
  obtain ⟨pair, listed, pairCut⟩ := cut part member
  obtain ⟨otherPair, otherListed, otherCut⟩ := cut other otherMember
  have labels : pair.label = otherPair.label :=
    pairCut.label_eq.symm.trans (same.trans otherCut.label_eq)
  calc part.value = pair.value := pairCut.value_eq
    _ = otherPair.value := agree pair listed otherPair otherListed labels
    _ = other.value := otherCut.value_eq.symm

/-- Cutting pairs covers nothing new. -/
theorem Kerns.of_parts {parts pairs : List (KerningPair α)}
    (cut : ∀ part ∈ parts, ∃ pair ∈ pairs, part.PartOf pair) {first second : GlyphName}
    {label : SideLabel × SideLabel} {value : α} (kerned : Kerns parts first second label value) :
    Kerns pairs first second label value := by
  obtain ⟨part, member, covered, rfl, rfl⟩ := kerned
  obtain ⟨pair, listed, partCut⟩ := cut part member
  exact ⟨pair, listed, partCut.covers covered, partCut.label_eq.symm, partCut.value_eq.symm⟩

/-- Cutting pairs loses nothing as long as some part of each still covers what the pair covers. -/
theorem Kerns.to_parts {parts pairs : List (KerningPair α)} {first second : GlyphName}
    (whole : ∀ pair ∈ pairs, pair.Covers first second →
      ∃ part ∈ parts, part.PartOf pair ∧ part.Covers first second)
    {label : SideLabel × SideLabel} {value : α} (kerned : Kerns pairs first second label value) :
    Kerns parts first second label value := by
  obtain ⟨pair, listed, covered, rfl, rfl⟩ := kerned
  obtain ⟨part, member, partCut, partCovers⟩ := whole pair listed covered
  exact ⟨part, member, partCovers, partCut.label_eq, partCut.value_eq⟩

end FontCompiler
