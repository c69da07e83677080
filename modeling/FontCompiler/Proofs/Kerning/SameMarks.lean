import FontCompiler.Proofs.Collection.Sorting
import FontCompiler.Proofs.Kerning.Groups
import FontCompiler.Proofs.Kerning.Written

/-!
# Marks among the kerned glyphs

How pairs are divided between bases and marks depends only on which of the kerned
glyphs are marks. Marks that are not in the font make no difference.
-/

namespace FontCompiler

namespace KernSide

variable {marks others : SortedSet GlyphName} {side : KernSide}

theorem splitMarks_congr (same : ∀ glyph ∈ side.glyphs, (glyph ∈ marks ↔ glyph ∈ others)) :
    side.splitMarks marks = side.splitMarks others := by
  cases side with
  | glyph name =>
      have membership := same name (List.mem_singleton_self name)
      simp only [splitMarks, membership]
  | group name members =>
      have bases : (members.filter fun glyph => decide (glyph ∉ marks)) =
          members.filter fun glyph => decide (glyph ∉ others) :=
        SortedSet.filter_congr fun glyph held => decide_eq_decide.mpr (not_congr (same glyph held))
      have marked : (members.filter fun glyph => decide (glyph ∈ marks)) =
          members.filter fun glyph => decide (glyph ∈ others) :=
        SortedSet.filter_congr fun glyph held => decide_eq_decide.mpr (same glyph held)
      rw [splitMarks, splitMarks, bases, marked]

/-- Where nothing is a mark, a side with glyphs is the part of its bases. -/
theorem splitMarks_of_isEmpty (none : marks.isEmpty = true) (inhabited : side.glyphs ≠ []) :
    side.splitMarks marks = (some side, Option.none) := by
  have unmarked : ∀ glyph, glyph ∉ marks := fun glyph held => by
    rw [SortedSet.mem_def, List.isEmpty_iff.mp none] at held
    cases held
  cases side with
  | glyph name => simp [splitMarks, unmarked]
  | group name members =>
      have bases : (members.filter fun glyph => decide (glyph ∉ marks)) = members :=
        SortedSet.ext fun glyph => by simp [unmarked]
      have marked : (members.filter fun glyph => decide (glyph ∈ marks)) = ∅ :=
        SortedSet.ext fun glyph => by simp [unmarked]
      have some : members.isEmpty = false := List.isEmpty_eq_false_iff.mpr inhabited
      rw [splitMarks, bases, marked]
      dsimp only
      rw [some]
      rfl

end KernSide

section Pairs

variable {α : Type} {marks others : SortedSet GlyphName} {pairs : List (KerningPair α)}

theorem basePairs_eq_flatMap
    (inhabited : ∀ pair ∈ pairs, pair.first.glyphs ≠ [] ∧ pair.second.glyphs ≠ []) :
    basePairs marks pairs = pairs.flatMap (basePart marks) := by
  unfold basePairs
  split
  · next none =>
      have whole : ∀ pair ∈ pairs, basePart marks pair = [pair] := fun pair listed => by
        obtain ⟨first, second⟩ := inhabited pair listed
        rw [basePart, KernSide.splitMarks_of_isEmpty none first,
          KernSide.splitMarks_of_isEmpty none second]
        rfl
      rw [List.flatMap_congr whole, List.flatMap_singleton']
  · rfl

theorem markPairs_eq_flatMap
    (inhabited : ∀ pair ∈ pairs, pair.first.glyphs ≠ [] ∧ pair.second.glyphs ≠ []) :
    markPairs marks pairs = pairs.flatMap (markParts marks) := by
  unfold markPairs
  split
  · next none =>
      refine (List.flatMap_eq_nil_iff.mpr fun pair listed => ?_).symm
      obtain ⟨first, second⟩ := inhabited pair listed
      rw [markParts, KernSide.splitMarks_of_isEmpty none first,
        KernSide.splitMarks_of_isEmpty none second]
      rfl
  · rfl

/-- The sides of a pair are divided alike by sets with the same marks among its glyphs. -/
theorem splitMarks_sides_congr {pair : KerningPair α}
    (same : ∀ glyph ∈ pair.first.glyphs ++ pair.second.glyphs, (glyph ∈ marks ↔ glyph ∈ others)) :
    pair.first.splitMarks marks = pair.first.splitMarks others ∧
      pair.second.splitMarks marks = pair.second.splitMarks others :=
  ⟨KernSide.splitMarks_congr fun glyph held => same glyph (List.mem_append_left _ held),
    KernSide.splitMarks_congr fun glyph held => same glyph (List.mem_append_right _ held)⟩

theorem basePairs_congr
    (inhabited : ∀ pair ∈ pairs, pair.first.glyphs ≠ [] ∧ pair.second.glyphs ≠ [])
    (same : ∀ pair ∈ pairs, ∀ glyph ∈ pair.first.glyphs ++ pair.second.glyphs,
      (glyph ∈ marks ↔ glyph ∈ others)) : basePairs marks pairs = basePairs others pairs := by
  rw [basePairs_eq_flatMap inhabited, basePairs_eq_flatMap inhabited]
  refine List.flatMap_congr fun pair listed => ?_
  obtain ⟨firsts, seconds⟩ := splitMarks_sides_congr (same pair listed)
  rw [basePart, basePart, firsts, seconds]

theorem markPairs_congr
    (inhabited : ∀ pair ∈ pairs, pair.first.glyphs ≠ [] ∧ pair.second.glyphs ≠ [])
    (same : ∀ pair ∈ pairs, ∀ glyph ∈ pair.first.glyphs ++ pair.second.glyphs,
      (glyph ∈ marks ↔ glyph ∈ others)) : markPairs marks pairs = markPairs others pairs := by
  rw [markPairs_eq_flatMap inhabited, markPairs_eq_flatMap inhabited]
  refine List.flatMap_congr fun pair listed => ?_
  obtain ⟨firsts, seconds⟩ := splitMarks_sides_congr (same pair listed)
  rw [markParts, markParts, firsts, seconds]

variable [Coordinate α]

/-- The sides of the font's kerning pairs hold glyphs of the font, at least one each. -/
theorem sides_of_mem_kernPairs {context : LayoutContext α} {pair : KerningPair α}
    (listed : pair ∈ context.kernPairs) :
    (pair.first.glyphs ≠ [] ∧ pair.second.glyphs ≠ []) ∧
      ∀ glyph ∈ pair.first.glyphs ++ pair.second.glyphs, context.view.contains glyph = true := by
  have ofSide : ∀ {position : KernPosition} {name : String} {side : KernSide},
      context.kernGroups.sideOf? context.view.contains position name = some side →
      side.glyphs ≠ [] ∧ ∀ glyph ∈ side.glyphs, context.view.contains glyph = true := by
    intro position name side found
    have clean := KerningGroups.cleanSide_ofTable context.view.contains context.view.groups position
    rcases KerningGroups.sideOf?_cases found with
      ⟨-, present, rfl⟩ | ⟨short, row, -, rowListed, -, rfl⟩
    · refine ⟨List.cons_ne_nil _ _, fun glyph held => ?_⟩
      rw [List.mem_singleton.mp held]
      exact present
    · exact ⟨clean.inhabited row rowListed, clean.present row rowListed⟩
  obtain ⟨first, second, -, firstFound, secondFound, -⟩ := mem_resolvedPairs.mp listed
  refine ⟨⟨(ofSide firstFound).1, (ofSide secondFound).1⟩, fun glyph held => ?_⟩
  exact (List.mem_append.mp held).elim ((ofSide firstFound).2 glyph) ((ofSide secondFound).2 glyph)

end Pairs

end FontCompiler
