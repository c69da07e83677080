import FontCompiler.Charstring.Compile
import FontCompiler.Proofs.Font.Cycle
import FontCompiler.Proofs.Font.GlyphOrder
import FontCompiler.Proofs.Outline.DrawnReferences

/-!
# Cycles that the check misses

Charstrings are compiled only from a view that passes the check for cycles. The check
follows references between the glyphs of the view, whereas drawing also follows those
to hidden glyphs. The cycles that compiled outlines run into are therefore the ones
that pass a hidden glyph.
-/

namespace FontCompiler

open Relation

namespace Font

variable {α : Type} {font : Font α} {name base : GlyphName}

/-- The check follows a drawn reference between exported glyphs. -/
theorem refers_of_draws (draws : font.exported.Draws name base) (nameShown : name ∉ font.hidden)
    (baseShown : base ∉ font.hidden) : font.exported.Refers name base := by
  obtain ⟨glyph, listed, rfl, drawn, present⟩ := draws
  refine ⟨glyph, List.mem_filter.mpr ⟨listed, ?_⟩, rfl, drawn,
    mem_exported_keys.mpr ⟨present, baseShown⟩⟩
  simpa [shows] using nameShown

/-- The check follows a chain of drawn references that passes no hidden glyph. -/
theorem transGen_refers_of_draws {turn : GlyphName} (leads : TransGen font.exported.Draws name turn)
    (shown : ∀ other, ReflTransGen font.exported.Draws name other →
      ReflTransGen font.exported.Draws other turn → other ∉ font.hidden) :
    TransGen font.exported.Refers name turn := by
  induction leads using TransGen.head_induction_on with
  | single draws =>
      exact .single (refers_of_draws draws (shown _ .refl (.single draws))
        (shown _ (.single draws) .refl))
  | head draws later ih =>
      have first := refers_of_draws draws (shown _ .refl (later.to_reflTransGen.head draws))
        (shown _ (.single draws) later.to_reflTransGen)
      exact (ih fun other onward => shown other (onward.head draws)).head first

/-- Drawn references lead from a glyph to a hidden glyph on a cycle. -/
def RunsIntoHiddenCycle (font : Font α) (name : GlyphName) : Prop :=
  ∃ turn ∈ font.hidden, ReflTransGen font.exported.Draws name turn ∧
    TransGen font.exported.Draws turn turn

/-- Where the check passes, the cycles that drawing runs into pass a hidden glyph. -/
theorem runsIntoCycle_iff_hidden (passes : font.exported.checkCycles = .ok ()) :
    font.exported.RunsIntoCycle name ↔ font.RunsIntoHiddenCycle name := by
  constructor
  · rintro ⟨turn, leads, round⟩
    by_contra straight
    -- Every glyph on the cycle is a turn of it that the glyph leads to.
    have shown : ∀ other, ReflTransGen font.exported.Draws turn other →
        ReflTransGen font.exported.Draws other turn → other ∉ font.hidden :=
      fun other onward back hidden => straight
        ⟨other, hidden, leads.trans onward, .trans_right back (round.trans_left onward)⟩
    exact FontView.acyclic_of_checkCycles_eq_ok passes turn (transGen_refers_of_draws round shown)
  · rintro ⟨turn, -, leads, round⟩
    exact ⟨turn, leads, round⟩

variable [Coordinate α]

/-- A reference is left out as recursive from some program of the view exactly when
references run from an exported glyph into a cycle. -/
theorem exists_mem_charstringSkips_iff :
    (∃ base, .recursive base ∈ font.exported.charstringSkips) ↔
      ∃ name ∈ font.exported.glyphOrder, font.exported.RunsIntoCycle name := by
  unfold FontView.charstringSkips FontView.glyphsInOrder
  simp only [List.mem_flatMap, List.mem_filterMap]
  constructor
  · rintro ⟨base, glyph, ⟨name, listed, found⟩, skipped⟩
    exact ⟨name, listed,
      (FontView.exists_mem_skippedComponents_iff (part?_of_exported found)).mp ⟨base, skipped⟩⟩
  · rintro ⟨name, listed, runs⟩
    have present := FontView.contains_iff.mpr (FontView.mem_glyphOrder.mp listed)
    obtain ⟨glyph, found⟩ := Option.isSome_iff_exists.mp present
    obtain ⟨base, skipped⟩ :=
      (FontView.exists_mem_skippedComponents_iff (part?_of_exported found)).mpr runs
    exact ⟨base, glyph, ⟨name, listed, found⟩, skipped⟩

/-- Programs are compiled from outlines without cycles, and without references that are
left out as recursive, exactly when no cycle through a hidden glyph is drawn. -/
theorem charstrings_acyclic_iff {options : CharstringOptions α}
    {programs : List (GlyphName × CharstringProgram α)}
    (compiled : font.exported.charstrings options = .ok programs) :
    ((∀ name ∈ font.exported.glyphOrder, ¬ font.exported.RunsIntoCycle name) ↔
        ∀ name ∈ font.exported.glyphOrder, ¬ font.RunsIntoHiddenCycle name) ∧
      ((∀ base, .recursive base ∉ font.exported.charstringSkips) ↔
        ∀ name ∈ font.exported.glyphOrder, ¬ font.RunsIntoHiddenCycle name) := by
  have passes : font.exported.checkCycles = .ok () := by
    unfold FontView.charstrings at compiled
    cases checked : font.exported.checkCycles with
    | ok _ => rfl
    | error fault =>
        rw [checked] at compiled
        cases compiled
  have cycles : (∀ name ∈ font.exported.glyphOrder, ¬ font.exported.RunsIntoCycle name) ↔
      ∀ name ∈ font.exported.glyphOrder, ¬ font.RunsIntoHiddenCycle name :=
    forall₂_congr fun name _ => not_congr (runsIntoCycle_iff_hidden passes)
  refine ⟨cycles, ?_⟩
  rw [← cycles, ← not_exists, exists_mem_charstringSkips_iff]
  simp only [not_exists, not_and]

end Font

/-- An exported glyph and a hidden one that draw each other. -/
def hiddenLoopFont : Font Rat where
  glyphs := .ofList [
    { name := "a", width := 500, height := 0, components := [⟨"h", .offset 0 0⟩] },
    { name := "h", width := 500, height := 0, components := [⟨"a", .offset 0 0⟩] }]
  hidden := ["h"]

theorem exists_charstrings_hiddenLoopFont (options : CharstringOptions Rat) :
    ∃ programs, hiddenLoopFont.exported.charstrings options = .ok programs := by
  have passes : hiddenLoopFont.exported.checkCycles = .ok () := by cbv
  unfold FontView.charstrings
  rw [passes]
  exact ⟨_, rfl⟩

/-- The exported glyph is drawn through the hidden one again. -/
theorem runsIntoCycle_hiddenLoopFont : hiddenLoopFont.exported.RunsIntoCycle "a" := by
  have toHidden : hiddenLoopFont.exported.Draws "a" "h" :=
    ⟨_, .head _, rfl, ⟨_, .head _, rfl⟩, by decide⟩
  have back : hiddenLoopFont.exported.Draws "h" "a" :=
    ⟨_, .tail _ (.head _), rfl, ⟨_, .head _, rfl⟩, by decide⟩
  exact ⟨"a", .refl, .head toHidden (.single back)⟩

theorem charstrings_acyclic_hiddenLoopFont :
    ∃ programs, hiddenLoopFont.exported.charstrings ⟨true, none, 0⟩ = .ok programs ∧
      ((∀ name ∈ hiddenLoopFont.exported.glyphOrder,
          ¬ hiddenLoopFont.exported.RunsIntoCycle name) ↔
        ∀ name ∈ hiddenLoopFont.exported.glyphOrder, ¬ hiddenLoopFont.RunsIntoHiddenCycle name) ∧
      ((∀ base, .recursive base ∉ hiddenLoopFont.exported.charstringSkips) ↔
        ∀ name ∈ hiddenLoopFont.exported.glyphOrder,
          ¬ hiddenLoopFont.RunsIntoHiddenCycle name) := by
  obtain ⟨programs, compiled⟩ := exists_charstrings_hiddenLoopFont ⟨true, none, 0⟩
  exact ⟨programs, compiled, Font.charstrings_acyclic_iff compiled⟩

/-- The check does not refuse every cycle that drawing runs into. -/
theorem not_forall_charstrings_acyclic :
    ¬ ∀ (font : Font Rat) (options : CharstringOptions Rat)
      (programs : List (GlyphName × CharstringProgram Rat)),
      font.exported.charstrings options = .ok programs →
        (∀ name ∈ font.exported.glyphOrder, ¬ font.exported.RunsIntoCycle name) ∧
          ∀ base, .recursive base ∉ font.exported.charstringSkips := by
  intro refuses
  obtain ⟨programs, compiled⟩ := exists_charstrings_hiddenLoopFont ⟨true, none, 0⟩
  obtain ⟨straight, -⟩ := refuses hiddenLoopFont _ programs compiled
  have listed : "a" ∈ hiddenLoopFont.exported.glyphOrder :=
    FontView.mem_glyphOrder.mpr (Font.mem_exported_keys.mpr ⟨by decide, by decide⟩)
  exact straight "a" listed runsIntoCycle_hiddenLoopFont

end FontCompiler
