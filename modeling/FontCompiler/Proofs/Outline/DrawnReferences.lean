import Mathlib.Logic.Relation
import Mathlib.Tactic.ByContra
import FontCompiler.Proofs.Outline.WellDrawn

/-!
# References that drawing follows

Drawing looks glyphs up among all that references can draw, shown or not. It leaves
a reference out as recursive exactly when the references that it follows run into a
cycle, because a chain of references that never ends meets a glyph of its path again.
-/

namespace FontCompiler.FontView

open Relation

variable {α : Type} {view : FontView α} {name base other : GlyphName} {path : List GlyphName}

/-- Drawing a glyph draws another glyph by a reference. -/
def Draws (view : FontView α) (name base : GlyphName) : Prop :=
  ∃ glyph ∈ view.parts.entries, glyph.name = name ∧
    (∃ part ∈ glyph.components, part.base = base) ∧ base ∈ view.parts.keys

/-- Drawn references lead from a glyph into a cycle. -/
def RunsIntoCycle (view : FontView α) (name : GlyphName) : Prop :=
  ∃ turn, ReflTransGen view.Draws name turn ∧ TransGen view.Draws turn turn

/-- Every chain of drawn references that starts at the glyph ends. -/
def ChainsEnd (view : FontView α) (name : GlyphName) : Prop :=
  Acc (fun base name => view.Draws name base) name

theorem draws_iff {glyph : Glyph α} (found : view.part? name = some glyph) :
    view.Draws name base ↔
      (∃ part ∈ glyph.components, part.base = base) ∧ base ∈ view.parts.keys := by
  have held := KeyedList.find?_eq_some_iff.mp found
  constructor
  · rintro ⟨drawn, listed, named, refers⟩
    have same : some glyph = some drawn :=
      found.symm.trans (KeyedList.find?_eq_some_iff.mpr ⟨listed, named⟩)
    cases same
    exact refers
  · exact fun refers => ⟨glyph, held.1, held.2, refers⟩

theorem mem_parts_of_draws (draws : view.Draws name base) : name ∈ view.parts.keys := by
  obtain ⟨glyph, listed, named, -⟩ := draws
  exact List.mem_map.mpr ⟨glyph, listed, named⟩

theorem part?_isSome_iff : (view.part? base).isSome = true ↔ base ∈ view.parts.keys :=
  KeyedList.contains_iff

/-- A reference of a glyph to a glyph that there is. -/
theorem draws_of_part? {glyph target : Glyph α} {part : Component α}
    (found : view.part? name = some glyph) (listed : part ∈ glyph.components)
    (next : view.part? part.base = some target) : view.Draws name part.base :=
  (draws_iff found).mpr
    ⟨⟨part, listed, rfl⟩, part?_isSome_iff.mp (Option.isSome_of_eq_some next)⟩

/-- A path that leads to a glyph leads on, with the glyph, to what the glyph draws. -/
theorem Draws.leads_on (draws : view.Draws base other)
    (leads : ∀ name ∈ path, TransGen view.Draws name base) :
    ∀ name ∈ base :: path, TransGen view.Draws name other := by
  intro name visited
  rcases List.mem_cons.mp visited with rfl | earlier
  · exact .single draws
  · exact (leads name earlier).tail draws

theorem RunsIntoCycle.of_draws (draws : view.Draws name base) (runs : view.RunsIntoCycle base) :
    view.RunsIntoCycle name := by
  obtain ⟨turn, leads, round⟩ := runs
  exact ⟨turn, .head draws leads, round⟩

/-- The first reference on the way into a cycle. -/
theorem RunsIntoCycle.exists_draws (runs : view.RunsIntoCycle name) :
    ∃ base, view.Draws name base ∧ view.RunsIntoCycle base := by
  obtain ⟨turn, leads, round⟩ := runs
  rcases ReflTransGen.cases_head leads with rfl | ⟨base, draws, later⟩
  · obtain ⟨base, draws, back⟩ := TransGen.head'_iff.mp round
    exact ⟨base, draws, name, back, round⟩
  · exact ⟨base, draws, turn, later, round⟩

theorem ChainsEnd.not_runsIntoCycle (ends : view.ChainsEnd name) : ¬ view.RunsIntoCycle name := by
  induction ends with
  | intro name _ ih =>
      intro runs
      obtain ⟨base, draws, later⟩ := runs.exists_draws
      exact ih base draws later

variable [Coordinate α] {map : Affine α}

theorem expand_of_missing (missing : view.part? base = none) (path : List GlyphName)
    (map : Affine α) : view.expand path base map = [.skipped (.missing base)] := by
  rw [expand]
  split
  · rfl
  · next found => cases missing.symm.trans found

theorem expand_of_visited {glyph : Glyph α} (found : view.part? base = some glyph)
    (visited : base ∈ path) (map : Affine α) :
    view.expand path base map = [.skipped (.recursive base)] := by
  rw [expand]
  split
  · next missing => cases missing.symm.trans found
  · exact if_pos visited

theorem expand_of_part {glyph : Glyph α} (found : view.part? base = some glyph)
    (fresh : base ∉ path) (map : Affine α) :
    view.expand path base map =
      (glyph.contourEvents.map fun event => .drawn (event.transform map)) ++
        glyph.components.flatMap fun part =>
          view.expand (base :: path) part.base (map.compose part.transform) := by
  rw [expand]
  split
  · next missing => cases missing.symm.trans found
  · next held =>
      cases held.symm.trans found
      rw [if_neg fresh]

/-- A reference is left out as recursive only on the way into a cycle. -/
theorem runsIntoCycle_of_skipped (leads : ∀ name ∈ path, TransGen view.Draws name base)
    (skipped : .skipped (.recursive other) ∈ view.expand path base map) :
    view.RunsIntoCycle base := by
  -- The path is a chain of references that leads to the base.
  fun_induction expand view path base map with
  | case1 path base map missing => cases List.mem_singleton.mp skipped
  | case2 path base map glyph found visited => exact ⟨base, .refl, leads base visited⟩
  | case3 path base map glyph found fresh ih =>
      rcases List.mem_append.mp skipped with contour | reference
      · obtain ⟨event, -, same⟩ := List.mem_map.mp contour
        cases same
      · obtain ⟨part, listed, inside⟩ := List.mem_flatMap.mp reference
        cases next : view.part? part.base with
        | none =>
            rw [expand_of_missing next] at inside
            cases List.mem_singleton.mp inside
        | some target =>
            have draws := draws_of_part? found listed next
            exact .of_draws draws (ih part (draws.leads_on leads) inside)

/-- Where drawing leaves out no reference as recursive, the chains of references end. -/
theorem chainsEnd_of_not_skipped
    (drawn : ∀ other, .skipped (.recursive other) ∉ view.expand path base map) :
    view.ChainsEnd base := by
  fun_induction expand view path base map with
  | case1 path base map missing =>
      refine .intro base fun next draws => ?_
      have present := part?_isSome_iff.mpr (mem_parts_of_draws draws)
      rw [missing] at present
      cases present
  | case2 path base map glyph found visited =>
      exact absurd (List.mem_singleton_self _) (drawn base)
  | case3 path base map glyph found fresh ih =>
      refine .intro base fun next draws => ?_
      obtain ⟨⟨part, listed, rfl⟩, -⟩ := (draws_iff found).mp draws
      refine ih part fun other skipped => drawn other ?_
      exact List.mem_append_right _ (List.mem_flatMap.mpr ⟨part, listed, skipped⟩)

/-- Drawing leaves out a reference as recursive exactly on the way into a cycle. -/
theorem exists_skipped_iff (leads : ∀ name ∈ path, TransGen view.Draws name base)
    (map : Affine α) :
    (∃ other, .skipped (.recursive other) ∈ view.expand path base map) ↔
      view.RunsIntoCycle base := by
  constructor
  · rintro ⟨other, skipped⟩
    exact runsIntoCycle_of_skipped leads skipped
  · intro runs
    by_contra drawn
    exact (chainsEnd_of_not_skipped (not_exists.mp drawn)).not_runsIntoCycle runs

/-- Chains of references end where they run into no cycle. -/
theorem chainsEnd_iff : view.ChainsEnd base ↔ ¬ view.RunsIntoCycle base := by
  refine ⟨ChainsEnd.not_runsIntoCycle, fun straight => ?_⟩
  have drawn : ∀ other, .skipped (.recursive other) ∉ view.expand [] base Affine.identity :=
    fun other skipped => straight (runsIntoCycle_of_skipped (List.forall_mem_nil _) skipped)
  exact chainsEnd_of_not_skipped drawn

omit [Coordinate α] in
theorem mem_skipped_iff {events : List (Flattened α)} {component : SkippedComponent} :
    component ∈ events.filterMap Flattened.skipped? ↔ .skipped component ∈ events := by
  rw [List.mem_filterMap]
  constructor
  · rintro ⟨event, listed, skipped⟩
    cases event with
    | drawn event => cases skipped
    | skipped other => exact Option.some.inj skipped ▸ listed
  · exact fun listed => ⟨_, listed, rfl⟩

/-- The drawing of a glyph leaves out a reference as recursive exactly when references
lead from the glyph into a cycle. -/
theorem exists_mem_skippedComponents_iff {glyph : Glyph α} (found : view.part? name = some glyph) :
    (∃ other, .recursive other ∈ view.skippedComponents glyph.events) ↔
      view.RunsIntoCycle name := by
  rw [skippedComponents_events]
  simp only [List.mem_flatMap, mem_skipped_iff]
  constructor
  · rintro ⟨other, part, listed, skipped⟩
    have runs := (exists_skipped_iff (List.forall_mem_nil _) _).mp ⟨other, skipped⟩
    obtain ⟨base, draws, -⟩ := runs.exists_draws
    exact .of_draws ((draws_iff found).mpr ⟨⟨part, listed, rfl⟩, mem_parts_of_draws draws⟩) runs
  · intro runs
    obtain ⟨base, draws, later⟩ := runs.exists_draws
    obtain ⟨⟨part, listed, rfl⟩, -⟩ := (draws_iff found).mp draws
    obtain ⟨other, skipped⟩ := (exists_skipped_iff (List.forall_mem_nil _) _).mpr later
    exact ⟨other, part, listed, skipped⟩

end FontCompiler.FontView
