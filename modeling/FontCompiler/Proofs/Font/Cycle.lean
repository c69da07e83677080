import Mathlib.Data.List.Chain
import Mathlib.Logic.Relation
import FontCompiler.Font.ComponentCycle
import FontCompiler.Proofs.Font.GlyphOrder

/-!
# Cycles of references are found

The glyphs of a view and the references between them are a directed graph. The
walk through the graph settles a glyph once everything that it refers to is
settled, so no infinite chain of references starts at a settled glyph. The path
of the walk is itself a chain of references without repetition, so a reference
back to the path closes a cycle.
-/

namespace FontCompiler.FontView

variable {α : Type} {view : FontView α} {name base glyph : GlyphName}
  {path settled further names rest cycle : List GlyphName}

/-! ## The graph of references -/

/-- A glyph of the view refers to a glyph of the view. -/
def Refers (view : FontView α) (name base : GlyphName) : Prop :=
  ∃ glyph ∈ view.glyphs.entries, glyph.name = name ∧
    (∃ part ∈ glyph.components, part.base = base) ∧ base ∈ view.glyphs.keys

/-- No chain of references leads from a glyph back to it. -/
def Acyclic (view : FontView α) : Prop :=
  ∀ name, ¬ Relation.TransGen view.Refers name name

/-- A chain of references from a glyph back to it that passes no name twice on its way. -/
structure IsCycle (view : FontView α) (glyph : GlyphName) (cycle : List GlyphName) : Prop where
  chain : cycle.IsChain view.Refers
  returns : ∃ between, cycle = glyph :: (between ++ [glyph]) ∧ (glyph :: between).Nodup

theorem mem_references : base ∈ view.references name ↔ view.Refers name base := by
  unfold references glyph? Refers
  cases found : view.glyphs.find? name with
  | none =>
      constructor
      · intro listed
        cases listed
      · rintro ⟨glyph, listed, named, -⟩
        rw [KeyedList.find?_eq_some_iff.mpr ⟨listed, named⟩] at found
        cases found
  | some glyph =>
      obtain ⟨listed, named⟩ := KeyedList.find?_eq_some_iff.mp found
      simp only [List.mem_filter, List.mem_map, contains_iff]
      constructor
      · rintro ⟨drawn, present⟩
        exact ⟨glyph, listed, named, drawn, present⟩
      · rintro ⟨other, otherListed, otherNamed, drawn, present⟩
        have same : some glyph = some other :=
          found.symm.trans (KeyedList.find?_eq_some_iff.mpr ⟨otherListed, otherNamed⟩)
        cases same
        exact ⟨drawn, present⟩

theorem mem_keys_of_refers (refers : view.Refers name base) : name ∈ view.glyphs.keys := by
  obtain ⟨glyph, listed, named, -⟩ := refers
  exact List.mem_map.mpr ⟨glyph, listed, named⟩

theorem IsCycle.not_acyclic (closed : view.IsCycle glyph cycle) : ¬ view.Acyclic := by
  intro acyclic
  obtain ⟨between, rfl, -⟩ := closed.returns
  apply acyclic glyph
  -- The last reference of the cycle leads from the last name before the return.
  have reaches : ∀ (start : GlyphName) (inner : List GlyphName),
      (start :: (inner ++ [glyph])).IsChain view.Refers →
        Relation.TransGen view.Refers start glyph := by
    intro start inner chain
    induction inner generalizing start with
    | nil => exact .single (List.isChain_pair.mp chain)
    | cons next later ih =>
        obtain ⟨first, tail⟩ := List.isChain_cons_cons.mp chain
        exact .head first (ih next tail)
  exact reaches glyph between closed.chain

/-! ## Settled glyphs -/

/-- Every chain of references that starts at the glyph ends. -/
def Grounded (view : FontView α) (name : GlyphName) : Prop :=
  Acc (fun base name => view.Refers name base) name

theorem Grounded.not_reaches_itself (grounded : view.Grounded name) :
    ¬ Relation.TransGen view.Refers name name := by
  induction grounded with
  | intro name _ ih =>
      intro round
      obtain ⟨next, first, back⟩ := Relation.TransGen.head'_iff.mp round
      exact ih next first (Relation.TransGen.tail'_iff.mpr ⟨name, back, first⟩)

/-- A walk that ends settles the listed glyphs, keeps what was settled, and
settles grounded glyphs only. -/
theorem grounded_of_settle_ok (done : view.settle path settled names = .ok further)
    (grounded : ∀ name ∈ settled, view.Grounded name) :
    (∀ name ∈ further, view.Grounded name) ∧ (∀ name ∈ settled, name ∈ further) ∧
      ∀ name ∈ names, name ∈ view.glyphs.keys → name ∈ further := by
  induction path, settled, names using settle.induct view generalizing further with
  | case1 path settled =>
      rw [settle] at done
      cases done
      exact ⟨grounded, fun _ kept => kept, fun _ listed => absurd listed List.not_mem_nil⟩
  | case2 path settled name rest returned =>
      rw [settle, if_pos returned] at done
      cases done
  | case3 path settled name rest fresh old ih =>
      rw [settle, if_neg fresh, if_pos old] at done
      obtain ⟨allGrounded, keeps, settles⟩ := ih done grounded
      refine ⟨allGrounded, keeps, fun other listed present => ?_⟩
      rcases List.mem_cons.mp listed with rfl | later
      · exact keeps other old
      · exact settles other later present
  | case4 path settled name rest fresh unsettled present fault failed ih =>
      rw [settle, if_neg fresh, if_neg unsettled, if_pos present, failed] at done
      cases done
  | case5 path settled name rest fresh unsettled present inner entered ihInner ihRest =>
      rw [settle, if_neg fresh, if_neg unsettled, if_pos present, entered] at done
      obtain ⟨innerGrounded, innerKeeps, innerSettles⟩ := ihInner entered grounded
      have nameGrounded : view.Grounded name := by
        refine Acc.intro name fun base refers => innerGrounded base ?_
        exact innerSettles base (mem_references.mpr refers) refers.choose_spec.2.2.2
      obtain ⟨allGrounded, keeps, settles⟩ := ihRest done <| by
        intro other listed
        rcases List.mem_cons.mp listed with rfl | old
        · exact nameGrounded
        · exact innerGrounded other old
      refine ⟨allGrounded, fun other old => ?_, fun other listed otherPresent => ?_⟩
      · exact keeps other (List.mem_cons_of_mem _ (innerKeeps other old))
      · rcases List.mem_cons.mp listed with rfl | later
        · exact keeps other List.mem_cons_self
        · exact settles other later otherPresent
  | case6 path settled name rest fresh unsettled absent ih =>
      rw [settle, if_neg fresh, if_neg unsettled, if_neg absent] at done
      obtain ⟨allGrounded, keeps, settles⟩ := ih done grounded
      refine ⟨allGrounded, keeps, fun other listed present => ?_⟩
      rcases List.mem_cons.mp listed with rfl | later
      · exact absurd present absent
      · exact settles other later present

theorem acyclic_of_checkCycles_eq_ok (passed : view.checkCycles = .ok ()) : view.Acyclic := by
  unfold checkCycles at passed
  cases walked : view.settle [] [] view.glyphOrder with
  | error fault =>
      rw [walked] at passed
      cases passed
  | ok further =>
      obtain ⟨grounded, -, settles⟩ := grounded_of_settle_ok walked
        fun _ listed => absurd listed List.not_mem_nil
      intro name round
      obtain ⟨next, first, -⟩ := Relation.TransGen.head'_iff.mp round
      have present : name ∈ view.glyphs.keys := mem_keys_of_refers first
      exact (grounded name (settles name (mem_glyphOrder.mpr present) present)).not_reaches_itself
        round

/-! ## The path of the walk -/

/-- A path without repetition that every listed name continues along the references. -/
structure Trail (view : FontView α) (path names : List GlyphName) : Prop where
  distinct : path.Nodup
  continues : ∀ name ∈ names, (path ++ [name]).IsChain view.Refers

namespace Trail

theorem start (names : List GlyphName) : view.Trail [] names :=
  ⟨.nil, fun name _ => .singleton name⟩

theorem later (trail : view.Trail path (name :: rest)) : view.Trail path rest :=
  ⟨trail.distinct, fun other later => trail.continues other (List.mem_cons_of_mem _ later)⟩

/-- The walk goes on from the first listed name to the names that it refers to. -/
theorem enter (trail : view.Trail path (name :: rest)) (fresh : name ∉ path) :
    view.Trail (path ++ [name]) (view.references name) := by
  constructor
  · refine List.nodup_append.mpr ⟨trail.distinct, List.pairwise_singleton _ _, ?_⟩
    intro old listed other same equal
    rw [List.mem_singleton] at same
    exact fresh (same ▸ equal ▸ listed)
  · intro base listed
    refine (trail.continues name List.mem_cons_self).append (.singleton base) ?_
    intro last isLast next isNext
    rw [List.getLast?_append_of_ne_nil _ (List.cons_ne_nil _ _)] at isLast
    cases isLast
    cases isNext
    exact mem_references.mp listed

/-- A listed name on the path closes a cycle. -/
theorem isCycle (trail : view.Trail path (name :: rest)) (returned : name ∈ path) :
    view.IsCycle name (path.dropWhile (fun other => other != name) ++ [name]) := by
  obtain ⟨before, after, rfl, fresh⟩ := List.eq_append_cons_of_mem returned
  have dropped : (before ++ name :: after).dropWhile (fun other => other != name) =
      name :: after := by
    rw [List.dropWhile_append_of_pos]
    · exact List.dropWhile_cons_of_neg (by simp)
    · intro other listed
      exact bne_iff_ne.mpr fun same => fresh (same ▸ listed)
  rw [dropped]
  constructor
  · exact (trail.continues name List.mem_cons_self).suffix ⟨before, by simp⟩
  · exact ⟨after, rfl, (List.nodup_append.mp trail.distinct).2.1⟩

end Trail

/-- A walk along a trail fails only at a cycle. -/
theorem isCycle_of_settle_error {fault : FontError}
    (failed : view.settle path settled names = .error fault) (trail : view.Trail path names) :
    ∃ glyph cycle, fault = .componentCycle glyph cycle ∧ view.IsCycle glyph cycle := by
  induction path, settled, names using settle.induct view with
  | case1 path settled =>
      rw [settle] at failed
      cases failed
  | case2 path settled name rest returned =>
      rw [settle, if_pos returned] at failed
      cases failed
      exact ⟨name, _, rfl, trail.isCycle returned⟩
  | case3 path settled name rest fresh old ih =>
      rw [settle, if_neg fresh, if_pos old] at failed
      exact ih failed trail.later
  | case4 path settled name rest fresh unsettled present inner innerFailed ih =>
      rw [settle, if_neg fresh, if_neg unsettled, if_pos present, innerFailed] at failed
      cases failed
      exact ih innerFailed (trail.enter fresh)
  | case5 path settled name rest fresh unsettled present inner entered ihInner ihRest =>
      rw [settle, if_neg fresh, if_neg unsettled, if_pos present, entered] at failed
      exact ihRest failed trail.later
  | case6 path settled name rest fresh unsettled absent ih =>
      rw [settle, if_neg fresh, if_neg unsettled, if_neg absent] at failed
      exact ih failed trail.later

theorem isCycle_of_checkCycles_eq_error {fault : FontError}
    (failed : view.checkCycles = .error fault) :
    ∃ glyph cycle, fault = .componentCycle glyph cycle ∧ view.IsCycle glyph cycle := by
  unfold checkCycles at failed
  cases walked : view.settle [] [] view.glyphOrder with
  | ok further =>
      rw [walked] at failed
      cases failed
  | error inner =>
      rw [walked] at failed
      cases failed
      exact isCycle_of_settle_error walked (Trail.start view.glyphOrder)

/-- A view passes exactly when its references form no cycle, and one that does not
pass is refused with a cycle of its references. -/
theorem checkCycles_exact (view : FontView α) :
    (view.checkCycles = .ok () ↔ view.Acyclic) ∧
      (view.checkCycles = .ok () ∨ ∃ glyph cycle,
        view.checkCycles = .error (.componentCycle glyph cycle) ∧ view.IsCycle glyph cycle) := by
  cases checked : view.checkCycles with
  | ok _ => exact ⟨⟨fun _ => acyclic_of_checkCycles_eq_ok checked, fun _ => rfl⟩, .inl rfl⟩
  | error fault =>
      obtain ⟨glyph, cycle, rfl, closed⟩ := isCycle_of_checkCycles_eq_error checked
      refine ⟨⟨nofun, fun acyclic => ?_⟩, .inr ⟨glyph, cycle, rfl, closed⟩⟩
      exact absurd acyclic closed.not_acyclic

end FontCompiler.FontView
