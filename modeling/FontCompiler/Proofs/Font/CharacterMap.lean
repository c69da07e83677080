import FontCompiler.Font.CharacterMap
import FontCompiler.Proofs.Font.GlyphOrder

/-!
# The character map and its first conflict

Glyphs are taken in glyph order and codepoints in the order of their glyph. Up to any of them,
the map holds just what has been listed, and two glyphs have not listed the same. So a map at the
end is exact, and a conflict is the first one.
-/

namespace FontCompiler

/-! ## Folds that may stop -/

section Fold

variable {σ ε β : Type} {step : σ → β → Except ε σ} {state final : σ} {first : β} {rest : List β}
  {fault : ε}

theorem foldlM_cons_eq_ok : (first :: rest).foldlM step state = .ok final ↔
    ∃ middle, step state first = .ok middle ∧ rest.foldlM step middle = .ok final := by
  rw [List.foldlM_cons]
  cases step state first with
  | error fault =>
      constructor
      · nofun
      · rintro ⟨middle, ⟨⟩, -⟩
  | ok middle =>
      constructor
      · exact fun ends => ⟨middle, rfl, ends⟩
      · rintro ⟨_, ⟨⟩, ends⟩
        exact ends

theorem foldlM_cons_eq_error : (first :: rest).foldlM step state = .error fault ↔
    step state first = .error fault ∨
      ∃ middle, step state first = .ok middle ∧ rest.foldlM step middle = .error fault := by
  rw [List.foldlM_cons]
  cases step state first with
  | error other =>
      constructor
      · rintro ⟨⟩
        exact .inl rfl
      · rintro (⟨⟨⟩⟩ | ⟨middle, ⟨⟩, -⟩)
        rfl
  | ok middle =>
      constructor
      · exact fun stops => .inr ⟨middle, rfl, stops⟩
      · rintro (⟨⟨⟩⟩ | ⟨_, ⟨⟩, stops⟩)
        exact stops

end Fold

/-! ## Codepoints taken one by one -/

namespace CharacterMap

/-- Whether the map has just the codepoints that glyphs are said to list, each with its glyph. -/
def Exact (map : CharacterMap) (lists : GlyphName → Codepoint → Prop) : Prop :=
  ∀ codepoint name, map.find? codepoint = some name ↔ lists name codepoint

variable {map next : CharacterMap} {lists : GlyphName → Codepoint → Prop} {glyph : GlyphName}
  {codepoint : Codepoint} {fault : FontError}

theorem Exact.congr {others : GlyphName → Codepoint → Prop} (exact : map.Exact lists)
    (same : ∀ name codepoint, lists name codepoint ↔ others name codepoint) : map.Exact others :=
  fun codepoint name => (exact codepoint name).trans (same name codepoint)

/-- A map has one glyph for a codepoint, so what it is exact for is not shared. -/
theorem Exact.unshared (exact : map.Exact lists) {name other : GlyphName}
    (first : lists name codepoint) (second : lists other codepoint) : name = other :=
  Option.some.inj
    (((exact codepoint name).mpr first).symm.trans ((exact codepoint other).mpr second))

theorem exact_empty {lists : GlyphName → Codepoint → Prop}
    (none : ∀ name codepoint, ¬ lists name codepoint) : Exact ∅ lists := by
  intro codepoint name
  exact ⟨nofun, fun listed => absurd listed (none name codepoint)⟩

/-- A codepoint is taken if no other glyph has listed it. -/
theorem exact_of_assign_ok (exact : map.Exact lists)
    (taken : assign glyph map codepoint = .ok next) :
    next.Exact fun name listed => lists name listed ∨ name = glyph ∧ listed = codepoint := by
  unfold assign at taken
  intro listed name
  change _ ↔ lists name listed ∨ name = glyph ∧ listed = codepoint
  rw [← exact listed name]
  cases found : map.find? codepoint with
  | none =>
      rw [found] at taken
      cases taken
      rw [SortedMap.find?_insert]
      by_cases same : codepoint = listed
      · subst same
        simp [found, eq_comm]
      · simp [same, Ne.symm same]
  | some owner =>
      rw [found] at taken
      dsimp only at taken
      split at taken
      · next owned =>
          cases taken
          refine ⟨.inl, fun already => already.elim id ?_⟩
          rintro ⟨rfl, rfl⟩
          rw [found, owned]
      · cases taken

/-- A codepoint is refused if another glyph has listed it. -/
theorem of_assign_error (exact : map.Exact lists)
    (refused : assign glyph map codepoint = .error fault) :
    ∃ owner, fault = .duplicateCodepoint codepoint owner glyph ∧ lists owner codepoint ∧
      owner ≠ glyph := by
  unfold assign at refused
  cases found : map.find? codepoint with
  | none =>
      rw [found] at refused
      cases refused
  | some owner =>
      rw [found] at refused
      dsimp only at refused
      split at refused
      · cases refused
      · next other =>
          cases refused
          exact ⟨owner, rfl, (exact codepoint owner).mp found, other⟩

theorem exact_of_foldlM_ok {codepoints : List Codepoint} (exact : map.Exact lists)
    (taken : codepoints.foldlM (assign glyph) map = .ok next) :
    next.Exact fun name listed => lists name listed ∨ name = glyph ∧ listed ∈ codepoints := by
  induction codepoints generalizing map lists with
  | nil =>
      cases taken
      exact exact.congr fun name listed => by simp
  | cons codepoint rest ih =>
      obtain ⟨middle, step, later⟩ := foldlM_cons_eq_ok.mp taken
      refine (ih (exact_of_assign_ok exact step) later).congr fun name listed => ?_
      rw [or_assoc, ← and_or_left, List.mem_cons]

theorem of_foldlM_error {codepoints : List Codepoint} (exact : map.Exact lists)
    (refused : codepoints.foldlM (assign glyph) map = .error fault) :
    ∃ earlier codepoint later owner, codepoints = earlier ++ codepoint :: later ∧
      fault = .duplicateCodepoint codepoint owner glyph ∧ lists owner codepoint ∧ owner ≠ glyph ∧
        ∀ listed ∈ earlier, ∀ name, lists name listed → name = glyph := by
  induction codepoints generalizing map lists with
  | nil => cases refused
  | cons codepoint rest ih =>
      rcases foldlM_cons_eq_error.mp refused with now | ⟨middle, step, stops⟩
      · obtain ⟨owner, isFault, listed, other⟩ := of_assign_error exact now
        exact ⟨[], codepoint, rest, owner, rfl, isFault, listed, other, nofun⟩
      · have exactNext := exact_of_assign_ok exact step
        obtain ⟨earlier, conflicting, later, owner, rfl, isFault, listed, other, free⟩ :=
          ih exactNext stops
        refine ⟨codepoint :: earlier, conflicting, later, owner, rfl, isFault,
          listed.resolve_right fun own => other own.1, other, ?_⟩
        exact List.forall_mem_cons.mpr
          ⟨fun name listed => exactNext.unshared (.inl listed) (.inr ⟨rfl, rfl⟩),
            fun codepoint listed name before => free codepoint listed name (.inl before)⟩

end CharacterMap

/-! ## Glyphs taken in glyph order -/

namespace FontView

variable {α : Type} {view : FontView α}

/-- Whether a glyph of the view lists a codepoint. -/
def Lists (view : FontView α) (name : GlyphName) (codepoint : Codepoint) : Prop :=
  ∃ glyph, view.glyph? name = some glyph ∧ codepoint ∈ glyph.codepoints

theorem lists_iff {glyph : Glyph α} (found : view.glyph? glyph.name = some glyph)
    {codepoint : Codepoint} : view.Lists glyph.name codepoint ↔ codepoint ∈ glyph.codepoints := by
  constructor
  · rintro ⟨other, again, listed⟩
    cases found.symm.trans again
    exact listed
  · exact fun listed => ⟨glyph, found, listed⟩

/-- Whether no two of the named glyphs list the same codepoint. -/
def Unshared (view : FontView α) (names : List GlyphName) : Prop :=
  ∀ codepoint, ∀ name ∈ names, ∀ other ∈ names,
    view.Lists name codepoint → view.Lists other codepoint → name = other

/-- The first conflict in glyph order: a glyph after the named ones lists a codepoint that one of
them lists, and until then there was none. -/
structure FirstConflict (view : FontView α) (before : List GlyphName) (codepoint : Codepoint)
    (first second : GlyphName) : Prop where
  follows : before ++ [second] <+: view.glyphOrder
  precedes : first ∈ before
  listed : view.Lists first codepoint
  unshared : view.Unshared before
  only : ∀ other ∈ before, view.Lists other codepoint → other = first
  earliest : ∃ glyph earlier later, view.glyph? second = some glyph ∧
    glyph.codepoints = earlier ++ codepoint :: later ∧
      ∀ listed ∈ earlier, ∀ other ∈ before, ¬ view.Lists other listed

/-- Whether the map has just the codepoints that the named glyphs list. -/
def Maps (view : FontView α) (names : List GlyphName) (map : CharacterMap) : Prop :=
  map.Exact fun name codepoint => name ∈ names ∧ view.Lists name codepoint

variable {map next : CharacterMap} {before : List GlyphName} {glyph : Glyph α}
  {glyphs : List (Glyph α)} {fault : FontError}

theorem Maps.unshared (maps : view.Maps before map) : view.Unshared before :=
  fun _ _ first _ second listed again =>
    CharacterMap.Exact.unshared maps ⟨first, listed⟩ ⟨second, again⟩

theorem maps_of_assignAll_ok (maps : view.Maps before map)
    (found : view.glyph? glyph.name = some glyph) (taken : map.assignAll glyph = .ok next) :
    view.Maps (before ++ [glyph.name]) next := by
  refine (CharacterMap.exact_of_foldlM_ok maps taken).congr fun name codepoint => ?_
  rw [List.mem_append, List.mem_singleton, or_and_right]
  refine or_congr_right (and_congr_right fun same => ?_)
  rw [same, lists_iff found]

theorem firstConflict_of_assignAll_error (maps : view.Maps before map)
    (found : view.glyph? glyph.name = some glyph) (fresh : glyph.name ∉ before)
    (follows : before ++ [glyph.name] <+: view.glyphOrder)
    (refused : map.assignAll glyph = .error fault) :
    ∃ codepoint first, fault = .duplicateCodepoint codepoint first glyph.name ∧
      view.FirstConflict before codepoint first glyph.name := by
  obtain ⟨earlier, codepoint, later, first, split, isFault, ⟨precedes, listed⟩, -, free⟩ :=
    CharacterMap.of_foldlM_error maps refused
  refine ⟨codepoint, first, isFault, follows, precedes, listed, maps.unshared, ?_,
    glyph, earlier, later, found, split, ?_⟩
  · exact fun other old again => maps.unshared codepoint other old first precedes again listed
  · exact fun listed own other old again => fresh (free listed own other ⟨old, again⟩ ▸ old)

/-- The glyphs that are still to be taken follow those that have been taken. -/
structure Ahead (view : FontView α) (before : List GlyphName) (glyphs : List (Glyph α)) : Prop where
  order : before ++ glyphs.map Glyph.name = view.glyphOrder
  found : ∀ glyph ∈ glyphs, view.glyph? glyph.name = some glyph

namespace Ahead

theorem start (view : FontView α) : view.Ahead [] view.glyphsInOrder where
  order := map_name_glyphsInOrder view
  found _ listed := mem_glyphsInOrder.mp listed

variable (ahead : view.Ahead before (glyph :: glyphs))
include ahead

theorem later : view.Ahead (before ++ [glyph.name]) glyphs where
  order := by rw [← ahead.order, List.append_assoc, List.singleton_append, List.map_cons]
  found other listed := ahead.found other (List.mem_cons_of_mem glyph listed)

theorem follows : before ++ [glyph.name] <+: view.glyphOrder :=
  ⟨glyphs.map Glyph.name, ahead.later.order⟩

theorem fresh : glyph.name ∉ before := fun old =>
  (List.nodup_append.mp (ahead.follows.sublist.nodup (nodup_glyphOrder view))).2.2 glyph.name old
    glyph.name (List.mem_singleton_self _) rfl

end Ahead

/-- A map of all glyphs is exact. -/
theorem maps_of_foldlM_ok (maps : view.Maps before map) (ahead : view.Ahead before glyphs)
    (taken : glyphs.foldlM CharacterMap.assignAll map = .ok next) :
    view.Maps view.glyphOrder next := by
  induction glyphs generalizing before map with
  | nil =>
      cases taken
      rw [← ahead.order, List.map_nil, List.append_nil]
      exact maps
  | cons glyph rest ih =>
      have found := ahead.found glyph List.mem_cons_self
      obtain ⟨middle, step, later⟩ := foldlM_cons_eq_ok.mp taken
      exact ih (maps_of_assignAll_ok maps found step) ahead.later later

/-- A fault is the first conflict. -/
theorem firstConflict_of_foldlM_error (maps : view.Maps before map)
    (ahead : view.Ahead before glyphs)
    (refused : glyphs.foldlM CharacterMap.assignAll map = .error fault) :
    ∃ before codepoint first second, fault = .duplicateCodepoint codepoint first second ∧
      view.FirstConflict before codepoint first second := by
  induction glyphs generalizing before map with
  | nil => cases refused
  | cons glyph rest ih =>
      have found := ahead.found glyph List.mem_cons_self
      rcases foldlM_cons_eq_error.mp refused with now | ⟨middle, step, stops⟩
      · obtain ⟨codepoint, first, isFault, conflict⟩ :=
          firstConflict_of_assignAll_error maps found ahead.fresh ahead.follows now
        exact ⟨before, codepoint, first, glyph.name, isFault, conflict⟩
      · exact ih (maps_of_assignAll_ok maps found step) ahead.later stops

theorem mem_glyphOrder_of_lists {name : GlyphName} {codepoint : Codepoint}
    (listed : view.Lists name codepoint) : name ∈ view.glyphOrder := by
  obtain ⟨glyph, found, -⟩ := listed
  exact mem_glyphOrder.mpr (KeyedList.mem_keys_of_find? found)

/-- A conflict is one between two glyphs. -/
theorem FirstConflict.shared {codepoint : Codepoint} {first second : GlyphName}
    (conflict : view.FirstConflict before codepoint first second) :
    view.Lists second codepoint ∧ first ≠ second := by
  obtain ⟨glyph, earlier, later, found, split, -⟩ := conflict.earliest
  refine ⟨⟨glyph, found, split ▸ List.mem_append_right earlier List.mem_cons_self⟩, fun same => ?_⟩
  have distinct := conflict.follows.sublist.nodup (nodup_glyphOrder view)
  exact (List.nodup_append.mp distinct).2.2 first conflict.precedes second
    (List.mem_singleton_self second) same

/-- A view has a character map exactly when no two glyphs list the same codepoint. The map gives
each codepoint to the glyph that lists it, and a view without a map is refused with its first
conflict. -/
theorem characterMap_exact (view : FontView α) :
    ((∃ map, view.characterMap = .ok map) ↔ ∀ codepoint name other,
      view.Lists name codepoint → view.Lists other codepoint → name = other) ∧
    (∀ map, view.characterMap = .ok map → ∀ codepoint name,
      map.find? codepoint = some name ↔ view.Lists name codepoint) ∧
    (∀ fault, view.characterMap = .error fault → ∃ before codepoint first second,
      fault = .duplicateCodepoint codepoint first second ∧
        view.FirstConflict before codepoint first second) := by
  have empty : view.Maps [] ∅ :=
    CharacterMap.exact_empty fun name codepoint listed => List.not_mem_nil listed.1
  cases built : view.characterMap with
  | ok map =>
      have maps : view.Maps view.glyphOrder map := maps_of_foldlM_ok empty (.start view) built
      refine ⟨⟨fun _ codepoint name other first second => ?_, fun _ => ⟨map, rfl⟩⟩, ?_, nofun⟩
      · exact maps.unshared codepoint name (mem_glyphOrder_of_lists first) other
          (mem_glyphOrder_of_lists second) first second
      · rintro _ ⟨⟩ codepoint name
        exact (maps codepoint name).trans (and_iff_right_of_imp mem_glyphOrder_of_lists)
  | error fault =>
      obtain ⟨before, codepoint, first, second, isFault, conflict⟩ :=
        firstConflict_of_foldlM_error empty (.start view) built
      refine ⟨⟨nofun, fun unshared => ?_⟩, nofun, ?_⟩
      · obtain ⟨listed, other⟩ := conflict.shared
        exact absurd (unshared codepoint first second conflict.listed listed) other
      · rintro _ ⟨⟩
        exact ⟨before, codepoint, first, second, isFault, conflict⟩

end FontView

end FontCompiler
