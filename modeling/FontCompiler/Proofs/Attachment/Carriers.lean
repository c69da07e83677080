import FontCompiler.Proofs.Attachment.AnchorNames
import FontCompiler.Proofs.Attachment.MarkPlan
import FontCompiler.Proofs.Collection.Sorting
import FontCompiler.Proofs.Font.GlyphOrder

/-!
# Glyphs that carry an anchor

The mark writer reads from a font which glyphs take part, which of them are marks, and where
each has its first anchor with a name. The lists from which the lookups are made say the same
in the order of the glyphs.
-/

namespace FontCompiler

/-- Related lists, one of the elements that pass a test and one of what these give. -/
theorem forall₂_filter_filterMap {α β : Type} {test : α → Bool} {image : α → Option β}
    {related : α → β → Prop} {elements : List α}
    (passing : ∀ element ∈ elements, test element = true →
      ∃ value, image element = some value ∧ related element value)
    (failing : ∀ element ∈ elements, test element = false → image element = none) :
    List.Forall₂ related (elements.filter test) (elements.filterMap image) := by
  induction elements with
  | nil => exact .nil
  | cons first rest ih =>
      have tail := ih (fun element listed => passing element (List.mem_cons_of_mem _ listed))
        fun element listed => failing element (List.mem_cons_of_mem _ listed)
      cases tested : test first with
      | true =>
          obtain ⟨value, same, holds⟩ := passing first List.mem_cons_self tested
          rw [List.filter_cons_of_pos tested, List.filterMap_cons_some same]
          exact .cons holds tail
      | false =>
          rw [List.filter_cons_of_neg (by simp [tested]),
            List.filterMap_cons_none (failing first List.mem_cons_self tested)]
          exact tail

/-- A name makes the anchor of a mark exactly when it begins with an underscore. -/
theorem AnchorRole.exists_ofName_eq_mark_iff {name : String} :
    (∃ base, ofName name = mark base) ↔ name.toList.head? = some '_' := by
  have suffixed : ∀ {stem rest : List Char} {char : Char}, char ≠ '_' →
      suffixAfter? (char :: stem) ('_' :: rest) = none := by
    intro stem rest char other
    have differs : (char == '_') = false := beq_false_of_ne other
    simp [suffixAfter?, List.isPrefixOf?, differs]
  unfold ofName
  dsimp only
  constructor
  · rintro ⟨base, same⟩
    split at same
    · cases same
    · split at same
      · cases same
      · split at same
        · cases same
        · cases same
        · next rest _ _ letters => rw [letters, List.head?_cons]
        · split at same <;> cases same
  · intro starts
    obtain ⟨rest, letters⟩ : ∃ rest, name.toList = '_' :: rest := by
      cases same : name.toList with
      | nil =>
          rw [same] at starts
          cases starts
      | cons first rest =>
          rw [same] at starts
          cases starts
          exact ⟨rest, rfl⟩
    have noEntry : suffixAfter? "entry".toList ('_' :: rest) = none := suffixed (by decide)
    have noExit : suffixAfter? "exit".toList ('_' :: rest) = none := suffixed (by decide)
    rw [letters, noEntry, noExit]
    exact ⟨String.ofList rest, rfl⟩

namespace Glyph

variable {α : Type}

/-- Whether the glyph takes part in attachment: it has a named anchor and no other, and
where layout classes are known, it is a base, a ligature or a mark. -/
def participates (classes : Option GlyphClasses) (glyph : Glyph α) : Bool :=
  glyph.anchors.any (fun anchor => anchor.name?.isSome) && !glyph.hasUnnamedAnchor &&
    GlyphClasses.mayAttach classes glyph.name

/-- Whether the glyph is a mark: it has an anchor whose name begins with an underscore, and
where layout classes are known, it is in the class of marks. -/
def isMark (classes : Option GlyphClasses) (glyph : Glyph α) : Bool :=
  glyph.anchors.any (fun anchor => anchor.name?.any fun name =>
      decide (name.toList.head? = some '_')) &&
    GlyphClasses.mayBeMark classes glyph.name

variable [Coordinate α] {step : Nat} {classes : Option GlyphClasses} {glyph : Glyph α}
  {base name : String}

/-- The place of the first anchor with a name, on the grid of a step. -/
def place? (step : Nat) (glyph : Glyph α) (name : String) : Option Place :=
  (glyph.anchors.find? fun anchor => decide (anchor.name? = some name)).map fun anchor =>
    ⟨multipleBelow anchor.position.x step, multipleBelow anchor.position.y step⟩

/-- Whether some places are those of the numbered anchors of a name, as far as the glyph has
them without a gap, and the first one is there. -/
structure HasChain (step : Nat) (glyph : Glyph α) (base : String) (places : List Place) :
    Prop where
  nonempty : places ≠ []
  held : ∀ index < places.length,
    glyph.place? step (numberedName base (index + 1)) = places[index]?
  ended : glyph.place? step (numberedName base (places.length + 1)) = none

def anchored (step : Nat) (classes : Option GlyphClasses) (glyph : Glyph α) : AnchoredGlyph where
  glyph := glyph.name
  anchors := glyph.anchors.filterMap (placedAnchor? step)
  isMark := glyph.isMark classes

omit [Coordinate α] in
theorem isMarkAnchor_eq (anchor : Anchor α) : anchor.isMarkAnchor =
    anchor.name?.any fun name => decide (name.toList.head? = some '_') := by
  unfold Anchor.isMarkAnchor Anchor.role?
  cases anchor.name? with
  | none => rfl
  | some name =>
      rw [Option.map_some, Option.any_some]
      split
      · next base same =>
          exact (decide_eq_true (AnchorRole.exists_ofName_eq_mark_iff.mp
            ⟨base, Option.some.inj same⟩)).symm
      · next other =>
          refine (decide_eq_false fun starts => ?_).symm
          obtain ⟨base, same⟩ := AnchorRole.exists_ofName_eq_mark_iff.mpr starts
          exact other base (congrArg some same)

theorem anchoredGlyph?_eq (step : Nat) (classes : Option GlyphClasses) (glyph : Glyph α) :
    anchoredGlyph? step classes glyph =
      if glyph.participates classes then some (glyph.anchored step classes) else none := by
  have named : glyph.hasUnnamedAnchor = false →
      glyph.anchors.any (fun anchor => anchor.name?.isSome) = !glyph.anchors.isEmpty := by
    unfold hasUnnamedAnchor
    cases glyph.anchors with
    | nil => exact fun _ => rfl
    | cons first rest =>
        intro noneUnnamed
        have isNamed : first.name?.isSome = true := by
          simpa [Option.isSome_iff_ne_none] using
            List.any_eq_false.mp noneUnnamed first List.mem_cons_self
        rw [List.any_cons, isNamed]
        rfl
  have marks : (Anchor.isMarkAnchor : Anchor α → Bool) = _ := funext isMarkAnchor_eq
  unfold anchoredGlyph? participates anchored isMark
  rw [marks]
  cases unnamed : glyph.hasUnnamedAnchor with
  | true => simp
  | false =>
      rw [named unnamed]
      cases GlyphClasses.mayAttach classes glyph.name <;> cases glyph.anchors.isEmpty <;> rfl

theorem place?_anchored (step : Nat) (classes : Option GlyphClasses) (glyph : Glyph α)
    (name : String) : (glyph.anchored step classes).place? name = glyph.place? step name := by
  unfold anchored AnchoredGlyph.place? place?
  rw [List.find?_filterMap, Option.map_bind]
  have same : (fun anchor : Anchor α => (placedAnchor? step anchor).any fun placed =>
      decide (placed.1 = name)) = fun anchor => decide (anchor.name? = some name) := by
    funext anchor
    unfold placedAnchor?
    cases anchor.name? <;> simp
  rw [same]
  cases found : glyph.anchors.find? (fun anchor => decide (anchor.name? = some name)) with
  | none => rfl
  | some anchor =>
      have isName : anchor.name? = some name := by simpa using List.find?_some found
      simp [placedAnchor?, isName]

/-- The places of the numbered anchors that a glyph has without a gap, if these end within
the anchors that are asked for. -/
theorem exists_takeWhile_places {count : Nat}
    (missing : glyph.place? step (numberedName base (count + 1)) = none) :
    ∃ places : List Place,
      ((numberedNames base count).map (glyph.place? step)).takeWhile Option.isSome =
          places.map some ∧
        (∀ index < places.length,
          glyph.place? step (numberedName base (index + 1)) = places[index]?) ∧
        glyph.place? step (numberedName base (places.length + 1)) = none := by
  let place := fun index => glyph.place? step (numberedName base (index + 1))
  obtain ⟨length, atMost, same, before, next⟩ :=
    exists_takeWhile_map_range Option.isSome place count
  have ended : place length = none := by
    rcases Nat.lt_or_eq_of_le atMost with below | all
    · simpa using next below
    · rw [all]
      exact missing
  have places : ((List.range length).filterMap place).map some = (List.range length).map place := by
    rw [List.map_filterMap, ← List.filterMap_eq_map]
    refine List.filterMap_congr fun index listed => ?_
    obtain ⟨found, isFound⟩ := Option.isSome_iff_exists.mp (before index (List.mem_range.mp listed))
    simp [isFound]
  have size : ((List.range length).filterMap place).length = length := by
    simpa using congrArg List.length places
  refine ⟨(List.range length).filterMap place, ?_, fun index below => ?_, ?_⟩
  · rw [numberedNames, List.map_map, places]
    exact same
  · rw [size] at below
    have entry := congrArg (·[index]?) places
    simp only [List.getElem?_map, List.getElem?_range below, Option.map_some] at entry
    cases found : ((List.range length).filterMap place)[index]? with
    | none =>
        rw [found] at entry
        cases entry
    | some value =>
        rw [found] at entry
        exact (Option.some.inj entry).symm
  · rw [size]
    exact ended

end Glyph

section Carriers

variable {α : Type}

/-- The glyphs that take part in attachment, as marks or as others, in glyph order. -/
def LayoutContext.participants (context : LayoutContext α) (file : FeatureFile) (marks : Bool) :
    List (Glyph α) :=
  context.view.glyphsInOrder.filter fun glyph =>
    glyph.participates (context.glyphClasses? file) &&
      glyph.isMark (context.glyphClasses? file) == marks

theorem LayoutContext.nodup_names_participants (context : LayoutContext α) (file : FeatureFile)
    (marks : Bool) : ((context.participants file marks).map Glyph.name).Nodup :=
  context.view.nodup_names_glyphsInOrder.sublist (List.filter_sublist.map _)

namespace MarkWriter

variable [Coordinate α] {writer : MarkWriter} {context : LayoutContext α} {file : FeatureFile}
  {marks : Bool} {anchor base : String}

/-- The glyphs that carry an anchor, as marks or as others, in glyph order, each with the
place of its first such anchor. -/
def carriers (writer : MarkWriter) (context : LayoutContext α) (file : FeatureFile)
    (marks : Bool) (anchor : String) : List (GlyphName × Place) :=
  (context.participants file marks).filterMap fun glyph =>
    (glyph.place? writer.quantization anchor).map fun place => (glyph.name, place)

theorem nodup_names_carriers (writer : MarkWriter) (context : LayoutContext α)
    (file : FeatureFile) (marks : Bool) (anchor : String) :
    ((writer.carriers context file marks anchor).map Prod.fst).Nodup := by
  have distinct := List.pairwise_map.mp (context.nodup_names_participants file marks)
  refine List.pairwise_map.mpr (distinct.filterMap _ fun glyph other differ first found second
    next => ?_)
  obtain ⟨_, -, rfl⟩ := Option.map_eq_some_iff.mp found
  obtain ⟨_, -, rfl⟩ := Option.map_eq_some_iff.mp next
  exact differ

theorem glyphs_eq (writer : MarkWriter) (context : LayoutContext α) (file : FeatureFile) :
    writer.glyphs context file =
      (context.view.glyphsInOrder.filter fun glyph =>
        glyph.participates (context.glyphClasses? file)).map
          (Glyph.anchored writer.quantization (context.glyphClasses? file)) := by
  unfold glyphs
  rw [← List.filterMap_eq_map, ← List.filterMap_eq_filter, List.filterMap_filterMap]
  refine List.filterMap_congr fun glyph _ => ?_
  rw [Glyph.anchoredGlyph?_eq]
  cases takesPart : glyph.participates (context.glyphClasses? file) <;>
    simp [Option.guard, takesPart]

/-- The marks, or the others, among the glyphs that the writer keeps. -/
theorem filter_glyphs_eq (writer : MarkWriter) (context : LayoutContext α) (file : FeatureFile)
    (marks : Bool) :
    ((writer.glyphs context file).filter fun anchored => anchored.isMark == marks) =
      (context.participants file marks).map
        (Glyph.anchored writer.quantization (context.glyphClasses? file)) := by
  rw [glyphs_eq, List.filter_map, List.filter_filter]
  unfold LayoutContext.participants
  refine congrArg _ (List.filter_congr fun glyph _ => ?_)
  exact Bool.and_comm _ _

theorem attachable_glyphs (writer : MarkWriter) (context : LayoutContext α) (file : FeatureFile)
    (marks : Bool) (anchor : String) :
    MarkDraft.attachable (writer.glyphs context file) marks anchor =
      writer.carriers context file marks anchor := by
  unfold MarkDraft.attachable carriers
  rw [filter_glyphs_eq, List.filterMap_map]
  refine List.filterMap_congr fun glyph _ => ?_
  exact congrArg (Option.map _) (Glyph.place?_anchored _ _ glyph anchor)

/-- The marks with an anchor are its carriers in the order of their names. -/
theorem mem_marksWithAnchor {mark : GlyphName × Place} :
    mark ∈ marksWithAnchor (writer.glyphs context file) anchor ↔
      mark ∈ writer.carriers context file true anchor := by
  rw [← attachable_glyphs]
  unfold marksWithAnchor MarkDraft.attachable
  rw [mem_sortBy]
  simp

theorem nodup_marksWithAnchor (writer : MarkWriter) (context : LayoutContext α)
    (file : FeatureFile) (anchor : String) :
    ((marksWithAnchor (writer.glyphs context file) anchor).map Prod.fst).Nodup := by
  have distinct := writer.nodup_names_carriers context file true anchor
  rw [← attachable_glyphs] at distinct
  refine (((sortBy_perm _ _).map Prod.fst).nodup_iff).mpr ?_
  simpa [MarkDraft.attachable] using distinct

theorem mem_anchorNames_of_place? {glyph : Glyph α}
    (listed : glyph ∈ context.participants file marks)
    (found : (glyph.place? writer.quantization anchor).isSome = true) :
    anchor ∈ MarkDraft.anchorNames (writer.glyphs context file) := by
  rw [← Glyph.place?_anchored _ (context.glyphClasses? file)] at found
  unfold AnchoredGlyph.place? at found
  rw [Option.isSome_map, List.find?_isSome] at found
  obtain ⟨placed, held, same⟩ := found
  rw [MarkDraft.anchorNames, SortedSet.mem_ofList, List.mem_flatMap]
  refine ⟨glyph.anchored writer.quantization (context.glyphClasses? file), ?_,
    List.mem_map.mpr ⟨placed, held, of_decide_eq_true same⟩⟩
  have kept : _ ∈ (writer.glyphs context file).filter fun anchored => anchored.isMark == marks :=
    filter_glyphs_eq writer context file marks ▸ List.mem_map_of_mem listed
  exact (List.mem_filter.mp kept).1

/-- The ligatures of a chain are the glyphs that have the first anchor of the chain and are no
marks, each with its own part of the chain. -/
theorem ligatures_glyphs {count : Nat}
    (ends : EndsAfter (MarkDraft.anchorNames (writer.glyphs context file)) base count) :
    List.Forall₂ (fun glyph ligature => ligature.1 = glyph.name ∧
        glyph.HasChain writer.quantization base ligature.2)
      ((context.participants file false).filter fun glyph =>
        (glyph.place? writer.quantization (numberedName base 1)).isSome)
      (MarkDraft.ligatures (writer.glyphs context file) (numberedNames base count)) := by
  have others : ((writer.glyphs context file).filter fun anchored => !anchored.isMark) =
      (context.participants file false).map
        (Glyph.anchored writer.quantization (context.glyphClasses? file)) := by
    rw [← filter_glyphs_eq]
    exact List.filter_congr fun anchored _ => by cases anchored.isMark <;> rfl
  have places : ∀ glyph ∈ context.participants file false, ∃ places : List Place,
      ((numberedNames base count).map
        (glyph.anchored writer.quantization (context.glyphClasses? file)).place?).takeWhile
          Option.isSome = places.map some ∧
        (∀ index < places.length,
          glyph.place? writer.quantization (numberedName base (index + 1)) = places[index]?) ∧
        glyph.place? writer.quantization (numberedName base (places.length + 1)) = none := by
    intro glyph listed
    -- The glyph lacks the anchor that the whole font lacks, so its own part ends in the chain.
    have missing : glyph.place? writer.quantization (numberedName base (count + 1)) = none := by
      by_contra found
      exact ends.missing (mem_anchorNames_of_place? listed (Option.isSome_iff_ne_none.mpr found))
    have same : (glyph.anchored writer.quantization (context.glyphClasses? file)).place? =
        glyph.place? writer.quantization := funext (Glyph.place?_anchored _ _ glyph)
    rw [same]
    exact Glyph.exists_takeWhile_places missing
  unfold MarkDraft.ligatures
  rw [others, List.filterMap_map]
  refine forall₂_filter_filterMap (fun glyph listed first => ?_) fun glyph listed noFirst => ?_
  · obtain ⟨places, same, held, ended⟩ := places glyph listed
    have nonempty : places ≠ [] := fun none => by
      subst none
      rw [show numberedName base 1 = numberedName base ([].length + 1) from rfl, ended] at first
      cases first
    refine ⟨(glyph.name, places), ?_, rfl, nonempty, held, ended⟩
    dsimp only [Function.comp_apply]
    rw [same, List.isEmpty_map, if_neg fun none => nonempty (List.isEmpty_iff.mp none),
      List.filterMap_map]
    exact congrArg (fun places => some (glyph.name, places)) List.filterMap_some
  · obtain ⟨places, same, held, ended⟩ := places glyph listed
    have none : places = [] := by
      cases places with
      | nil => rfl
      | cons place rest =>
          rw [held 0 (Nat.succ_pos _)] at noFirst
          cases noFirst
    dsimp only [Function.comp_apply]
    rw [same, none]
    rfl

end MarkWriter

end Carriers

end FontCompiler
