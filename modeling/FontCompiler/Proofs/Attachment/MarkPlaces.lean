import FontCompiler.Proofs.Attachment.MarkAdditions
import FontCompiler.Proofs.Feature.MarkClasses

/-!
# Where mark classes place their marks

The last entry of a glyph in a mark class counts. A class of the file is completed only if it
places no mark elsewhere, and any other class in use has a name that the file has not taken. So
in the new file the class of an anchor places each mark with the anchor where it has it.
-/

namespace FontCompiler

open Statement

def MarkClassEntry.ofMark (className : String) (mark : GlyphName × Place) : MarkClassEntry :=
  ⟨mark.1, mark.2, className⟩

/-- How a class for some marks comes about: it completes a class of the file that places none
of them elsewhere, or it is new and has all of them. -/
inductive UsedMarkClass.Resolved (file : FeatureFile) (marks : List (GlyphName × Place))
    (used : UsedMarkClass) : Prop where
  | completed (existing : OrderedMap GlyphName Place) (named : used.name = "MC" ++ used.anchor)
      (found : file.markClasses.get? used.name = some existing)
      (agrees : MarkClasses.agrees existing marks = true)
      (entries : used.entries = (marks.filter fun mark => (existing.get? mark.1).isNone).map
        (.ofMark used.name))
  | fresh (free : used.name ∉ file.classNames) (entries : used.entries = marks.map
      (.ofMark used.name))

namespace UsedMarkClass.Resolved

variable {file : FeatureFile} {marks : List (GlyphName × Place)} {used : UsedMarkClass}

theorem of_mem_entries (resolved : used.Resolved file marks) {entry : MarkClassEntry}
    (listed : entry ∈ used.entries) : ∃ mark ∈ marks, entry = .ofMark used.name mark := by
  cases resolved with
  | completed existing named found agrees entries =>
      rw [entries] at listed
      obtain ⟨mark, kept, rfl⟩ := List.mem_map.mp listed
      exact ⟨mark, (List.mem_filter.mp kept).1, rfl⟩
  | fresh free entries =>
      rw [entries] at listed
      obtain ⟨mark, member, rfl⟩ := List.mem_map.mp listed
      exact ⟨mark, member, rfl⟩

/-- Each mark is placed by the file or has an entry. -/
theorem placed (resolved : used.Resolved file marks) {mark : GlyphName × Place}
    (listed : mark ∈ marks) : file.markPlace? used.name mark.1 = some mark.2 ∨
      .ofMark used.name mark ∈ used.entries := by
  cases resolved with
  | completed existing named found agrees entries =>
      unfold FeatureFile.markPlace? placeIn?
      rw [found, Option.bind_some, entries]
      cases known : existing.get? mark.1 with
      | none =>
          exact .inr (List.mem_map_of_mem (List.mem_filter.mpr ⟨listed, by rw [known]; rfl⟩))
      | some place =>
          have same := List.all_eq_true.mp agrees mark listed
          rw [known, Option.all_some] at same
          exact .inl (congrArg some (of_decide_eq_true same))
  | fresh free entries =>
      rw [entries]
      exact .inr (List.mem_map_of_mem listed)

theorem name_eq_of_mem (resolved : used.Resolved file marks) (held : used.name ∈ file.classNames) :
    used.name = "MC" ++ used.anchor := by
  cases resolved with
  | completed existing named found agrees entries => exact named
  | fresh free entries => exact absurd held free

end UsedMarkClass.Resolved

namespace MarkClasses

variable {file : FeatureFile} {glyphs : List AnchoredGlyph} {classes further : MarkClasses}
  {others : List String} {anchor className : String} {used other : UsedMarkClass}

/-- Whether the classes in use are for different anchors, each for all marks with its anchor. -/
structure Exact (file : FeatureFile) (glyphs : List AnchoredGlyph) (classes : MarkClasses) :
    Prop where
  distinct : (classes.used.map UsedMarkClass.anchor).Nodup
  resolved : ∀ used ∈ classes.used, used.Resolved file (marksWithAnchor glyphs used.anchor)

theorem choose_resolved {taken : SortedSet String} (kept : ∀ name ∈ file.classNames, name ∈ taken)
    (anchor : String) (marks : List (GlyphName × Place)) :
    (choose file taken anchor marks).Resolved file marks := by
  unfold choose
  dsimp only
  split
  · next existing found =>
      obtain ⟨held, agree⟩ := Option.filter_eq_some_iff.mp found
      exact .completed existing rfl held agree rfl
  · exact .fresh (fun held => freshClassName_not_mem _ _ (kept _ held)) rfl

theorem Exact.use? (exact : classes.Exact file glyphs)
    (sound : classes.Sound file glyphs others)
    (found : classes.use? file glyphs anchor = some (className, further)) :
    further.Exact file glyphs ∧ (∀ used ∈ classes.used, used ∈ further.used) ∧
      ∃ used ∈ further.used, used.anchor = anchor ∧ used.name = className := by
  unfold MarkClasses.use? at found
  split at found
  · next used known =>
      cases found
      refine ⟨exact, fun _ inUse => inUse, used, List.mem_of_find?_eq_some known, ?_, rfl⟩
      simpa using List.find?_some known
  · next unknown =>
      dsimp only at found
      split at found
      · cases found
      · cases found
        have chosen := choose_chosen file classes.taken anchor (marksWithAnchor glyphs anchor)
        refine ⟨⟨?_, fun used inUse => ?_⟩, fun used inUse => List.mem_append_left _ inUse,
          _, List.mem_append_right _ (List.mem_singleton_self _), chosen.anchor_eq, rfl⟩
        · rw [List.map_append, List.map_singleton, chosen.anchor_eq]
          refine List.nodup_append'.mpr ⟨exact.distinct, List.nodup_singleton _, ?_⟩
          intro name old same
          obtain ⟨used, inUse, rfl⟩ := List.mem_map.mp old
          exact absurd (List.mem_singleton.mp same)
            (by simpa using List.find?_eq_none.mp unknown used inUse)
        · rcases List.mem_append.mp inUse with old | new
          · exact exact.resolved used old
          · rw [List.mem_singleton.mp new, chosen.anchor_eq]
            exact choose_resolved sound.new.kept anchor _

/-- Two classes in use have different names. -/
theorem Exact.eq_of_name_eq (exact : classes.Exact file glyphs)
    (sound : classes.Sound file glyphs others) (inUse : used ∈ classes.used)
    (otherInUse : other ∈ classes.used) (same : used.name = other.name) : used = other := by
  by_cases held : used.name ∈ file.classNames
  · have anchors : "MC" ++ used.anchor = "MC" ++ other.anchor := by
      rw [← (exact.resolved used inUse).name_eq_of_mem held, same,
        (exact.resolved other otherInUse).name_eq_of_mem (same ▸ held)]
    exact List.inj_on_of_nodup_map exact.distinct inUse otherInUse
      ((String.append_right_inj _).mp anchors)
  · have new : (newNames file classes).Nodup := (List.nodup_append'.mp sound.new.distinct).2.1
    rw [newNames, names, List.filter_map] at new
    exact List.inj_on_of_nodup_map new (List.mem_filter.mpr ⟨inUse, decide_eq_true held⟩)
      (List.mem_filter.mpr ⟨otherInUse, decide_eq_true (same ▸ held)⟩) same

/-- In the new file the class of an anchor places the marks with the anchor. -/
theorem Exact.markPlace? (exact : classes.Exact file glyphs)
    (sound : classes.Sound file glyphs others) (inUse : used ∈ classes.used)
    (distinct : ((marksWithAnchor glyphs used.anchor).map Prod.fst).Nodup)
    {blocks : List Statement} (noMark : definedMarkClasses blocks = [])
    {mark : GlyphName × Place} (marked : mark ∈ marksWithAnchor glyphs used.anchor) :
    (file.append (classes.definitions ++ blocks)).markPlace? used.name mark.1 = some mark.2 := by
  have added : ∀ entry, .markClass entry ∈ visit (classes.definitions ++ blocks) ↔
      ∃ other ∈ classes.used, entry ∈ other.entries := by
    intro entry
    have outside : .markClass entry ∉ visit blocks := fun listed =>
      nomatch List.filterMap_eq_nil_iff.mp noMark _ listed
    rw [visit_append, MarkWriter.visit_definitions, List.mem_append, or_iff_left outside]
    simp [definitions]
  refine FeatureFile.markPlace?_append (fun entry listed sameClass sameGlyph => ?_) ?_
  · -- Entries of the class are those of the anchor, and the anchor has each mark once.
    obtain ⟨other, otherInUse, ofOther⟩ := (added entry).mp listed
    obtain ⟨further, member, rfl⟩ := (exact.resolved other otherInUse).of_mem_entries ofOther
    have same : other = used := exact.eq_of_name_eq sound otherInUse inUse sameClass
    subst same
    exact congrArg Prod.snd (List.inj_on_of_nodup_map distinct member marked sameGlyph)
  · refine ((exact.resolved used inUse).placed marked).imp_right fun listed => ?_
    exact (added _).mpr ⟨used, inUse, listed⟩

end MarkClasses

namespace MarkDraft

variable {file : FeatureFile} {glyphs : List AnchoredGlyph} {earlier : List Statement}
  {draft : MarkDraft}

/-- A plan leaves the classes in use as they are, or uses the class of its anchor. -/
theorem exact_addPlan (exact : draft.classes.Exact file glyphs)
    (sound : Sound file glyphs earlier draft) (plan : MarkPlan) :
    (addPlan file glyphs draft plan).classes.Exact file glyphs ∧
      ∀ used ∈ draft.classes.used, used ∈ (addPlan file glyphs draft plan).classes.used := by
  rcases addPlan_cases plan with ⟨-, same⟩ | ⟨className, classes, -, found, same⟩
  · rw [same]
    exact ⟨exact, fun _ inUse => inUse⟩
  · obtain ⟨further, kept, -⟩ := exact.use? sound.classes found
    rw [same, addPlanned_eq]
    dsimp only
    split
    · exact ⟨⟨further.distinct, further.resolved⟩, kept⟩
    · exact ⟨further, kept⟩

theorem exact_foldl (exact : draft.classes.Exact file glyphs)
    (sound : Sound file glyphs earlier draft) (plans : List MarkPlan) :
    (plans.foldl (addPlan file glyphs) draft).classes.Exact file glyphs ∧
      ∀ used ∈ draft.classes.used,
        used ∈ (plans.foldl (addPlan file glyphs) draft).classes.used := by
  induction plans generalizing draft with
  | nil => exact ⟨exact, fun _ inUse => inUse⟩
  | cons plan rest ih =>
      obtain ⟨further, kept⟩ := exact_addPlan exact sound plan
      obtain ⟨last, keptLast⟩ := ih further (sound.addPlan plan)
      exact ⟨last, fun used inUse => keptLast used (kept used inUse)⟩

end MarkDraft

end FontCompiler
