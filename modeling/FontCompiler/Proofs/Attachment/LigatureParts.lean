import FontCompiler.Proofs.Attachment.MarkLookups

/-!
# Anchors of ligatures

The names of anchors give the pairs and the chains exactly, whatever their order and however
often they are listed. A chain is as long as the names of the whole font make it, but each
ligature has a rule for its own part of the chain, up to the first anchor that it lacks.
-/

namespace FontCompiler

open Statement

/-- Whether pairs and chains are those of some names, in the order of their mark anchors. -/
structure ExactAnchors (listed : List String) (pairs : List AnchorPair)
    (chains : List AnchorChain) : Prop where
  pair : ∀ base mark, ⟨base, mark⟩ ∈ pairs ↔
    base ≠ "" ∧ mark = "_" ++ base ∧ base ∈ listed ∧ mark ∈ listed
  chain : ∀ base, (∃ parts, ⟨parts, "_" ++ base⟩ ∈ chains) ↔
    base ≠ "" ∧ "_" ++ base ∈ listed ∧ numberedName base 1 ∈ listed
  parts : ∀ parts mark, ⟨parts, mark⟩ ∈ chains → ∃ base count, base ≠ "" ∧ mark = "_" ++ base ∧
    parts = (List.range count).map (fun index => numberedName base (index + 1)) ∧
      (∀ index < count, numberedName base (index + 1) ∈ listed) ∧
        numberedName base (count + 1) ∉ listed
  pairs_increasing : pairs.Pairwise fun first second => compare first.mark second.mark = .lt
  chains_increasing : chains.Pairwise fun first second => compare first.mark second.mark = .lt

theorem exactAnchors_ofList (listed : List String) :
    ExactAnchors listed (anchorPairs (.ofList listed)) (anchorChains (.ofList listed)) where
  pair base mark := by
    rw [mem_anchorPairs, SortedSet.mem_ofList, SortedSet.mem_ofList]
  chain base := by
    simp only [mem_anchorChains, SortedSet.mem_ofList]
    constructor
    · rintro ⟨parts, other, count, nonempty, marked, positive, ends, same⟩
      have sameName : other = base :=
        (String.append_right_inj _).mp (congrArg AnchorChain.mark same).symm
      subst sameName
      exact ⟨nonempty, marked, SortedSet.mem_ofList.mp (ends.before 0 positive)⟩
    · rintro ⟨nonempty, marked, first⟩
      obtain ⟨count, ends, -⟩ := exists_numberedChain_eq (.ofList listed) base
      have positive : 0 < count := Nat.pos_of_ne_zero fun none => by
        subst none
        exact ends.missing (SortedSet.mem_ofList.mpr first)
      exact ⟨_, base, count, nonempty, marked, positive, ends, rfl⟩
  parts parts mark found := by
    obtain ⟨base, count, nonempty, -, -, ends, same⟩ := mem_anchorChains.mp found
    cases same
    refine ⟨base, count, nonempty, rfl, rfl, fun index below => ?_, fun further => ?_⟩
    · exact SortedSet.mem_ofList.mp (ends.before index below)
    · exact ends.missing (SortedSet.mem_ofList.mpr further)
  pairs_increasing := anchorPairs_increasing _
  chains_increasing := anchorChains_increasing _

namespace MarkWriter

open MarkDraft

variable {α : Type} [Coordinate α] {writer : MarkWriter} {context : LayoutContext α}
  {file : FeatureFile} {name : String}

/-- Whether a statement is the lookup that attaches the marks of a name to ligatures: by one
rule for each glyph that is no mark and carries the first numbered anchor of the name, in glyph
order, with the glyph's own numbered anchors as far as they go, and by one class that places the
marks in a file. -/
def IsChainLookup (writer : MarkWriter) (context : LayoutContext α) (file result : FeatureFile)
    (name : String) (lookup : Statement) : Prop :=
  ∃ lookupName className rules, lookup = .block .lookup lookupName rules ∧
    (∀ mark ∈ writer.carriers context file true ("_" ++ name),
      result.markPlace? className mark.1 = some mark.2) ∧
    List.Forall₂ (fun glyph rule => ∃ places, glyph.HasChain writer.quantization name places ∧
        rule = .position (.markToLigature glyph.name
          (places.map fun place => [⟨place, className⟩])))
      ((context.participants file false).filter fun glyph =>
        (glyph.place? writer.quantization (numberedName name 1)).isSome) rules

namespace Drafted

variable {addition : MarkAddition} (drafted : writer.Drafted context file addition)
include drafted

theorem ligatures_isChainLookup :
    OneForEach (fun name => writer.Joins context file "mark" false (numberedName name 1) name)
      (writer.IsChainLookup context file (file.append addition.statements))
      addition.ligatures := by
  refine drafted.ligatures.imp fun name joins lookup member made => ?_
  obtain ⟨index, isLookup⟩ := made
  obtain ⟨used, inUse, same, lookupName, rfl⟩ := exists_of_isLookup_chainPlan isLookup
  obtain ⟨count, ends, chain⟩ := exists_numberedChain_eq
    (anchorNames (writer.glyphs context file)) name
  refine ⟨lookupName, used.name, _, rfl, fun mark carrier => ?_, ?_⟩
  · exact drafted.markPlace?_append (.inr (.inl member)) inUse (same ▸ carrier)
  · rw [chain, List.forall₂_map_right_iff]
    refine (ligatures_glyphs ends).imp fun glyph ligature related => ?_
    exact ⟨ligature.2, related.2, by rw [related.1]⟩

/-- The other lookups have no rules for ligatures. -/
theorem markToLigature_not_mem {lookup : Statement}
    (member : lookup ∈ addition.bases ++ addition.marks) (ligature : GlyphName)
    (parts : List (List AttachmentPoint)) :
    .position (.markToLigature ligature parts) ∉ lookup.children := by
  intro found
  rcases List.mem_append.mp member with base | mark
  · obtain ⟨name, index, isLookup⟩ := drafted.bases.exists_name base
    obtain ⟨used, -, -, lookupName, rfl⟩ := exists_of_isLookup_pairPlan isLookup
    obtain ⟨carrier, -, same⟩ := List.mem_map.mp found
    cases same
  · obtain ⟨name, index, isLookup⟩ := drafted.marks.exists_name mark
    obtain ⟨used, -, -, lookupName, filterName, rfl⟩ := exists_of_isLookup_markPlan isLookup
    rcases List.mem_append.mp found with filter | rule
    · simp [filterStatements] at filter
    · obtain ⟨carrier, -, same⟩ := List.mem_map.mp rule
      cases same

end Drafted

/-- The names of anchors give the pairs and the chains, and the glyphs their own parts of the
chains. -/
theorem anchors_paired_exactly (listed : List String) {written : Written α}
    (wrote : writer.write context file = .ok written) :
    (∀ others : List String, (∀ name, name ∈ others ↔ name ∈ listed) →
        anchorPairs (.ofList others) = anchorPairs (.ofList listed) ∧
          anchorChains (.ofList others) = anchorChains (.ofList listed)) ∧
      ExactAnchors listed (anchorPairs (.ofList listed)) (anchorChains (.ofList listed)) ∧
      ((context.participants file false).map Glyph.name).Nodup ∧
      ∃ addition, written.file = file.append (MarkAddition.statements addition) ∧
        OneForEach (fun name => writer.Joins context file "mark" false (numberedName name 1) name)
          (writer.IsChainLookup context file written.file) addition.ligatures ∧
        ∀ lookup ∈ addition.bases ++ addition.marks, ∀ ligature parts,
          .position (.markToLigature ligature parts) ∉ lookup.children := by
  have step : writer.quantization ≠ 0 := fun zero => by
    rw [write, if_pos zero] at wrote
    cases wrote
  obtain ⟨outcome, addition, same, appended, drafted⟩ := exists_drafted context file step
  cases wrote.symm.trans same
  refine ⟨fun others sameNames => ?_, exactAnchors_ofList listed,
    context.nodup_names_participants file false, addition, appended, ?_, fun lookup member =>
      drafted.markToLigature_not_mem member⟩
  · rw [SortedSet.ofList_congr sameNames]
    exact ⟨rfl, rfl⟩
  · rw [appended]
    exact drafted.ligatures_isChainLookup

end MarkWriter

/-- Two ligatures, of which the second one lacks the second anchor of the chain. -/
def ligatureFont : Font Rat where
  glyphs := .ofList [
    { name := "f_f_i", width := 900, height := 0, anchors := [⟨some "top_1", ⟨150, 700⟩⟩,
      ⟨some "top_2", ⟨450, 700⟩⟩, ⟨some "top_3", ⟨750, 700⟩⟩] },
    { name := "f_i", width := 600, height := 0,
      anchors := [⟨some "top_1", ⟨150, 700⟩⟩, ⟨some "top_3", ⟨450, 700⟩⟩] },
    { name := "acute", width := 0, height := 0, anchors := [⟨some "_top", ⟨0, 600⟩⟩] }]

def ligatureContext : LayoutContext Rat := ⟨ligatureFont.whole, .builtin, ∅⟩

theorem anchors_paired_exactly_ligatureContext :
    anchorChains (.ofList ["top_3", "_top", "top_1", "top_2", "top_1"]) =
        [⟨["top_1", "top_2", "top_3"], "_top"⟩] ∧
      MarkWriter.carriers {} ligatureContext {} false "top_1" =
        [("f_f_i", ⟨150, 700⟩), ("f_i", ⟨150, 700⟩)] ∧
      MarkWriter.carriers {} ligatureContext {} true "_top" = [("acute", ⟨0, 600⟩)] ∧
      ∃ written, MarkWriter.write {} ligatureContext {} = .ok written ∧
        (∀ others : List String,
          (∀ name, name ∈ others ↔ name ∈ ["top_3", "_top", "top_1", "top_2", "top_1"]) →
            anchorPairs (.ofList others) =
                anchorPairs (.ofList ["top_3", "_top", "top_1", "top_2", "top_1"]) ∧
              anchorChains (.ofList others) =
                anchorChains (.ofList ["top_3", "_top", "top_1", "top_2", "top_1"])) ∧
        ExactAnchors ["top_3", "_top", "top_1", "top_2", "top_1"]
          (anchorPairs (.ofList ["top_3", "_top", "top_1", "top_2", "top_1"]))
          (anchorChains (.ofList ["top_3", "_top", "top_1", "top_2", "top_1"])) ∧
        ((ligatureContext.participants {} false).map Glyph.name).Nodup ∧
        ∃ addition, written.file = FeatureFile.append (MarkAddition.statements addition) {} ∧
          OneForEach (fun name =>
              MarkWriter.Joins {} ligatureContext {} "mark" false (numberedName name 1) name)
            (MarkWriter.IsChainLookup {} ligatureContext {} written.file) addition.ligatures ∧
          ∀ lookup ∈ addition.bases ++ addition.marks, ∀ ligature parts,
            .position (.markToLigature ligature parts) ∉ lookup.children := by
  obtain ⟨notices, wrote⟩ : ∃ notices, MarkWriter.write {} ligatureContext {} =
      .ok (.appending (MarkWriter.additions {} ligatureContext {}) {} notices) :=
    MarkWriter.write_eq_appending (by decide)
  exact ⟨by decide +kernel, by decide +kernel, by decide +kernel, _, wrote,
    MarkWriter.anchors_paired_exactly _ wrote⟩

end FontCompiler
