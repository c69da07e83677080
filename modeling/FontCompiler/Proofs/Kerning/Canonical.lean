import FontCompiler.Proofs.Collection.Sorting
import FontCompiler.Proofs.Kerning.Order
import FontCompiler.Proofs.Kerning.Precedence

/-!
# Pairs in any order

The pairs of each script are the same in whatever order the kerning lists them.
Repeated sides and fragments of groups are found in the order of the list, but
where labels agree on values only equal pairs repeat, the fragments of a group are
those of its members in order, and only equal pairs are ties of the final order.
-/

namespace FontCompiler

theorem KernSide.eq_of_order {side other : KernSide} (tie : side.order other = .eq) :
    side = other := by
  cases side with
  | glyph name =>
      cases other with
      | glyph second =>
          have names : compare name second = .eq := tie
          exact congrArg _ (Std.LawfulEqCmp.eq_of_compare names)
      | group second others => cases tie
  | group name members =>
      cases other with
      | glyph second => cases tie
      | group second others =>
          obtain ⟨names, held⟩ := Ordering.then_eq_eq.mp tie
          exact congr (congrArg _ (Std.LawfulEqCmp.eq_of_compare names))
            (Std.LawfulEqCmp.eq_of_compare held)

section Pairs

variable {α : Type} {pairs others : List (KerningPair α)}

/-- Where labels agree on values, a pair is determined by its sides. -/
theorem LabelsAgree.eq_of_sides (agree : LabelsAgree pairs) {pair other : KerningPair α}
    (listed : pair ∈ pairs) (otherListed : other ∈ pairs) (firsts : pair.first = other.first)
    (seconds : pair.second = other.second) : pair = other := by
  have labels : pair.label = other.label := by rw [KerningPair.label, firsts, seconds]; rfl
  exact KerningPair.eq_of_sides firsts seconds (agree pair listed other otherListed labels)

theorem LabelsAgree.eq_of_order [Coordinate α] (agree : LabelsAgree pairs)
    {pair other : KerningPair α} (listed : pair ∈ pairs) (otherListed : other ∈ pairs)
    (below : (pair.order other).isLE = true) (above : (other.order pair).isLE = true) :
    pair = other := by
  have tie : pair.order other = .eq := Std.OrientedCmp.isLE_antisymm below above
  unfold KerningPair.order at tie
  obtain ⟨firsts, rest⟩ := Ordering.then_eq_eq.mp
    (Ordering.then_eq_eq.mp (Ordering.then_eq_eq.mp (Ordering.then_eq_eq.mp
      (Ordering.then_eq_eq.mp tie).2).2).2).2
  exact agree.eq_of_sides listed otherListed (KernSide.eq_of_order firsts)
    (KernSide.eq_of_order (Ordering.then_eq_eq.mp rest).1)

/-- Where labels agree on values, the pairs in order depend on which pairs there are alone. -/
theorem KerningPair.sort_eq_of_perm [Coordinate α] (agree : LabelsAgree pairs)
    (same : pairs.Perm others) : sort pairs = sort others :=
  sortBy_eq_of_perm isLE_order_trans isLE_order_total
    (fun _ listed _ otherListed => agree.eq_of_order listed otherListed) same

theorem nodup_distinctSides (pairs : List (KerningPair α)) : (distinctSides pairs).Nodup := by
  induction pairs with
  | nil => exact .nil
  | cons pair rest ih =>
      refine List.nodup_cons.mpr ⟨fun listed => ?_, ih.filter _⟩
      have dropped := (List.mem_filter.mp listed).2
      simp [KerningPair.sameSides] at dropped

theorem mem_distinctSides (agree : LabelsAgree pairs) {pair : KerningPair α} :
    pair ∈ distinctSides pairs ↔ pair ∈ pairs := by
  refine ⟨mem_of_mem_distinctSides, fun listed => ?_⟩
  obtain ⟨kept, keptListed, firsts, seconds⟩ := exists_mem_distinctSides listed
  rwa [← agree.eq_of_sides (mem_of_mem_distinctSides keptListed) listed firsts seconds]

theorem LabelsAgree.congr (agree : LabelsAgree pairs)
    (same : ∀ pair, pair ∈ pairs ↔ pair ∈ others) : LabelsAgree others :=
  fun pair listed other otherListed =>
    agree pair ((same pair).mpr listed) other ((same other).mpr otherListed)

theorem distinctSides_perm (agree : LabelsAgree pairs)
    (same : ∀ pair, pair ∈ pairs ↔ pair ∈ others) :
    (distinctSides pairs).Perm (distinctSides others) := by
  refine (List.perm_ext_iff_of_nodup (nodup_distinctSides pairs) (nodup_distinctSides others)).mpr
    fun pair => ?_
  rw [mem_distinctSides agree, mem_distinctSides (agree.congr same), same]

theorem mem_firstGroups {set : SortedSet GlyphName} :
    set ∈ firstGroups pairs ↔ ∃ pair ∈ pairs, ∃ name, pair.first = .group name set := by
  unfold firstGroups
  rw [List.mem_eraseDups, List.mem_filterMap]
  refine exists_congr fun pair => and_congr_right fun _ => ?_
  cases pair.first with
  | glyph name => simp
  | group name members => simp

end Pairs

/-- Tests that tell the same elements apart sort them into the same classes, in the
order in which the classes are met. -/
theorem map_eraseDups_congr {β γ δ ε : Type} [BEq γ] [LawfulBEq γ] [BEq δ] [LawfulBEq δ]
    {first : β → γ} {second : β → δ} {firstClass : γ → ε} {secondClass : δ → ε}
    (elements : List β)
    (same : ∀ element ∈ elements, ∀ other ∈ elements,
      (first element = first other ↔ second element = second other))
    (classes : ∀ element ∈ elements, firstClass (first element) = secondClass (second element)) :
    (elements.map first).eraseDups.map firstClass =
      (elements.map second).eraseDups.map secondClass := by
  induction elements using (measure List.length).wf.induction with
  | _ elements ih =>
      cases elements with
      | nil => rfl
      | cons element rest =>
          -- What is left after the first class is the same for both tests.
          have left : (rest.filter fun other => !first other == first element) =
              rest.filter fun other => !second other == second element := by
            refine List.filter_congr fun other listed => ?_
            have alike := same other (List.mem_cons_of_mem _ listed) element List.mem_cons_self
            rw [Bool.eq_iff_iff]
            simpa using not_congr alike
          have member : ∀ other ∈ rest.filter fun other => !first other == first element,
              other ∈ element :: rest :=
            fun other listed => List.mem_cons_of_mem _ (List.mem_filter.mp listed).1
          have shorter : (rest.filter fun other => !first other == first element).length <
              (element :: rest).length := Nat.lt_succ_of_le (List.length_filter_le _ _)
          have later := ih _ shorter
            (fun other listed third thirdListed =>
              same other (member other listed) third (member third thirdListed))
            fun other listed => classes other (member other listed)
          rw [List.map_cons, List.map_cons, List.eraseDups_cons, List.eraseDups_cons,
            List.map_cons, List.map_cons, List.filter_map, List.filter_map,
            classes element List.mem_cons_self]
          refine congrArg _ (later.trans ?_)
          rw [left]
          rfl

theorem signature_eq_iff {sets : List (SortedSet GlyphName)} {glyph other : GlyphName} :
    signature sets glyph = signature sets other ↔ ∀ set ∈ sets, (glyph ∈ set ↔ other ∈ set) := by
  unfold signature
  rw [List.map_inj_left]
  exact forall₂_congr fun _ _ => decide_eq_decide

theorem fragments_congr {sets others : List (SortedSet GlyphName)}
    (same : ∀ set, set ∈ sets ↔ set ∈ others) (members : SortedSet GlyphName) :
    fragments sets members = fragments others members := by
  have alike : ∀ glyph other : GlyphName,
      signature sets glyph = signature sets other ↔
        signature others glyph = signature others other := fun glyph other => by
    rw [signature_eq_iff, signature_eq_iff]
    simp only [same]
  unfold fragments
  refine map_eraseDups_congr members.toList (fun glyph _ other _ => alike glyph other)
    fun glyph _ => ?_
  exact SortedSet.filter_congr fun other _ => decide_eq_decide.mpr (alike other glyph)

section Canonical

variable {α : Type} {pairs others : List (KerningPair α)}

/-- Cutting first sides into fragments depends on the order of pairs for the order only. -/
theorem disjointFirsts_perm (same : pairs.Perm others) :
    (disjointFirsts pairs).Perm (disjointFirsts others) := by
  have sets : ∀ set, set ∈ firstGroups pairs ↔ set ∈ firstGroups others := fun set => by
    rw [mem_firstGroups, mem_firstGroups]
    simp only [same.mem_iff]
  unfold disjointFirsts
  dsimp only
  simp only [fragments_congr sets]
  exact same.flatMap_right _

variable [Coordinate α] (agree : LabelsAgree pairs) (same : ∀ pair, pair ∈ pairs ↔ pair ∈ others)
include agree same

theorem scriptBucket_congr (scripts : ScriptsByGlyph) (script : Script) :
    scriptBucket (scriptParts scripts pairs) script =
      scriptBucket (scriptParts scripts others) script := by
  have parts : ∀ part, part ∈ partsIn scripts pairs script ↔ part ∈ partsIn scripts others script :=
    fun part => by
      rw [mem_partsIn, mem_partsIn]
      simp only [same]
  have partsAgree : LabelsAgree (partsIn scripts pairs script) :=
    agree.of_parts fun part listed => partOf_of_mem_partsIn listed
  have cutAgree : LabelsAgree (disjointFirsts (distinctSides (partsIn scripts pairs script))) :=
    partsAgree.of_parts fun part listed =>
      let ⟨pair, member, cut, _⟩ := partOf_of_mem_disjointFirsts listed
      ⟨pair, mem_of_mem_distinctSides member, cut⟩
  exact KerningPair.sort_eq_of_perm cutAgree
    (disjointFirsts_perm (distinctSides_perm partsAgree parts))

/-- The pairs of each script depend on which pairs there are alone. -/
theorem splitByScript_congr (scripts : ScriptsByGlyph) :
    splitByScript scripts pairs = splitByScript scripts others := by
  have parts : ∀ part, part ∈ scriptParts scripts pairs ↔ part ∈ scriptParts scripts others :=
    fun part => by
      unfold scriptParts
      rw [List.mem_flatMap, List.mem_flatMap]
      simp only [same]
  have keys : SortedSet.ofList ((scriptParts scripts pairs).filterMap ScriptPart.script?) =
      SortedSet.ofList ((scriptParts scripts others).filterMap ScriptPart.script?) :=
    SortedSet.ofList_congr fun script => by
      rw [List.mem_filterMap, List.mem_filterMap]
      simp only [parts]
  unfold splitByScript
  dsimp only
  rw [keys, funext (scriptBucket_congr agree same scripts)]

omit [Coordinate α] agree in
theorem mem_halfPairs_congr (marks : SortedSet GlyphName) (marked : Bool) (part : KerningPair α) :
    part ∈ halfPairs marks marked pairs ↔ part ∈ halfPairs marks marked others := by
  unfold halfPairs basePairs markPairs
  cases marks.isEmpty with
  | true => cases marked <;> simp [same]
  | false => cases marked <;> simp [same]

theorem splitByScript_halfPairs_congr (scripts : ScriptsByGlyph) (marks : SortedSet GlyphName)
    (marked : Bool) : splitByScript scripts (halfPairs marks marked pairs) =
      splitByScript scripts (halfPairs marks marked others) :=
  splitByScript_congr (agree.of_parts fun _ listed => partOf_of_mem_halfPairs listed)
    (mem_halfPairs_congr same marks marked) scripts

end Canonical

end FontCompiler
