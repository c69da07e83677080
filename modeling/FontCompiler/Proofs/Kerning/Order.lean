import FontCompiler.Proofs.Kerning.Coverage

/-!
# The order of pairs

The order of pairs is total, and it looks first at which sides are groups. The
first pair of a sorted list that covers two glyphs is therefore one of the kind
that names them most closely.
-/

namespace FontCompiler

/-- Comparing by an image keeps an order an order. -/
theorem transCmp_comap {β γ : Type} (cmp : γ → γ → Ordering) [Std.TransCmp cmp] (image : β → γ) :
    Std.TransCmp fun first second => cmp (image first) (image second) where
  eq_swap {first second} :=
    (Std.OrientedCmp.eq_swap :
      cmp (image first) (image second) = (cmp (image second) (image first)).swap)
  isLE_trans {first _ third} below above :=
    (Std.TransCmp.isLE_trans below above : (cmp (image first) (image third)).isLE = true)

namespace KernSide

/-- The members of a group. A glyph has none. -/
def members : KernSide → SortedSet GlyphName
  | glyph _ => ∅
  | group _ members => members

/-- Sides are compared by kind, then by name, then by members. -/
theorem order_eq_compareLex : KernSide.order =
    compareLex (compareOn isGroup) (compareLex (compareOn name) (compareOn members)) := by
  funext side other
  cases side with
  | glyph first =>
      cases other with
      | glyph second =>
          simp [order, compareLex, compareOn, isGroup, name, members]
      | group second others => rfl
  | group first held =>
      cases other with
      | glyph second => rfl
      | group second others => rfl

instance : Std.TransCmp KernSide.order := by
  rw [order_eq_compareLex]
  infer_instance

end KernSide

namespace KerningPair

variable {α : Type}

section Sorting

variable [Coordinate α]

instance : Std.TransCmp (KerningPair.order : KerningPair α → KerningPair α → Ordering) := by
  have firsts := transCmp_comap KernSide.order (KerningPair.first : KerningPair α → KernSide)
  have seconds := transCmp_comap KernSide.order (KerningPair.second : KerningPair α → KernSide)
  have ordered : Std.TransCmp (Coordinate.order : α → α → Ordering) := Coordinate.order_trans
  have values := transCmp_comap Coordinate.order (KerningPair.value : KerningPair α → α)
  exact inferInstanceAs (Std.TransCmp
    (compareLex (compareOn fun pair : KerningPair α => pair.first.isGroup) <|
      compareLex (compareOn fun pair => pair.second.isGroup) <|
      compareLex (compareOn fun pair => pair.first.name) <|
      compareLex (compareOn fun pair => pair.second.name) <|
      compareLex (fun pair other => pair.first.order other.first) <|
      compareLex (fun pair other => pair.second.order other.second)
        fun pair other => Coordinate.order pair.value other.value))

@[simp] theorem mem_sort {pairs : List (KerningPair α)} {pair : KerningPair α} :
    pair ∈ sort pairs ↔ pair ∈ pairs :=
  mem_sortBy

theorem isLE_order_trans (first second third : KerningPair α)
    (below : (first.order second).isLE = true) (above : (second.order third).isLE = true) :
    (first.order third).isLE = true :=
  Std.TransCmp.isLE_trans below above

theorem isLE_order_total (first second : KerningPair α) :
    (first.order second).isLE = true ∨ (second.order first).isLE = true := by
  have swapped : second.order first = (first.order second).swap := Std.OrientedCmp.eq_swap
  rw [swapped]
  cases first.order second with
  | lt => exact .inl rfl
  | eq => exact .inl rfl
  | gt => exact .inr rfl

theorem pairwise_sort (pairs : List (KerningPair α)) :
    (sort pairs).Pairwise fun pair other => (pair.order other).isLE = true :=
  pairwise_sortBy isLE_order_trans isLE_order_total pairs

end Sorting

/-- The kinds of pairs, those that name glyphs more closely first. -/
def levels : List (Bool × Bool) := [(false, false), (false, true), (true, false), (true, true)]

def levelRank (level : Bool × Bool) : Nat := 2 * level.1.toNat + level.2.toNat

/-- A sorted list never goes back to a kind that names glyphs more closely. -/
theorem levelRank_le_of_order [Coordinate α] {pair other : KerningPair α}
    (below : (pair.order other).isLE = true) : levelRank pair.level ≤ levelRank other.level := by
  have atMost : ∀ a b : Bool, (compare a b).isLE = true → a.toNat ≤ b.toNat := by decide
  have less : ∀ a b : Bool, compare a b = .lt → a.toNat < b.toNat := by decide
  have bounded : ∀ a : Bool, a.toNat ≤ 1 := by decide
  unfold order at below
  obtain ⟨firsts, rest⟩ := Ordering.isLE_then_iff_and.mp below
  have firstAtMost := atMost _ _ firsts
  have secondBound := bounded pair.second.isGroup
  simp only [levelRank, level]
  rcases rest with strict | rest
  · have firstLess := less _ _ strict
    omega
  · have secondAtMost := atMost _ _ (Ordering.isLE_then_iff_and.mp rest).1
    omega

/-- The search through the kinds ends at a kind with a value when no closer kind has one. -/
theorem findSome?_levels {value? : Bool × Bool → Option α} {level : Bool × Bool} {value : α}
    (here : value? level = some value)
    (closer : ∀ other, levelRank other < levelRank level → value? other = none) :
    levels.findSome? value? = some value := by
  obtain ⟨first, second⟩ := level
  cases first <;> cases second <;>
    simp_all [levels, levelRank]

/-- When the pairs of each kind that cover two glyphs agree on one value, the
first pair that covers them has the value of the closest kind that has one. -/
theorem value_find?_eq_findSome?_levels [Coordinate α] {pairs : List (KerningPair α)}
    (sorted : pairs.Pairwise fun pair other => (pair.order other).isLE = true)
    {first second : GlyphName} {value? : Bool × Bool → Option α}
    (values : ∀ level value, (∃ pair ∈ pairs, pair.Covers first second ∧ pair.level = level ∧
      pair.value = value) ↔ value? level = some value) :
    (pairs.find? fun pair => decide (pair.Covers first second)).map KerningPair.value =
      levels.findSome? value? := by
  cases found : pairs.find? fun pair => decide (pair.Covers first second) with
  | none =>
      rw [List.find?_eq_none] at found
      refine (List.findSome?_eq_none_iff.mpr fun level _ => ?_).symm
      cases listed : value? level with
      | none => rfl
      | some value =>
          obtain ⟨pair, member, covers, -, -⟩ := (values level value).mpr listed
          exact absurd (decide_eq_true covers) (found pair member)
  | some pair =>
      obtain ⟨covers, before, after, split, passed⟩ := List.find?_eq_some_iff_append.mp found
      have covers : pair.Covers first second := of_decide_eq_true covers
      have member : pair ∈ pairs := List.mem_of_find?_eq_some found
      refine (findSome?_levels ((values pair.level pair.value).mp ⟨pair, member, covers, rfl, rfl⟩)
        fun level closer => ?_).symm
      cases listed : value? level with
      | none => rfl
      | some value =>
          -- A covering pair of a closer kind would have to stand before the first covering pair.
          obtain ⟨other, otherMember, otherCovers, rfl, -⟩ := (values level value).mpr listed
          rw [split, List.pairwise_append, List.pairwise_cons] at sorted
          rw [split] at otherMember
          rcases List.mem_append.mp otherMember with earlier | later
          · have skipped := passed other earlier
            simp [otherCovers] at skipped
          · rcases List.mem_cons.mp later with rfl | behind
            · exact absurd closer (Nat.lt_irrefl _)
            · have atMost := levelRank_le_of_order (sorted.2.1.1 other behind)
              omega

end KerningPair

end FontCompiler
