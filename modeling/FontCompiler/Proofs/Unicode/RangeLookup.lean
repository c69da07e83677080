import Mathlib.Data.List.Chain
import FontCompiler.Unicode.CharacterData

/-!
# Halving a table finds what a scan finds

The halving looks at the ends of ranges only. In a table whose ranges stand in order it
comes to the first range that does not end below a codepoint, and no other range can hold
the codepoint. The built-in tables stand in order, so each of their answers is that of
reading the table from its start.
-/

namespace FontCompiler

universe u

/-! ## Halving -/

section Halving

variable {α : Type u} {entries : Array α} {test : α → Bool}

/-- A test holds for the entries before an index and fails from there on. -/
structure TurnsAt (entries : Array α) (test : α → Bool) (index : Nat) : Prop where
  holds : ∀ entry ∈ entries.toList.take index, test entry = true
  fails : ∀ entry ∈ entries.toList.drop index, test entry = false

/-- A test that never holds again once it has failed. -/
def TurnsOnce (entries : Array α) (test : α → Bool) : Prop :=
  entries.toList.Pairwise fun earlier later => test later = true → test earlier = true

theorem drop_of_getElem? {index : Nat} {entry : α} (found : entries[index]? = some entry) :
    entries.toList.drop index = entry :: entries.toList.drop (index + 1) := by
  rw [← Array.getElem?_toList] at found
  obtain ⟨inside, rfl⟩ := List.getElem?_eq_some_iff.mp found
  exact (List.getElem_cons_drop inside).symm

theorem toList_of_getElem? {index : Nat} {entry : α} (found : entries[index]? = some entry) :
    entries.toList = entries.toList.take index ++ entry :: entries.toList.drop (index + 1) := by
  rw [← drop_of_getElem? found, List.take_append_drop]

/-- Where the test holds, it holds for all entries up to there. -/
theorem TurnsOnce.holds_take (turns : TurnsOnce entries test) {middle : Nat} {entry : α}
    (found : entries[middle]? = some entry) (held : test entry = true) :
    ∀ earlier ∈ entries.toList.take (middle + 1), test earlier = true := by
  have parts := toList_of_getElem? found
  unfold TurnsOnce at turns
  rw [parts, List.pairwise_append] at turns
  rw [← Array.getElem?_toList] at found
  intro earlier listed
  rw [List.take_add_one, found, Option.toList_some, List.mem_append, List.mem_singleton] at listed
  rcases listed with before | same
  · exact turns.2.2 earlier before entry List.mem_cons_self held
  · exact same ▸ held

/-- Where the test fails, it fails for all entries from there on. -/
theorem TurnsOnce.fails_drop (turns : TurnsOnce entries test) {middle : Nat} {entry : α}
    (found : entries[middle]? = some entry) (failed : test entry = false) :
    ∀ later ∈ entries.toList.drop middle, test later = false := by
  have parts := toList_of_getElem? found
  unfold TurnsOnce at turns
  rw [parts, List.pairwise_append, List.pairwise_cons] at turns
  intro later listed
  rw [drop_of_getElem? found, List.mem_cons] at listed
  rcases listed with same | after
  · exact same ▸ failed
  · exact Bool.eq_false_iff.mpr fun held =>
      Bool.eq_false_iff.mp failed (turns.2.1.1 later after held)

/-- Halving keeps the turn between its bounds, and ends at it. -/
theorem TurnsOnce.turnsAt_firstFailing (turns : TurnsOnce entries test) {low high : Nat}
    (between : low ≤ high) (inside : high ≤ entries.size)
    (before : ∀ entry ∈ entries.toList.take low, test entry = true)
    (after : ∀ entry ∈ entries.toList.drop high, test entry = false) :
    TurnsAt entries test (firstFailing entries test low high) := by
  fun_induction firstFailing entries test low high with
  | case1 low high below middle entry found held ih =>
      exact ih (by omega) inside (turns.holds_take found held) after
  | case2 low high below middle entry found failed ih =>
      exact ih (by omega) (by omega) before
        (turns.fails_drop found (Bool.eq_false_iff.mpr failed))
  | case3 low high below middle missing =>
      have beyond : entries.size ≤ middle := Array.getElem?_eq_none_iff.mp missing
      omega
  | case4 low high reached =>
      have same : low = high := by omega
      exact ⟨before, same ▸ after⟩

/-- Halving a whole array ends where the test turns. -/
theorem TurnsOnce.turnsAt (turns : TurnsOnce entries test) :
    TurnsAt entries test (firstFailing entries test 0 entries.size) := by
  refine turns.turnsAt_firstFailing (Nat.zero_le _) (Nat.le_refl _) ?_ ?_
  · intro entry listed
    rw [List.take_zero] at listed
    cases listed
  · intro entry listed
    rw [← Array.length_toList, List.drop_length] at listed
    cases listed

end Halving

/-! ## Tables -/

namespace CodeTable

variable {ν : Type u} {table : CodeTable ν}

/-- The ranges that hold a codepoint. -/
def holders (table : CodeTable ν) (codepoint : Codepoint) : List (CodeRange ν) :=
  table.toList.filter fun range => range.covers codepoint

/-- The value of the first range that holds a codepoint, found by reading from the start. -/
def scan? (table : CodeTable ν) (codepoint : Codepoint) : Option ν :=
  (table.toList.find? fun range => range.covers codepoint).map CodeRange.value

/-- What a table answers about a codepoint: the value of the one range that holds it. -/
inductive Answers (table : CodeTable ν) (codepoint : Codepoint) : Option ν → Prop where
  | found {range : CodeRange ν} (only : table.holders codepoint = [range]) :
      Answers table codepoint (some range.value)
  | missing (unheld : table.holders codepoint = []) : Answers table codepoint none

theorem scan?_eq (table : CodeTable ν) (codepoint : Codepoint) :
    table.scan? codepoint = (table.holders codepoint).head?.map CodeRange.value := by
  unfold scan? holders
  rw [List.head?_filter]

theorem Answers.eq_scan? {codepoint : Codepoint} {answer : Option ν}
    (answers : table.Answers codepoint answer) : answer = table.scan? codepoint := by
  rw [scan?_eq]
  cases answers with
  | found only =>
      rw [only]
      rfl
  | missing unheld =>
      rw [unheld]
      rfl

/-- Ranges that are not empty, each ending before the next one starts. -/
structure Ordered (table : CodeTable ν) : Prop where
  nonempty : ∀ range ∈ table.toList, range.first ≤ range.last
  rising : table.toList.IsChain fun range next => range.last < next.first

theorem pairwise_of_isChain {ranges : List (CodeRange ν)}
    (nonempty : ∀ range ∈ ranges, range.first ≤ range.last)
    (rising : ranges.IsChain fun range next => range.last < next.first) :
    ranges.Pairwise fun range later => range.last < later.first := by
  induction rising with
  | nil => exact .nil
  | singleton range => exact List.pairwise_singleton _ range
  | @cons_cons range next rest below rising ih =>
      have apart := ih fun other listed => nonempty other (List.mem_cons_of_mem _ listed)
      refine apart.cons fun later listed => ?_
      rcases List.mem_cons.mp listed with same | beyond
      · exact same ▸ below
      · have nextNonempty := nonempty next (by simp)
        have above := (List.pairwise_cons.mp apart).1 later beyond
        exact Nat.lt_trans (Nat.lt_of_lt_of_le below nextNonempty) above

theorem Ordered.pairwise (ordered : table.Ordered) :
    table.toList.Pairwise fun range later => range.last < later.first :=
  pairwise_of_isChain ordered.nonempty ordered.rising

/-- The ranges that end before a codepoint stand before all others. -/
theorem Ordered.turnsOnce (ordered : table.Ordered) (codepoint : Codepoint) :
    TurnsOnce table fun range => decide (range.last < codepoint) := by
  refine ordered.pairwise.imp_of_mem fun {range later} _ listed apart ended => ?_
  have nonempty := ordered.nonempty later listed
  have ended := of_decide_eq_true ended
  exact decide_eq_true (Nat.lt_trans (Nat.lt_of_lt_of_le apart nonempty) ended)

theorem covers_of_last_lt {range : CodeRange ν} {codepoint : Codepoint}
    (ended : range.last < codepoint) : range.covers codepoint = false := by
  simp [CodeRange.covers, ended]

theorem covers_of_lt_first {range : CodeRange ν} {codepoint : Codepoint}
    (begun : codepoint < range.first) : range.covers codepoint = false := by
  simp [CodeRange.covers, begun]

theorem covers_of_le_last {range : CodeRange ν} {codepoint : Codepoint}
    (reached : codepoint ≤ range.last) :
    range.covers codepoint = decide (range.first ≤ codepoint) := by
  simp [CodeRange.covers, reached]

theorem filter_covers_eq_nil {ranges : List (CodeRange ν)} {codepoint : Codepoint}
    (uncovered : ∀ range ∈ ranges, range.covers codepoint = false) :
    (ranges.filter fun range => range.covers codepoint) = [] :=
  List.filter_eq_nil_iff.mpr fun range listed => Bool.eq_false_iff.mp (uncovered range listed)

/-- Of the ranges around the first one that does not end before a codepoint, no other holds it. -/
theorem holders_eq (ordered : table.Ordered) {codepoint : Codepoint}
    {before after : List (CodeRange ν)} {range : CodeRange ν}
    (parts : table.toList = before ++ range :: after)
    (ended : ∀ earlier ∈ before, earlier.last < codepoint) (reached : codepoint ≤ range.last) :
    table.holders codepoint = if range.first ≤ codepoint then [range] else [] := by
  have apart := ordered.pairwise
  rw [parts, List.pairwise_append, List.pairwise_cons] at apart
  have noneBefore : (before.filter fun other => other.covers codepoint) = [] :=
    filter_covers_eq_nil fun earlier listed => covers_of_last_lt (ended earlier listed)
  have noneAfter : (after.filter fun other => other.covers codepoint) = [] :=
    filter_covers_eq_nil fun later listed =>
      covers_of_lt_first (Nat.lt_of_le_of_lt reached (apart.2.1.1 later listed))
  unfold holders
  rw [parts, List.filter_append, noneBefore, List.nil_append, List.filter_cons, noneAfter,
    covers_of_le_last reached]
  simp only [decide_eq_true_eq]

/-- Halving an ordered table finds the one range that holds a codepoint. -/
theorem Ordered.answers (ordered : table.Ordered) (codepoint : Codepoint) :
    table.Answers codepoint (table.value? codepoint) := by
  obtain ⟨holds, fails⟩ := (ordered.turnsOnce codepoint).turnsAt
  unfold value?
  simp only
  generalize firstFailing table (fun range => decide (range.last < codepoint)) 0 table.size =
    index at holds fails
  have ended : ∀ earlier ∈ table.toList.take index, earlier.last < codepoint :=
    fun earlier listed => of_decide_eq_true (holds earlier listed)
  split
  · next range found =>
      have parts := toList_of_getElem? found
      have listed : range ∈ table.toList.drop index :=
        drop_of_getElem? found ▸ List.mem_cons_self
      have reached : codepoint ≤ range.last :=
        Nat.not_lt.mp (of_decide_eq_false (fails range listed))
      have held := holders_eq ordered parts ended reached
      split
      · next begun => exact .found (held.trans (if_pos begun))
      · next early => exact .missing (held.trans (if_neg early))
  · next missing =>
      have beyond : table.toList.length ≤ index := Array.getElem?_eq_none_iff.mp missing
      rw [List.take_of_length_le beyond] at ended
      exact .missing (filter_covers_eq_nil fun range listed =>
        covers_of_last_lt (ended range listed))

end CodeTable

/-! ## The built-in tables -/

namespace CharacterData

/-- The answers of the built-in tables, by a way to look a codepoint up in a table. -/
def answeredBy (lookup : {ν : Type} → CodeTable ν → Codepoint → Option ν) : CharacterData :=
  let script codepoint := (lookup scriptRanges codepoint).getD .unknown
  { script
    extensions := fun codepoint =>
      match lookup extensionRanges codepoint with
      | some scripts => SortedSet.ofList scripts
      | none => SortedSet.singleton (script codepoint)
    bidi := fun codepoint =>
      match lookup bidiRanges codepoint with
      | some type => type
      | none => bidiOfScript codepoint (script codepoint) }

theorem builtin_eq_answeredBy : builtin = answeredBy CodeTable.value? := rfl

end CharacterData

instance {ν : Type u} (table : CodeTable ν) : Decidable table.Ordered :=
  decidable_of_iff
    ((∀ range ∈ table.toList, range.first ≤ range.last) ∧
      table.toList.IsChain fun range next => range.last < next.first)
    ⟨fun both => ⟨both.1, both.2⟩, fun ordered => ⟨ordered.nonempty, ordered.rising⟩⟩

theorem ordered_scriptRanges : scriptRanges.Ordered := by decide +kernel

theorem ordered_extensionRanges : extensionRanges.Ordered := by decide

theorem ordered_bidiRanges : bidiRanges.Ordered := by decide

/-- The built-in tables read from their starts. -/
theorem CharacterData.builtin_eq_scanned : builtin = answeredBy CodeTable.scan? := by
  have scripts codepoint : scriptRanges.value? codepoint = scriptRanges.scan? codepoint :=
    (ordered_scriptRanges.answers codepoint).eq_scan?
  have extensions codepoint : extensionRanges.value? codepoint = extensionRanges.scan? codepoint :=
    (ordered_extensionRanges.answers codepoint).eq_scan?
  have bidis codepoint : bidiRanges.value? codepoint = bidiRanges.scan? codepoint :=
    (ordered_bidiRanges.answers codepoint).eq_scan?
  rw [builtin_eq_answeredBy]
  simp only [answeredBy, scripts, extensions, bidis]

/-- Looking a codepoint up by halving an ordered table gives the value of the one range that
holds it, as a scan does. The built-in tables are ordered, so each answer about a character
is that of scanning them. -/
theorem halving_finds_what_scanning_finds :
    (∀ {ν : Type u} (table : CodeTable ν), table.Ordered → ∀ codepoint,
      table.Answers codepoint (table.value? codepoint) ∧
        table.value? codepoint = table.scan? codepoint) ∧
      scriptRanges.Ordered ∧ extensionRanges.Ordered ∧ bidiRanges.Ordered ∧
        CharacterData.builtin = CharacterData.answeredBy CodeTable.scan? := by
  refine ⟨fun table ordered codepoint => ?_, ordered_scriptRanges, ordered_extensionRanges,
    ordered_bidiRanges, CharacterData.builtin_eq_scanned⟩
  have answers := ordered.answers codepoint
  exact ⟨answers, answers.eq_scan?⟩

/-- A codepoint whose script is found between two stretches of another one. -/
theorem halving_finds_inherited_stress :
    scriptRanges.Ordered ∧ scriptRanges.Answers 0x0951 (some .inherited) ∧
      scriptRanges.value? 0x0951 = some .inherited := by
  have scanned : scriptRanges.scan? 0x0951 = some .inherited := by decide +kernel
  obtain ⟨answers, same⟩ :=
    halving_finds_what_scanning_finds.1 scriptRanges ordered_scriptRanges 0x0951
  rw [same, scanned] at answers
  exact ⟨ordered_scriptRanges, answers, same.trans scanned⟩

end FontCompiler
