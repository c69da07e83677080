import FontCompiler.Text.Splitting

/-!
# Texts split where they were joined

Lines that were joined by line feeds are the lines of the joined text, and words
that were joined by spaces are its fields. A text cut after a line end has the
first lines of the whole text, and no others.
-/

namespace FontCompiler

/-- A text of several parts has the separator after each part but the last. -/
theorem intercalate_append_singleton (separator : Char) (parts : List (List Char))
    (last : List Char) :
    [separator].intercalate (parts ++ [last]) =
      parts.flatMap (fun part => part ++ [separator]) ++ last := by
  induction parts with
  | nil => exact List.intercalate_singleton
  | cons part parts ih =>
      rw [List.cons_append, List.intercalate_cons_of_ne_nil (by simp), ih]
      simp

theorem linesFrom_append {line : List Char} (plain : '\n' ∉ line) (begun rest : List Char) :
    linesFrom begun (line ++ '\n' :: rest) =
      dropReturn (begun.reverse ++ line) :: linesFrom [] rest := by
  induction line generalizing begun with
  | nil => simp [linesFrom]
  | cons char line ih =>
      have other : char ≠ '\n' := fun same => plain (same ▸ List.mem_cons_self)
      have plainRest : '\n' ∉ line := fun listed => plain (List.mem_cons_of_mem char listed)
      rw [List.cons_append, linesFrom, if_neg other, ih plainRest]
      simp

/-- Lines that each end in a line feed are the lines of their text. -/
theorem lines_flatMap {texts : List (List Char)}
    (plain : ∀ text ∈ texts, '\n' ∉ text ∧ text.getLast? ≠ some '\r') :
    lines (texts.flatMap fun text => text ++ ['\n']) = texts := by
  unfold lines
  induction texts with
  | nil => rfl
  | cons text texts ih =>
      obtain ⟨⟨oneLine, noReturn⟩, plainRest⟩ := List.forall_mem_cons.mp plain
      rw [List.flatMap_cons, List.append_assoc, List.singleton_append, linesFrom_append oneLine,
        ih plainRest, List.reverse_nil, List.nil_append, dropReturn, if_neg noReturn]

/-- A word holds at least one character and no white space. -/
def IsSolid (word : List Char) : Prop := word ≠ [] ∧ ∀ char ∈ word, isBlank char = false

theorem fieldsOf_append {word : List Char} (solid : ∀ char ∈ word, isBlank char = false)
    (pending rest : List Char) :
    fieldsOf pending (word ++ rest) = fieldsOf (word.reverse ++ pending) rest := by
  induction word generalizing pending with
  | nil => rfl
  | cons char word ih =>
      obtain ⟨visible, solidRest⟩ := List.forall_mem_cons.mp solid
      rw [List.cons_append, fieldsOf, if_neg (by simp [visible]), ih solidRest]
      simp

/-- A word is finished by the white space after it. -/
theorem fieldsOf_word {word : List Char} (solid : IsSolid word) (rest : List Char) :
    fieldsOf [] (word ++ ' ' :: rest) = word :: fieldsOf [] rest := by
  rw [fieldsOf_append solid.2, List.append_nil, fieldsOf, if_pos (by decide),
    if_neg (by simpa using solid.1), List.reverse_reverse]

theorem fieldsOf_last {word : List Char} (solid : IsSolid word) : fieldsOf [] word = [word] := by
  have read := fieldsOf_append solid.2 [] []
  rw [List.append_nil, List.append_nil] at read
  rw [read]
  cases reversed : word.reverse with
  | nil => exact absurd (List.reverse_eq_nil_iff.mp reversed) solid.1
  | cons char rest => rw [fieldsOf, ← reversed, List.reverse_reverse]; simp

/-- Words that were joined by spaces are the fields of their text. -/
theorem fields_flatMap {words : List (List Char)} {last : List Char}
    (solid : ∀ word ∈ words, IsSolid word) (solidLast : IsSolid last) :
    fields (words.flatMap (fun word => word ++ [' ']) ++ last) = words ++ [last] := by
  unfold fields
  induction words with
  | nil => exact fieldsOf_last solidLast
  | cons word words ih =>
      obtain ⟨solidWord, solidRest⟩ := List.forall_mem_cons.mp solid
      rw [List.flatMap_cons, List.append_assoc, List.append_assoc, List.singleton_append,
        fieldsOf_word solidWord, ih solidRest, List.cons_append]

/-- The beginning of a text that consists of its first lines, line ends included. -/
def firstLines : Nat → List Char → List Char
  | 0, _ => []
  | _ + 1, [] => []
  | count + 1, char :: rest =>
      if char = '\n' then char :: firstLines count rest else char :: firstLines (count + 1) rest

theorem linesFrom_firstLines (begun : List Char) (count : Nat) (text : List Char) :
    linesFrom begun (firstLines (count + 1) text) = (linesFrom begun text).take (count + 1) := by
  induction text generalizing begun count with
  | nil => cases begun <;> simp [firstLines, linesFrom]
  | cons char rest ih =>
      by_cases ends : char = '\n'
      · cases count with
        | zero => simp [firstLines, linesFrom, ends]
        | succ count => simp [firstLines, linesFrom, ends, ih]
      · simp [firstLines, linesFrom, ends, ih]

theorem lines_firstLines (count : Nat) (text : List Char) :
    lines (firstLines count text) = (lines text).take count := by
  cases count with
  | zero => simp [firstLines, lines, linesFrom]
  | succ count => exact linesFrom_firstLines [] count text

end FontCompiler
