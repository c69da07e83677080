import FontCompiler.Bez.Decode
import FontCompiler.Bez.Encode
import FontCompiler.Proofs.Number.Exact
import FontCompiler.Proofs.Number.Literal
import FontCompiler.Proofs.Text.Splitting

/-!
# Bez lines are read as they were written

The line of an instruction with whole operands is read as the drawing step of
the instruction. A bez text is read line by line, and its first and last lines
draw nothing.
-/

namespace FontCompiler

/-- Printed ASCII characters are not white space. -/
theorem isBlank_eq_false {char : Char} (low : 33 ≤ char.toNat) (high : char.toNat ≤ 126) :
    isBlank char = false := by
  simp only [isBlank, blankRanges, List.any_cons, List.any_nil, Bool.or_false, Bool.or_eq_false_iff,
    Bool.and_eq_false_iff, decide_eq_false_iff_not]
  omega

theorem isSolid_toString (number : Int) : IsSolid (toString number).toList := by
  rw [Literal.toList_toString]
  constructor
  · simp [Nat.toDigits_ne_nil]
  · intro char listed
    rcases List.mem_append.mp listed with sign | digit
    · have minus : char = '-' := by
        split at sign
        · exact List.mem_singleton.mp sign
        · cases sign
      exact minus ▸ rfl
    · have range := toNat_of_isDigit (Literal.isDigit_toDigits char digit)
      exact isBlank_eq_false (by omega) (by omega)

theorem BezWord.isSolid_text (word : BezWord) : IsSolid word.text.toList := by
  constructor
  · cases word <;> decide
  · have visible : (word.text.toList.all fun char => !isBlank char) = true := by
      cases word <;> rfl
    intro char listed
    exact (Bool.not_eq_true' _).mp (List.all_eq_true.mp visible char listed)

theorem BezWord.ofText?_text (word : BezWord) : ofText? word.text = some word := by
  cases word <;> decide

namespace BezInstruction

/-- The line of an instruction is its operands and then its word. -/
theorem toList_text (instruction : BezInstruction) :
    instruction.text.toList =
      (instruction.operands.map fun operand => (toString operand).toList).flatMap
        (fun word => word ++ [' ']) ++ instruction.word.text.toList := by
  unfold text
  rw [String.toList_intercalate, List.map_append, List.map_map]
  exact intercalate_append_singleton ' ' _ _

theorem fields_text (instruction : BezInstruction) :
    fields instruction.text.toList =
      (instruction.operands.map fun operand => (toString operand).toList) ++
        [instruction.word.text.toList] := by
  rw [toList_text]
  refine fields_flatMap ?_ instruction.word.isSolid_text
  intro word listed
  obtain ⟨operand, -, rfl⟩ := List.mem_map.mp listed
  exact isSolid_toString operand

/-- A line that begins neither a comment nor a log line is no remark. -/
theorem isRemark_cons {first : Char} (noLog : first ≠ 'W') (noComment : first ≠ '%')
    (rest : List Char) : BezLine.isRemark (first :: rest) = false := by
  have log : ('W' == first) = false := beq_false_of_ne noLog.symm
  have comment : ('%' == first) = false := beq_false_of_ne noComment.symm
  simp [BezLine.isRemark, List.isPrefixOf, log, comment]

theorem isRemark_toString (number : Int) (rest : List Char) :
    BezLine.isRemark ((toString number).toList ++ rest) = false := by
  obtain ⟨digit, digits, spelled, isDigit⟩ := Literal.exists_toDigits_eq_cons number.natAbs
  rw [Literal.toList_toString, spelled]
  split
  · exact isRemark_cons (by decide) (by decide) _
  · refine isRemark_cons ?_ ?_ _
    · rintro rfl
      cases isDigit
    · rintro rfl
      cases isDigit

theorem isRemark_text (instruction : BezInstruction) :
    BezLine.isRemark instruction.text.toList = false := by
  obtain ⟨operands, word⟩ := instruction
  rw [toList_text]
  cases operands with
  | nil => cases word <;> decide
  | cons operand rest =>
      rw [List.map_cons, List.flatMap_cons, List.append_assoc, List.append_assoc]
      exact isRemark_toString operand _

end BezInstruction

namespace BezLine

variable {α : Type} [Coordinate α] [ExactArithmetic α]

theorem readOperands_toString (number : Nat) {operands : List Int}
    (small : ∀ operand ∈ operands, IsSmall operand) :
    readOperands number (operands.map fun operand => (toString operand).toList) =
      .ok (operands.map fun operand => (Coordinate.ofInt operand : α)) := by
  induction operands with
  | nil => rfl
  | cons operand rest ih =>
      obtain ⟨first, later⟩ := List.forall_mem_cons.mp small
      have value : (Literal.ofChars? (toString operand).toList).bind Coordinate.ofLiteral? =
          some (Coordinate.ofInt operand : α) := by
        rw [Literal.ofChars?_toString]
        exact ExactArithmetic.ofLiteral?_integer first
      rw [List.map_cons, readOperands, value]
      simp only [ih later]
      rfl

end BezLine

/-- Whether an instruction has its operands, all small, and stands for a drawing step. -/
structure BezInstruction.Spells {α : Type} [Coordinate α] (instruction : BezInstruction)
    (event : RelativeEvent α) : Prop where
  complete : instruction.operands.length = instruction.word.arity
  small : ∀ operand ∈ instruction.operands, IsSmall operand
  means : instruction.word.draw (instruction.operands.map Coordinate.ofInt) = event

namespace BezInstruction

section Shortest

variable {α : Type} [Coordinate α]

theorem spells_ofMove {x y : Int} (smallX : IsSmall x) (smallY : IsSmall y) :
    (ofMove x y).Spells (.move ⟨Coordinate.ofInt x, Coordinate.ofInt y⟩ : RelativeEvent α) := by
  unfold ofMove
  split
  · next vertical =>
      obtain ⟨rfl, -⟩ := vertical
      exact ⟨rfl, by simp [smallY], rfl⟩
  · split
    · next horizontal =>
        obtain ⟨rfl, -⟩ := horizontal
        exact ⟨rfl, by simp [smallX], rfl⟩
    · exact ⟨rfl, by simp [smallX, smallY], rfl⟩

theorem spells_ofLine {x y : Int} (smallX : IsSmall x) (smallY : IsSmall y) :
    (ofLine x y).Spells (.line ⟨Coordinate.ofInt x, Coordinate.ofInt y⟩ : RelativeEvent α) := by
  unfold ofLine
  split
  · next vertical =>
      subst vertical
      exact ⟨rfl, by simp [smallY], rfl⟩
  · split
    · next horizontal =>
        subst horizontal
        exact ⟨rfl, by simp [smallX], rfl⟩
    · exact ⟨rfl, by simp [smallX, smallY], rfl⟩

theorem spells_ofCurve {x1 y1 x2 y2 x3 y3 : Int}
    (small : ∀ operand ∈ [x1, y1, x2, y2, x3, y3], IsSmall operand) :
    (ofCurve x1 y1 x2 y2 x3 y3).Spells
      (.curve ⟨Coordinate.ofInt x1, Coordinate.ofInt y1⟩
        ⟨Coordinate.ofInt x2, Coordinate.ofInt y2⟩
        ⟨Coordinate.ofInt x3, Coordinate.ofInt y3⟩ : RelativeEvent α) := by
  unfold ofCurve
  split
  · next turning =>
      obtain ⟨rfl, rfl⟩ := turning
      exact ⟨rfl, fun operand listed => small operand (by simp at listed ⊢; tauto), rfl⟩
  · split
    · next turning =>
        obtain ⟨rfl, rfl⟩ := turning
        exact ⟨rfl, fun operand listed => small operand (by simp at listed ⊢; tauto), rfl⟩
    · exact ⟨rfl, small, rfl⟩

theorem spells_close : (⟨[], .close⟩ : BezInstruction).Spells (.close : RelativeEvent α) :=
  ⟨rfl, fun _ listed => absurd listed List.not_mem_nil, rfl⟩

end Shortest

/-- The line of an instruction is read as the drawing step that the instruction stands for. -/
theorem Spells.read_text {α : Type} [Coordinate α] [ExactArithmetic α]
    {instruction : BezInstruction} {event : RelativeEvent α} (spelled : instruction.Spells event)
    (number : Nat) : BezLine.read number instruction.text.toList = .ok (.draw event) := by
  obtain ⟨complete, small, rfl⟩ := spelled
  have drawn : BezLine.undrawnWords.contains instruction.word.text = false := by
    cases instruction.word <;> decide
  have kept : ¬ (instruction.word.text = "preflx1" ∨ instruction.word.text = "preflx2") := by
    cases instruction.word <;> decide
  have given : (instruction.operands.map fun operand => (toString operand).toList).length =
      instruction.word.arity := (List.length_map _).trans complete
  unfold BezLine.read
  rw [instruction.isRemark_text, instruction.fields_text, List.reverse_append]
  simp only [List.reverse_singleton, List.singleton_append, String.ofList_toList, drawn, kept,
    List.reverse_reverse, if_false]
  unfold BezLine.readDrawn
  rw [BezWord.ofText?_text]
  simp only [given, Nat.lt_irrefl, if_false, List.take_of_length_le (Nat.le_of_eq given),
    BezLine.readOperands_toString number small]
  rfl

/-- The line of an instruction is one line. -/
theorem text_oneLine (instruction : BezInstruction) :
    '\n' ∉ instruction.text.toList ∧ instruction.text.toList.getLast? ≠ some '\r' := by
  have printed : ∀ char ∈ instruction.text.toList, isBlank char = false ∨ char = ' ' := by
    rw [toList_text, List.forall_mem_append]
    constructor
    · intro char listed
      obtain ⟨word, operand, inWord⟩ := List.mem_flatMap.mp listed
      obtain ⟨number, -, rfl⟩ := List.mem_map.mp operand
      rcases List.mem_append.mp inWord with visible | space
      · exact .inl ((isSolid_toString number).2 char visible)
      · exact .inr (List.mem_singleton.mp space)
    · exact fun char listed => .inl (instruction.word.isSolid_text.2 char listed)
  constructor
  · intro listed
    exact absurd (printed _ listed) (by decide)
  · intro last
    exact absurd (printed _ (List.mem_of_getLast? last)) (by decide)

end BezInstruction

end FontCompiler
