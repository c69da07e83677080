import Mathlib.Data.List.Basic
import FontCompiler.Bez.Decode

/-!
# The lines of a bez text

A line is uninterpreted, or it is an instruction: its last field is a word and the fields
before it are operands. An instruction forgets the last point, or draws, or fails: because
no instruction has its word, because operands are missing, or because one of those that
it needs is no number. Every line is of one of these kinds, and each kind is read in its
own way. What a line that does not fail says does not depend on its number.
-/

namespace FontCompiler

/-- Whether a word stands for an instruction that is drawn. A flex is a curve. -/
def BezWord.NamedBy (kind : BezWord) (word : String) : Prop :=
  word = kind.text ∨ word = "flex" ∧ kind = .curve

theorem BezWord.ofText?_eq_some_iff {kind : BezWord} {word : String} :
    ofText? word = some kind ↔ kind.NamedBy word := by
  by_cases flex : word = "flex"
  · subst flex
    cases kind <;> simp [ofText?, NamedBy, text]
  · constructor
    · intro found
      rw [ofText?, if_neg flex] at found
      have same : kind.text = word := by simpa using List.find?_some found
      exact .inl same.symm
    · rintro (rfl | ⟨same, -⟩)
      · cases kind <;> decide
      · exact absurd same flex

namespace BezLine

/-- Whether a line says nothing about the drawing, whatever else it says. -/
inductive Uninterpreted (line : List Char) : Prop where
  | blank (blank : fields line = [])
  | log (begins : "Wrote".toList <+: line)
  | comment (begins : "%".toList <+: line)
  | undrawn {before : List (List Char)} {word : String}
      (spelled : fields line = before ++ [word.toList]) (undrawn : word ∈ undrawnWords)

/-- Whether a line is an instruction with these operands and this word. -/
structure IsInstruction (line : List Char) (operands : List (List Char)) (word : String) :
    Prop where
  noLog : ¬ "Wrote".toList <+: line
  noComment : ¬ "%".toList <+: line
  spelled : fields line = operands ++ [word.toList]
  drawn : word ∉ undrawnWords

/-- Whether a line forgets the last point. -/
def Forgets (line : List Char) : Prop :=
  ∃ operands word, IsInstruction line operands word ∧ (word = "preflx1" ∨ word = "preflx2")

/-- Every line is uninterpreted or an instruction. -/
theorem uninterpreted_or_instruction (line : List Char) :
    Uninterpreted line ∨ ∃ operands word, IsInstruction line operands word := by
  by_cases log : "Wrote".toList <+: line
  · exact .inl (.log log)
  by_cases comment : "%".toList <+: line
  · exact .inl (.comment comment)
  rcases List.eq_nil_or_concat (fields line) with blank | ⟨before, last, spelled⟩
  · exact .inl (.blank blank)
  have spelled : fields line = before ++ [(String.ofList last).toList] := by
    rw [String.toList_ofList, spelled, List.concat_eq_append]
  by_cases undrawn : String.ofList last ∈ undrawnWords
  · exact .inl (.undrawn spelled undrawn)
  · exact .inr ⟨before, String.ofList last, log, comment, spelled, undrawn⟩

theorem isRemark_iff {line : List Char} :
    isRemark line = true ↔ line = [] ∨ "Wrote".toList <+: line ∨ "%".toList <+: line := by
  simp only [isRemark, Bool.or_eq_true, List.isEmpty_iff, List.isPrefixOf_iff_prefix, or_assoc]

section Reading

variable {α : Type} [Coordinate α] {line : List Char} {operands : List (List Char)} {word : String}

def operand? (α : Type) [Coordinate α] (field : List Char) : Option α :=
  (Literal.ofChars? field).bind Coordinate.ofLiteral?

/-- Uninterpreted lines are read as saying nothing. -/
theorem Uninterpreted.read_eq (uninterpreted : Uninterpreted line) (number : Nat) :
    read number line = .ok (.nothing : BezLine α) := by
  unfold read
  split
  · rfl
  · next noRemark =>
      rw [isRemark_iff] at noRemark
      cases uninterpreted with
      | blank blank => simp [blank]
      | log begins => exact absurd (.inr (.inl begins)) noRemark
      | comment begins => exact absurd (.inr (.inr begins)) noRemark
      | undrawn spelled undrawn => simp [spelled, undrawn]

/-- Instructions are read by their word. -/
theorem IsInstruction.read_eq (instruction : IsInstruction line operands word) (number : Nat) :
    read number line =
      if word = "preflx1" ∨ word = "preflx2" then .ok (.forget : BezLine α)
      else readDrawn number word operands := by
  have nonempty : line ≠ [] := by
    rintro rfl
    simpa [fields, fieldsOf] using instruction.spelled
  have noRemark : ¬ isRemark line = true := by
    rw [isRemark_iff, not_or, not_or]
    exact ⟨nonempty, instruction.noLog, instruction.noComment⟩
  simp [read, noRemark, instruction.spelled, instruction.drawn]

/-- Operands are read up to the first field that spells no number. -/
theorem readOperands_append {before : List (List Char)}
    (numbers : ∀ field ∈ before, (operand? α field).isSome = true) :
    ∃ values : List α, ∀ number rest, readOperands number (before ++ rest) =
      (readOperands number rest).map (values ++ ·) := by
  induction before with
  | nil =>
      refine ⟨[], fun number rest => ?_⟩
      cases read : (readOperands number rest : Except BezError (List α)) <;> simp [Except.map, read]
  | cons field before ih =>
      obtain ⟨isNumber, later⟩ := List.forall_mem_cons.mp numbers
      obtain ⟨value, spelled⟩ := Option.isSome_iff_exists.mp isNumber
      obtain ⟨values, read⟩ := ih later
      refine ⟨value :: values, fun number rest => ?_⟩
      rw [operand?] at spelled
      simp only [List.cons_append, readOperands, spelled, read]
      cases (readOperands number rest : Except BezError (List α)) <;> rfl

/-- Whether a line is a complete instruction. Operands beyond those that it needs do not
matter. -/
inductive WellFormed (α : Type) [Coordinate α] (line : List Char) : Prop where
  | forgets (forgets : Forgets line)
  | draws {operands : List (List Char)} {word : String} (kind : BezWord)
      (instruction : IsInstruction line operands word) (named : kind.NamedBy word)
      (complete : kind.arity ≤ operands.length)
      (numbers : ∀ field ∈ operands.take kind.arity, (operand? α field).isSome = true)

/-- Whether a line with a number is an instruction that fails, and with which fault. -/
inductive Fails (α : Type) [Coordinate α] (number : Nat) (line : List Char) : BezError → Prop where
  | unknown {operands : List (List Char)} {word : String}
      (instruction : IsInstruction line operands word)
      (keeps : ¬ (word = "preflx1" ∨ word = "preflx2"))
      (unnamed : ∀ kind, ¬ BezWord.NamedBy kind word) :
      Fails α number line (.unknownWord word number)
  | incomplete {operands : List (List Char)} {word : String} {kind : BezWord}
      (instruction : IsInstruction line operands word) (named : kind.NamedBy word)
      (incomplete : operands.length < kind.arity) :
      Fails α number line (.missingOperands kind.text number kind.arity operands.length)
  | noNumber {operands before after : List (List Char)} {word : String} {kind : BezWord}
      {field : List Char} (instruction : IsInstruction line operands word)
      (named : kind.NamedBy word) (complete : kind.arity ≤ operands.length)
      (needed : operands.take kind.arity = before ++ field :: after)
      (numbers : ∀ earlier ∈ before, (operand? α earlier).isSome = true)
      (noNumber : operand? α field = none) :
      Fails α number line (.invalidNumber (String.ofList field) number)

/-- Of the fields that an instruction needs, all spell numbers or one is the first that
does not. -/
theorem numbers_or_first_noNumber (fields : List (List Char)) :
    (∀ field ∈ fields, (operand? α field).isSome = true) ∨
      ∃ before field after, fields = before ++ field :: after ∧
        (∀ earlier ∈ before, (operand? α earlier).isSome = true) ∧ operand? α field = none := by
  cases found : fields.find? fun field => (operand? α field).isNone with
  | none =>
      refine .inl fun field listed => ?_
      simpa [Option.isSome_iff_ne_none] using List.find?_eq_none.mp found field listed
  | some field =>
      obtain ⟨noNumber, before, after, split, passed⟩ := List.find?_eq_some_iff_append.mp found
      refine .inr ⟨before, field, after, split, fun earlier listed => ?_, by simpa using noNumber⟩
      simpa [Option.isSome_iff_ne_none] using passed earlier listed

/-- Every line is uninterpreted, a complete instruction, or an instruction that fails. -/
theorem uninterpreted_or_wellFormed_or_fails (number : Nat) (line : List Char) :
    Uninterpreted line ∨ WellFormed α line ∨ ∃ fault, Fails α number line fault := by
  rcases uninterpreted_or_instruction line with uninterpreted | ⟨operands, word, instruction⟩
  · exact .inl uninterpreted
  refine .inr ?_
  by_cases forgets : word = "preflx1" ∨ word = "preflx2"
  · exact .inl (.forgets ⟨operands, word, instruction, forgets⟩)
  by_cases named : ∃ kind, BezWord.NamedBy kind word
  case neg => exact .inr ⟨_, .unknown instruction forgets (not_exists.mp named)⟩
  obtain ⟨kind, named⟩ := named
  rcases Nat.lt_or_ge operands.length kind.arity with incomplete | complete
  · exact .inr ⟨_, .incomplete instruction named incomplete⟩
  rcases numbers_or_first_noNumber (α := α) (operands.take kind.arity) with
    numbers | ⟨before, field, after, needed, numbers, noNumber⟩
  · exact .inl (.draws kind instruction named complete numbers)
  · exact .inr ⟨_, .noNumber instruction named complete needed numbers noNumber⟩

/-- A named word is none that forgets the last point. -/
theorem readDrawn_of_named (instruction : IsInstruction line operands word) {kind : BezWord}
    (named : kind.NamedBy word) (number : Nat) :
    read number line = (readDrawn number word operands : Except BezError (BezLine α)) := by
  have keeps : ¬ (word = "preflx1" ∨ word = "preflx2") := by
    rcases named with rfl | ⟨rfl, -⟩
    · cases kind <;> decide
    · decide
  rw [instruction.read_eq, if_neg keeps]

/-- A complete instruction that does not forget the last point is read as a drawing step. -/
theorem read_eq_draw (instruction : IsInstruction line operands word) {kind : BezWord}
    (named : kind.NamedBy word) (complete : kind.arity ≤ operands.length)
    (numbers : ∀ field ∈ operands.take kind.arity, (operand? α field).isSome = true) :
    ∃ event : RelativeEvent α, ∀ number, read number line = .ok (.draw event) := by
  obtain ⟨values, given⟩ := readOperands_append numbers
  refine ⟨kind.draw values, fun number => ?_⟩
  have needed := given number []
  rw [List.append_nil] at needed
  rw [readDrawn_of_named instruction named, readDrawn, BezWord.ofText?_eq_some_iff.mpr named]
  simp [Nat.not_lt.mpr complete, needed, readOperands, Except.map]

theorem WellFormed.read_eq (wellFormed : WellFormed α line) :
    ∃ meaning : BezLine α, ∀ number, read number line = .ok meaning := by
  cases wellFormed with
  | forgets forgets =>
      obtain ⟨operands, word, instruction, forgets⟩ := forgets
      exact ⟨.forget, fun number => by rw [instruction.read_eq, if_pos forgets]⟩
  | draws kind instruction named complete numbers =>
      obtain ⟨event, read⟩ := read_eq_draw instruction named complete numbers
      exact ⟨.draw event, read⟩

theorem Fails.read_eq {number : Nat} {fault : BezError} (fails : Fails α number line fault) :
    read number line = (.error fault : Except BezError (BezLine α)) := by
  cases fails with
  | @unknown operands word instruction keeps unnamed =>
      have noWord : BezWord.ofText? word = none :=
        Option.eq_none_iff_forall_ne_some.mpr fun kind found =>
          unnamed kind (BezWord.ofText?_eq_some_iff.mp found)
      rw [instruction.read_eq, if_neg keeps, readDrawn, noWord]
  | incomplete instruction named incomplete =>
      rw [readDrawn_of_named instruction named, readDrawn,
        BezWord.ofText?_eq_some_iff.mpr named]
      simp [incomplete]
  | noNumber instruction named complete needed numbers noNumber =>
      obtain ⟨values, given⟩ := readOperands_append numbers
      rw [operand?] at noNumber
      rw [readDrawn_of_named instruction named, readDrawn,
        BezWord.ofText?_eq_some_iff.mpr named]
      simp [Nat.not_lt.mpr complete, needed, given, readOperands, noNumber, Except.map]

/-- Reading a line gives a fault exactly when the line fails. -/
theorem read_eq_error_iff {number : Nat} {fault : BezError} :
    read number line = (.error fault : Except BezError (BezLine α)) ↔
      Fails α number line fault := by
  refine ⟨fun read => ?_, Fails.read_eq⟩
  rcases uninterpreted_or_wellFormed_or_fails (α := α) number line with
    uninterpreted | wellFormed | ⟨other, fails⟩
  · rw [uninterpreted.read_eq] at read
    cases read
  · obtain ⟨meaning, known⟩ := wellFormed.read_eq (α := α)
    rw [known] at read
    cases read
  · rw [fails.read_eq] at read
    exact Except.error.inj read ▸ fails

theorem exists_read_eq_ok_iff (number : Nat) :
    (∃ meaning : BezLine α, read number line = .ok meaning) ↔
      Uninterpreted line ∨ WellFormed α line := by
  constructor
  · rintro ⟨meaning, read⟩
    rcases uninterpreted_or_wellFormed_or_fails (α := α) number line with
      uninterpreted | wellFormed | ⟨fault, fails⟩
    · exact .inl uninterpreted
    · exact .inr wellFormed
    · rw [fails.read_eq] at read
      cases read
  · rintro (uninterpreted | wellFormed)
    · exact ⟨.nothing, uninterpreted.read_eq number⟩
    · exact wellFormed.read_eq.imp fun meaning known => known number

end Reading

end BezLine

end FontCompiler
