import FontCompiler.Charstring.Encoding
import FontCompiler.Proofs.Charstring.Shape
import FontCompiler.Proofs.Number.Double

/-!
# Reading the bytes of a charstring

Bytes are read as numbers and operators, whose first bytes tell them apart. The
numbers before an operator are its operands; one more than the first operator
takes is the width. A program of multiples of 1/65536 is read back from its
bytes with the same width, operators and operand values.
-/

namespace FontCompiler

def Operator.ofOpcode? (byte : UInt8) : Option Operator :=
  [moveTo, lineTo, curveTo, endChar].find? fun operator => operator.opcode == byte

theorem Operator.ofOpcode?_opcode (operator : Operator) :
    ofOpcode? operator.opcode = some operator := by
  cases operator <;> rfl

/-- Bytes from 28 on are no opcodes. -/
theorem Operator.ofOpcode?_eq_none {byte : UInt8} (above : 28 ≤ byte.toNat) :
    ofOpcode? byte = none := by
  refine List.find?_eq_none.mpr fun operator _ same => ?_
  have opcode : operator.opcode.toNat = byte.toNat := congrArg UInt8.toNat (beq_iff_eq.mp same)
  have below : operator.opcode.toNat < 28 := by cases operator <;> decide
  omega

inductive Token where
  | number (value : Rat)
  | operator (operator : Operator)
  deriving DecidableEq

namespace Token

/-- The number of bytes that follow the first byte of a number. -/
def trailing? (first : Nat) : Option Nat :=
  if first = 28 then some 2
  else if first < 32 then none
  else if first ≤ 246 then some 0
  else if first ≤ 254 then some 1
  else some 4

/-- The number that bytes spell, the highest byte first. -/
def word : List UInt8 → Nat
  | [] => 0
  | byte :: rest => byte.toNat * 256 ^ rest.length + word rest

/-- The number that bytes spell in two's complement. -/
def signedWord (bytes : List UInt8) : Int := Int.bmod (word bytes) (256 ^ bytes.length)

/-- The integer with a first byte and the bytes that follow. -/
def integerValue (first : Nat) (following : List UInt8) : Int :=
  if first = 28 then signedWord following
  else if first ≤ 246 then first - 139
  else if first ≤ 250 then (first - 247) * 256 + word following + 108
  else -(first - 251) * 256 - word following - 108

def value (first : Nat) (following : List UInt8) : Rat :=
  if first = 255 then signedWord following / 65536 else integerValue first following

/-- Read a token off bytes that begin with a given one. -/
def read? (first : UInt8) (rest : List UInt8) : Option (Token × List UInt8) :=
  match Operator.ofOpcode? first with
  | some found => some (.operator found, rest)
  | none =>
      match trailing? first.toNat with
      | none => none
      | some count =>
          if count ≤ rest.length then
            some (.number (value first.toNat (rest.take count)), rest.drop count)
          else none

theorem length_le_of_read? {first : UInt8} {rest remaining : List UInt8} {token : Token}
    (found : read? first rest = some (token, remaining)) : remaining.length ≤ rest.length := by
  unfold read? at found
  split at found
  · cases found
    exact Nat.le_refl _
  · split at found
    · cases found
    · split at found
      · cases found
        exact List.length_drop ▸ Nat.sub_le _ _
      · cases found

def readAll? (bytes : List UInt8) : Option (List Token) :=
  match bytes with
  | [] => some []
  | first :: rest =>
      match _ : read? first rest with
      | none => none
      | some (token, remaining) => (readAll? remaining).map fun tokens => token :: tokens
termination_by bytes.length
decreasing_by exact Nat.lt_succ_of_le (length_le_of_read? ‹_›)

theorem readAll?_of_read? {first : UInt8} {rest remaining : List UInt8} {token : Token}
    (found : read? first rest = some (token, remaining)) :
    readAll? (first :: rest) = (readAll? remaining).map fun tokens => token :: tokens := by
  rw [readAll?]
  split
  · next missing => cases found.symm.trans missing
  · next other => cases found.symm.trans other; rfl

/-- Whether bytes are read as these tokens, no matter which bytes come after them. -/
def Spells (bytes : List UInt8) (tokens : List Token) : Prop :=
  ∀ rest, readAll? (bytes ++ rest) = (readAll? rest).map fun later => tokens ++ later

theorem Spells.append {first second : List UInt8} {firstTokens secondTokens : List Token}
    (spelled : Spells first firstTokens) (next : Spells second secondTokens) :
    Spells (first ++ second) (firstTokens ++ secondTokens) := by
  intro rest
  rw [List.append_assoc, spelled, next, Option.map_map]
  congr 1
  funext later
  exact (List.append_assoc ..).symm

theorem Spells.flatMap {α : Type} {items : List α} {bytes : α → List UInt8}
    {tokens : α → List Token} (spelled : ∀ item ∈ items, Spells (bytes item) (tokens item)) :
    Spells (items.flatMap bytes) (items.flatMap tokens) := by
  induction items with
  | nil => exact fun rest => (Option.map_id_apply ..).symm
  | cons item items ih =>
      exact (spelled item List.mem_cons_self).append
        (ih fun later listed => spelled later (List.mem_cons_of_mem item listed))

theorem Spells.readAll?_eq {bytes : List UInt8} {tokens : List Token}
    (spelled : Spells bytes tokens) : readAll? bytes = some tokens := by
  have read := spelled []
  rwa [List.append_nil, readAll?, Option.map_some, List.append_nil] at read

theorem spells_opcode (operator : Operator) : Spells [operator.opcode] [.operator operator] := by
  intro rest
  have found : read? operator.opcode rest = some (.operator operator, rest) := by
    simp only [read?, Operator.ofOpcode?_opcode]
  exact readAll?_of_read? found

/-- A first byte and as many bytes as it asks for are read as the number they spell. -/
theorem spells_number {first : UInt8} {following : List UInt8}
    (above : 28 ≤ first.toNat) (asked : trailing? first.toNat = some following.length) :
    Spells (first :: following) [.number (value first.toNat following)] := by
  intro rest
  have found : read? first (following ++ rest) =
      some (.number (value first.toNat following), rest) := by
    simp [read?, Operator.ofOpcode?_eq_none above, asked]
  exact readAll?_of_read? found

theorem spells_integer {first : UInt8} {following : List UInt8} {number : Int}
    (above : 28 ≤ first.toNat) (below : first.toNat ≠ 255)
    (asked : trailing? first.toNat = some following.length)
    (spelled : integerValue first.toNat following = number) :
    Spells (first :: following) [.number number] := by
  have named : value first.toNat following = number := by rw [value, if_neg below, spelled]
  exact named ▸ spells_number above asked

end Token

/-- The lowest bytes of a number in two's complement, the highest of them first. -/
def wordBytes (number : Int) : Nat → List UInt8
  | 0 => []
  | count + 1 => wordByte number count :: wordBytes number count

theorem length_wordBytes (number : Int) (count : Nat) :
    (wordBytes number count).length = count := by
  induction count with
  | zero => rfl
  | succ count ih => rw [wordBytes, List.length_cons, ih]

theorem toNat_wordByte (number : Int) (place : Nat) :
    ((wordByte number place).toNat : Int) = number / 256 ^ place % 256 := by
  simp only [wordByte, Nat.pow_eq, Nat.cast_pow, Nat.cast_ofNat]
  have nonneg : 0 ≤ number / 256 ^ place % 256 := Int.emod_nonneg _ (by decide)
  have below : number / 256 ^ place % 256 < 256 := Int.emod_lt_of_pos _ (by decide)
  rw [UInt8.toNat_ofNat', Nat.mod_eq_of_lt (by omega)]
  exact Int.toNat_of_nonneg nonneg

theorem toNat_lowByte (number : Int) (low : 0 ≤ number) (high : number ≤ 255) :
    ((wordByte number 0).toNat : Int) = number := by
  rw [toNat_wordByte, pow_zero, Int.ediv_one]
  omega

/-- The lowest places of a number are the highest of them and the places below. -/
theorem emod_pow_succ (number : Int) (count : Nat) :
    number / 256 ^ count % 256 * 256 ^ count + number % 256 ^ count =
      number % 256 ^ (count + 1) := by
  have nonneg : 0 ≤ (256 : Int) ^ count := Int.pow_nonneg (by decide)
  have places : number / (256 ^ count * 256) = number / 256 ^ count / 256 :=
    (Int.ediv_ediv_of_nonneg nonneg).symm
  rw [pow_succ, Int.emod_def (number / 256 ^ count), Int.emod_def number, Int.emod_def number,
    places]
  ring

namespace Token

theorem word_singleton (byte : UInt8) : word [byte] = byte.toNat := by
  simp [word]

theorem word_wordBytes (number : Int) (count : Nat) :
    (word (wordBytes number count) : Int) = number % 256 ^ count := by
  induction count with
  | zero => exact (Int.emod_one number).symm
  | succ count ih =>
      rw [wordBytes, word, length_wordBytes]
      push_cast
      rw [ih, toNat_wordByte, emod_pow_succ]

/-- A number is read back from enough of its bytes. -/
theorem signedWord_wordBytes {number : Int} {count : Nat}
    (low : -(256 ^ count : Nat) ≤ number * 2) (high : number * 2 < (256 ^ count : Nat)) :
    signedWord (wordBytes number count) = number := by
  have spelled : (word (wordBytes number count) : Int) = number % (256 ^ count : Nat) := by
    rw [word_wordBytes]
    norm_cast
  rw [signedWord, length_wordBytes, spelled, Int.emod_bmod, Int.bmod_eq_of_le_mul_two low high]

/-- The bytes of a number of 65536ths are read as that number. -/
theorem spells_fixedBytes {units : Int} (low : -2 ^ 31 ≤ units) (high : units < 2 ^ 31) :
    Spells (fixedBytes units) [.number (units / 65536)] := by
  have read : signedWord (wordBytes units 4) = units :=
    signedWord_wordBytes (by omega) (by omega)
  have spelled : value (255 : UInt8).toNat (wordBytes units 4) = units / 65536 := by
    rw [value, if_pos (by decide), read]
  exact spelled ▸ spells_number (by decide) rfl

/-- The bytes of an integer of 16 bits are read as that integer. -/
theorem spells_integerBytes {number : Int} (low : -32768 ≤ number) (high : number ≤ 32767) :
    Spells (integerBytes number) [.number number] := by
  unfold integerBytes
  split
  · have first := toNat_lowByte (number + 139) (by omega) (by omega)
    refine spells_integer (by omega) (by omega) ?_ ?_
    · rw [trailing?, if_neg (by omega), if_neg (by omega), if_pos (by omega)]
      rfl
    · rw [integerValue, if_neg (by omega), if_pos (by omega)]
      omega
  · split
    · have first := toNat_lowByte ((number - 108) / 256 + 247) (by omega) (by omega)
      have second := toNat_lowByte ((number - 108) % 256) (by omega) (by omega)
      refine spells_integer (by omega) (by omega) ?_ ?_
      · rw [trailing?, if_neg (by omega), if_neg (by omega), if_neg (by omega), if_pos (by omega)]
        rfl
      · rw [integerValue, if_neg (by omega), if_neg (by omega), if_pos (by omega), word_singleton]
        omega
    · split
      · have first := toNat_lowByte ((-number - 108) / 256 + 251) (by omega) (by omega)
        have second := toNat_lowByte ((-number - 108) % 256) (by omega) (by omega)
        refine spells_integer (by omega) (by omega) ?_ ?_
        · rw [trailing?, if_neg (by omega), if_neg (by omega), if_neg (by omega), if_pos (by omega)]
          rfl
        · rw [integerValue, if_neg (by omega), if_neg (by omega), if_neg (by omega), word_singleton]
          omega
      · have read : signedWord (wordBytes number 2) = number :=
          signedWord_wordBytes (by omega) (by omega)
        refine spells_integer (by decide) (by decide) rfl ?_
        rw [integerValue, if_pos (by decide)]
        exact read

end Token

section Operands

variable {α : Type} [Coordinate α] [ExactArithmetic α]

/-- The value of a number, zero if it has none. -/
def exactValue (number : α) : Rat := (ExactArithmetic.rational? number).getD 0

/-- A multiple of 1/65536 from -32768 on and below 32768. -/
def IsFixed (number : α) : Prop :=
  ∃ units : Int, -2 ^ 31 ≤ units ∧ units < 2 ^ 31 ∧
    ExactArithmetic.rational? number = some (units / 65536 : Rat)

theorem toInt32_eq {number : α} {value : Int} (low : -2 ^ 31 ≤ value) (high : value < 2 ^ 31)
    (named : ExactArithmetic.rational? number = some (value : Rat)) :
    Coordinate.toInt32 number = value := by
  have whole := ExactArithmetic.truncate_eq named (by unfold IsSmall; omega)
  rw [Coordinate.toInt32, whole]
  exact clampWord_eq low high

theorem fixedPoint_eq {number : α} {units : Int} (low : -2 ^ 31 ≤ units) (high : units < 2 ^ 31)
    (named : ExactArithmetic.rational? number = some (units / 65536 : Rat)) :
    fixedPoint number = units := by
  have small : IsSmall units := by unfold IsSmall; omega
  have scale : IsSmall 65536 := by unfold IsSmall; decide
  have whole : (units / 65536 : Rat) * (65536 : Int) = units := by
    push_cast
    exact div_mul_cancel₀ _ (by norm_num)
  have product := ExactArithmetic.rational?_mul_ofInt named scale whole small
  exact toInt32_eq low high (ExactArithmetic.rational?_roundAway product small)

/-- The bytes of an operand are read as its value. -/
theorem Token.spells_operandBytes {number : α} (fixed : IsFixed number) :
    Spells (operandBytes number) [.number (exactValue number)] := by
  obtain ⟨units, low, high, named⟩ := fixed
  unfold operandBytes exactValue
  rw [named, Option.getD_some]
  split
  · next short =>
      have isWhole : Coordinate.isWhole number = true := by
        simp only [isShortInteger, Bool.and_eq_true] at short
        exact short.1.1
      have whole := Rat.coe_int_num_of_den_eq_one (ExactArithmetic.den_of_isWhole named isWhole)
      generalize (units / 65536 : Rat).num = value at whole
      have scaled : units = value * 65536 := by
        exact_mod_cast (div_eq_iff (by norm_num : (65536 : Rat) ≠ 0)).mp whole.symm
      rw [← whole] at named ⊢
      rw [toInt32_eq (by omega) (by omega) named]
      exact spells_integerBytes (by omega) (by omega)
  · rw [fixedPoint_eq low high named]
    exact spells_fixedBytes low high

end Operands

/-! ## Programs -/

def Command.map {α β : Type} (image : α → β) (command : Command α) : Command β :=
  ⟨command.operands.map image, command.operator⟩

/-- Whether a command has the operands that its operator takes. -/
def Command.IsComplete {α : Type} (command : Command α) : Prop :=
  command.operands.length = command.operator.arity

instance {α : Type} (command : Command α) : Decidable command.IsComplete :=
  inferInstanceAs (Decidable (_ = _))

def Command.tokens (command : Command Rat) : List Token :=
  command.operands.map .number ++ [.operator command.operator]

/-- Read tokens as commands, the operands of the first of which have begun. -/
def Command.ofTokens? (operands : List Rat) : List Token → Option (List (Command Rat))
  | [] => if operands.isEmpty then some [] else none
  | .number value :: rest => ofTokens? (operands ++ [value]) rest
  | .operator operator :: rest =>
      (ofTokens? [] rest).map fun commands => ⟨operands, operator⟩ :: commands

namespace Command

theorem ofTokens?_numbers (begun values : List Rat) (rest : List Token) :
    ofTokens? begun (values.map .number ++ rest) = ofTokens? (begun ++ values) rest := by
  induction values generalizing begun with
  | nil => rw [List.map_nil, List.nil_append, List.append_nil]
  | cons value values ih =>
      rw [List.map_cons, List.cons_append, ofTokens?, ih, List.append_assoc, List.singleton_append]

theorem ofTokens?_tokens (begun : List Rat) (command : Command Rat) (rest : List Token) :
    ofTokens? begun (command.tokens ++ rest) =
      (ofTokens? [] rest).map fun commands =>
        ⟨begun ++ command.operands, command.operator⟩ :: commands := by
  rw [tokens, List.append_assoc, ofTokens?_numbers]
  rfl

theorem ofTokens?_flatMap (commands : List (Command Rat)) :
    ofTokens? [] (commands.flatMap tokens) = some commands := by
  induction commands with
  | nil => rfl
  | cons command rest ih =>
      rw [List.flatMap_cons, ofTokens?_tokens, ih]
      rfl

end Command

namespace CharstringProgram

def map {α β : Type} (image : α → β) (program : CharstringProgram α) : CharstringProgram β :=
  ⟨program.width.map image, program.commands.map (Command.map image)⟩

/-- The width and the operands. -/
def numbers {α : Type} (program : CharstringProgram α) : List α :=
  program.width.toList ++ program.commands.flatMap Command.operands

/-- The program of commands. An operand too many before the first operator is the width. -/
def ofCommands? : List (Command Rat) → Option (CharstringProgram Rat)
  | [] => none
  | first :: rest =>
      if ∀ command ∈ rest, command.IsComplete then
        if first.IsComplete then some ⟨none, first :: rest⟩
        else
          match first.operands with
          | [] => none
          | width :: operands =>
              if operands.length = first.operator.arity then
                some ⟨some width, ⟨operands, first.operator⟩ :: rest⟩
              else none
      else none

def ofBytes? (bytes : List UInt8) : Option (CharstringProgram Rat) :=
  ((Token.readAll? bytes).bind (Command.ofTokens? [])).bind ofCommands?

def tokens (program : CharstringProgram Rat) : List Token :=
  program.width.toList.map .number ++ program.commands.flatMap Command.tokens

theorem ofCommands?_cons {first : Command Rat} {rest : List (Command Rat)}
    (complete : ∀ command ∈ first :: rest, command.IsComplete) :
    ofCommands? (first :: rest) = some ⟨none, first :: rest⟩ := by
  obtain ⟨firstComplete, restComplete⟩ := List.forall_mem_cons.mp complete
  rw [ofCommands?, if_pos restComplete, if_pos firstComplete]

theorem ofCommands?_width (width : Rat) {first : Command Rat} {rest : List (Command Rat)}
    (complete : ∀ command ∈ first :: rest, command.IsComplete) :
    ofCommands? (⟨width :: first.operands, first.operator⟩ :: rest) =
      some ⟨some width, first :: rest⟩ := by
  obtain ⟨firstComplete, restComplete⟩ := List.forall_mem_cons.mp complete
  have tooMany : ¬ Command.IsComplete ⟨width :: first.operands, first.operator⟩ := by
    intro fits
    exact Nat.succ_ne_self _ (fits.trans firstComplete.symm)
  rw [ofCommands?, if_pos restComplete, if_neg tooMany]
  exact if_pos firstComplete

/-- A program whose commands are complete is what its tokens are read as. -/
theorem ofTokens?_tokens {program : CharstringProgram Rat} (begins : program.commands ≠ [])
    (complete : ∀ command ∈ program.commands, command.IsComplete) :
    (Command.ofTokens? [] program.tokens).bind ofCommands? = some program := by
  obtain ⟨width, commands⟩ := program
  cases commands with
  | nil => exact absurd rfl begins
  | cons first rest =>
      unfold tokens
      rw [Command.ofTokens?_numbers, List.flatMap_cons, Command.ofTokens?_tokens,
        Command.ofTokens?_flatMap]
      cases width with
      | none => exact ofCommands?_cons complete
      | some width => exact ofCommands?_width width complete

section Values

variable {α : Type} [Coordinate α] [ExactArithmetic α]

theorem spells_numbers {numbers : List α} (fixed : ∀ number ∈ numbers, IsFixed number) :
    Token.Spells (numbers.flatMap operandBytes)
      ((numbers.map exactValue).map Token.number) := by
  rw [List.map_map, List.map_eq_flatMap]
  exact .flatMap fun number listed => Token.spells_operandBytes (fixed number listed)

theorem spells_command {command : Command α}
    (fixed : ∀ number ∈ command.operands, IsFixed number) :
    Token.Spells command.bytes (command.map exactValue).tokens :=
  (spells_numbers fixed).append (Token.spells_opcode command.operator)

/-- The bytes of a program are read as the tokens of its values. -/
theorem spells_bytes {program : CharstringProgram α}
    (fixed : ∀ number ∈ program.numbers, IsFixed number) :
    Token.Spells program.bytes (program.map exactValue).tokens := by
  obtain ⟨widthFixed, operandsFixed⟩ := List.forall_mem_append.mp fixed
  refine .append ?_ ?_
  · have width : (program.width.map exactValue).toList = program.width.toList.map exactValue := by
      cases program.width <;> rfl
    change Token.Spells _ ((program.width.map exactValue).toList.map Token.number)
    rw [width]
    exact spells_numbers widthFixed
  · change Token.Spells _ ((program.commands.map (Command.map exactValue)).flatMap Command.tokens)
    rw [List.flatMap_map]
    refine .flatMap fun command listed => spells_command fun number operand => ?_
    exact operandsFixed number (List.mem_flatMap.mpr ⟨command, listed, operand⟩)

/-- A well-formed program of fixed numbers is read back from its bytes. -/
theorem WellFormed.ofBytes?_bytes {program : CharstringProgram α} (shape : program.WellFormed)
    (fixed : ∀ number ∈ program.numbers, IsFixed number) :
    ofBytes? program.bytes = some (program.map exactValue) := by
  unfold ofBytes?
  rw [(spells_bytes fixed).readAll?_eq]
  refine ofTokens?_tokens ?_ ?_
  · obtain ⟨drawing, commands, -⟩ := shape.ends
    simp [map, commands]
  · intro command listed
    obtain ⟨original, found, rfl⟩ := List.mem_map.mp listed
    exact (List.length_map _).trans (shape.operands original found)

/-- The bytes of a compiled program of fixed numbers are read as a program with its
width, its operators and the values of its operands. No other such program with
another width or other commands has the same bytes. -/
theorem ofBytes?_bytes_ofEvents (round : Bool) (width : Option α) (events : List (OutlineEvent α))
    (fixed : ∀ number ∈ (ofEvents round width events).numbers, IsFixed number) :
    let program := ofEvents round width events
    ofBytes? program.bytes = some (program.map exactValue) ∧
      ∀ (otherRound : Bool) (otherWidth : Option α) (otherEvents : List (OutlineEvent α)),
        let other := ofEvents otherRound otherWidth otherEvents
        (∀ number ∈ other.numbers, IsFixed number) → program.bytes = other.bytes →
          program.map exactValue = other.map exactValue := by
  intro program
  have read := (wellFormed_ofEvents round width events).ofBytes?_bytes fixed
  refine ⟨read, ?_⟩
  intro otherRound otherWidth otherEvents other otherFixed same
  have otherShape := wellFormed_ofEvents otherRound otherWidth otherEvents
  have otherRead := otherShape.ofBytes?_bytes otherFixed
  exact Option.some.inj (read.symm.trans ((congrArg ofBytes? same).trans otherRead))

end Values

/-- A program with numbers of all forms, and the same program without its width. -/
theorem ofBytes?_bytes_slantedStroke :
    let half : Double := .ofLiteral (.finite false 5 (-1))
    let whole (number : Int) : Double := Coordinate.ofInt number
    let events : List (OutlineEvent Double) :=
      [.move ⟨whole 7, whole (-120)⟩, .line ⟨whole 1007, half⟩, .close]
    let program : CharstringProgram Double := .ofEvents false (some (whole 1200)) events
    let other : CharstringProgram Double := .ofEvents false none events
    ((∀ number ∈ program.numbers, IsFixed number) ∧ ∀ number ∈ other.numbers, IsFixed number) ∧
      ofBytes? program.bytes =
        some ⟨some 1200, [⟨[7, -120], .moveTo⟩, ⟨[1000, 241 / 2], .lineTo⟩, ⟨[], .endChar⟩]⟩ ∧
      program.bytes ≠ other.bytes := by
  intro half whole events program other
  have fixed (number : Double) (units : Int) (named : number.rational? = some (units / 65536 : Rat))
      (bounds : -2 ^ 31 ≤ units ∧ units < 2 ^ 31) : IsFixed number :=
    ⟨units, bounds.1, bounds.2, named⟩
  have operands : ∀ number ∈ other.numbers, IsFixed number := by
    have listed : other.numbers = [whole 7, whole (-120), whole 1000, half + whole 120] := by
      decide +kernel
    rw [listed]
    simp only [List.forall_mem_cons, List.not_mem_nil, false_implies, implies_true, and_true]
    exact ⟨fixed _ 458752 (by decide +kernel) (by decide),
      fixed _ (-7864320) (by decide +kernel) (by decide),
      fixed _ 65536000 (by decide +kernel) (by decide),
      fixed _ 7897088 (by decide +kernel) (by decide)⟩
  have numbers : ∀ number ∈ program.numbers, IsFixed number := by
    have listed : program.numbers = whole 1200 :: other.numbers := by decide +kernel
    rw [listed]
    exact List.forall_mem_cons.mpr
      ⟨fixed _ 78643200 (by decide +kernel) (by decide), operands⟩
  have values : program.map exactValue =
      ⟨some 1200, [⟨[7, -120], .moveTo⟩, ⟨[1000, 241 / 2], .lineTo⟩, ⟨[], .endChar⟩]⟩ := by
    decide +kernel
  have widths : (program.map exactValue).width ≠ (other.map exactValue).width := by
    decide +kernel
  obtain ⟨read, distinct⟩ := ofBytes?_bytes_ofEvents false (some (whole 1200)) events numbers
  refine ⟨⟨numbers, operands⟩, read.trans (congrArg some values), fun same => ?_⟩
  exact widths (congrArg CharstringProgram.width (distinct false none events operands same))

end CharstringProgram

end FontCompiler
