import FontCompiler.Charstring.Program

/-!
# The bytes of a charstring

Small integers take one or two bytes, other 16-bit integers three, and all other
numbers five bytes, as multiples of 1/65536. The first byte of a number tells
its form, and none of these bytes is an operator of a program.
-/

namespace FontCompiler

/-- The byte at a place of a number in two's complement. -/
def wordByte (number : Int) (place : Nat) : UInt8 :=
  UInt8.ofNat ((number / Nat.pow 256 place) % 256).toNat

def integerBytes (number : Int) : List UInt8 :=
  if -107 ≤ number ∧ number ≤ 107 then [wordByte (number + 139) 0]
  else if 108 ≤ number ∧ number ≤ 1131 then
    [wordByte ((number - 108) / 256 + 247) 0, wordByte ((number - 108) % 256) 0]
  else if -1131 ≤ number ∧ number ≤ -108 then
    [wordByte ((-number - 108) / 256 + 251) 0, wordByte ((-number - 108) % 256) 0]
  else [28, wordByte number 1, wordByte number 0]

def fixedBytes (number : Int) : List UInt8 :=
  [255, wordByte number 3, wordByte number 2, wordByte number 1, wordByte number 0]

section Operands

variable {α : Type} [Coordinate α]

/-- A number in 65536ths, clamped to 32 bits. -/
def fixedPoint (number : α) : Int :=
  Coordinate.toInt32 (Coordinate.roundAway (number * Coordinate.ofInt 65536))

def isShortInteger (number : α) : Bool :=
  Coordinate.isWhole number && Coordinate.atMost (Coordinate.ofInt (-32768)) number &&
    Coordinate.atMost number (Coordinate.ofInt 32767)

def operandBytes (number : α) : List UInt8 :=
  if isShortInteger number then integerBytes (Coordinate.toInt32 number)
  else fixedBytes (fixedPoint number)

def Command.bytes (command : Command α) : List UInt8 :=
  command.operands.flatMap operandBytes ++ [command.operator.opcode]

def CharstringProgram.bytes (program : CharstringProgram α) : List UInt8 :=
  program.width.toList.flatMap operandBytes ++ program.commands.flatMap Command.bytes

end Operands

end FontCompiler
