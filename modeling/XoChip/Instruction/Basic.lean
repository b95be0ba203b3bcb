import XoChip.Word

/-!
Instructions with their operands as values of the operands' own ranges.
-/

namespace XoChip

inductive OperandKind
  | register
  | nibble
  | byte
  | short
  | word
  deriving DecidableEq, Repr

inductive Operand
  | register (r : Register)
  | nibble (n : Fin 16)
  | byte (b : UInt8)
  | short (a : ShortAddress)
  | word (w : Word)
  deriving DecidableEq, Repr

namespace Operand

def kind : Operand → OperandKind
  | register _ => .register
  | nibble _ => .nibble
  | byte _ => .byte
  | short _ => .short
  | word _ => .word

def value : Operand → Nat
  | register r => r.val
  | nibble n => n.val
  | byte b => b.toNat
  | short a => a.val
  | word w => w.toNat

end Operand

/-- Everything the machine can be told to do. -/
inductive Instruction
  /-- Move the selected planes down. -/
  | scrollDown (rows : Fin 16)
  /-- Move the selected planes up. -/
  | scrollUp (rows : Fin 16)
  /-- Blank the selected planes. -/
  | clear
  /-- Return from a subroutine. -/
  | ret
  /-- Move the selected planes right by four columns. -/
  | scrollRight
  /-- Move the selected planes left by four columns. -/
  | scrollLeft
  /-- Halt. -/
  | exit
  /-- Switch to 64 by 32. -/
  | lores
  /-- Switch to 128 by 64. -/
  | hires
  | jump (target : ShortAddress)
  | call (target : ShortAddress)
  | skipEqual (x : Register) (byte : UInt8)
  | skipNotEqual (x : Register) (byte : UInt8)
  | skipSame (x y : Register)
  /-- Store the registers from vX to vY, in either direction. -/
  | storeRange (x y : Register)
  /-- Fetch the registers from vX to vY, in either direction. -/
  | fetchRange (x y : Register)
  | load (x : Register) (byte : UInt8)
  | add (x : Register) (byte : UInt8)
  | copy (x y : Register)
  | or (x y : Register)
  | and (x y : Register)
  | xor (x y : Register)
  | addRegister (x y : Register)
  /-- vX becomes vX - vY. -/
  | subtract (x y : Register)
  | shiftRight (x y : Register)
  /-- vX becomes vY - vX. -/
  | subtractFrom (x y : Register)
  | shiftLeft (x y : Register)
  | skipDifferent (x y : Register)
  | setIndex (target : ShortAddress)
  /-- Jump to an address plus a register. -/
  | jumpPlus (base : ShortAddress)
  | random (x : Register) (mask : UInt8)
  /-- Draw the sprite at the index register with its corner at (vX, vY). -/
  | sprite (x y : Register) (rows : Fin 16)
  | skipPressed (x : Register)
  | skipReleased (x : Register)
  /-- Set the index register to the word that follows. -/
  | setIndexLong (target : Word)
  | selectPlanes (mask : Fin 16)
  /-- Fetch the sixteen bytes of the audio pattern. -/
  | audio
  | readDelay (x : Register)
  /-- Wait for a key. -/
  | awaitKey (x : Register)
  | setDelay (x : Register)
  | setSound (x : Register)
  | addIndex (x : Register)
  /-- Point the index register at a small hexadecimal digit. -/
  | smallDigit (x : Register)
  /-- Point the index register at a large hexadecimal digit. -/
  | largeDigit (x : Register)
  /-- Store the three decimal digits of vX. -/
  | decimal (x : Register)
  | setPitch (x : Register)
  /-- Store the registers from v0 to vX. -/
  | store (x : Register)
  /-- Fetch the registers from v0 to vX. -/
  | fetch (x : Register)
  /-- Write the registers from v0 to vX to the flag file. -/
  | saveFlags (x : Register)
  /-- Read the registers from v0 to vX from the flag file. -/
  | loadFlags (x : Register)
  deriving DecidableEq, Repr

namespace Instruction

/-- The operands, in the order they are declared and printed. -/
def operands : Instruction → List Operand
  | scrollDown n | scrollUp n | selectPlanes n => [.nibble n]
  | clear | ret | scrollRight | scrollLeft | exit | lores | hires | audio => []
  | jump a | call a | setIndex a | jumpPlus a => [.short a]
  | skipEqual x b | skipNotEqual x b | load x b | add x b | random x b => [.register x, .byte b]
  | skipSame x y | storeRange x y | fetchRange x y | copy x y | or x y | and x y | xor x y
  | addRegister x y | subtract x y | shiftRight x y | subtractFrom x y | shiftLeft x y
  | skipDifferent x y => [.register x, .register y]
  | sprite x y n => [.register x, .register y, .nibble n]
  | setIndexLong w => [.word w]
  | skipPressed x | skipReleased x | readDelay x | awaitKey x | setDelay x | setSound x
  | addIndex x | smallDigit x | largeDigit x | decimal x | setPitch x | store x | fetch x
  | saveFlags x | loadFlags x => [.register x]

end Instruction

end XoChip
