import XoChip.Instruction.Form

/-!
Decoding: which instruction a word stands for. Families are told apart by their first nibble; some
look at fewer of the other nibbles than their encodings print.
-/

namespace XoChip.Instruction

/-- Family 0, which does not look at its second nibble. -/
def ofSystem? (y n : Fin 16) : Option Instruction :=
  match y.val, n.val with
  | 0xC, _ => some (.scrollDown n)
  | 0xD, _ => some (.scrollUp n)
  | 0xE, 0x0 => some .clear
  | 0xE, 0xE => some .ret
  | 0xF, 0xB => some .scrollRight
  | 0xF, 0xC => some .scrollLeft
  | 0xF, 0xD => some .exit
  | 0xF, 0xE => some .lores
  | 0xF, 0xF => some .hires
  | _, _ => none

/-- Family 5. -/
def ofPair? (x y n : Fin 16) : Option Instruction :=
  match n.val with
  | 0x0 => some (.skipSame x y)
  | 0x2 => some (.storeRange x y)
  | 0x3 => some (.fetchRange x y)
  | _ => none

/-- Family 8. -/
def ofArithmetic? (x y n : Fin 16) : Option Instruction :=
  match n.val with
  | 0x0 => some (.copy x y)
  | 0x1 => some (.or x y)
  | 0x2 => some (.and x y)
  | 0x3 => some (.xor x y)
  | 0x4 => some (.addRegister x y)
  | 0x5 => some (.subtract x y)
  | 0x6 => some (.shiftRight x y)
  | 0x7 => some (.subtractFrom x y)
  | 0xE => some (.shiftLeft x y)
  | _ => none

/-- Family E. -/
def ofKey? (x : Fin 16) (low : UInt8) : Option Instruction :=
  match low.toNat with
  | 0x9E => some (.skipPressed x)
  | 0xA1 => some (.skipReleased x)
  | _ => none

/-- Family F, whose members without a register do not look at its place. -/
def ofExtension? (x : Fin 16) (low : UInt8) (next : Word) : Option Instruction :=
  match low.toNat with
  | 0x00 => some (.setIndexLong next)
  | 0x01 => some (.selectPlanes x)
  | 0x02 => some .audio
  | 0x07 => some (.readDelay x)
  | 0x0A => some (.awaitKey x)
  | 0x15 => some (.setDelay x)
  | 0x18 => some (.setSound x)
  | 0x1E => some (.addIndex x)
  | 0x29 => some (.smallDigit x)
  | 0x30 => some (.largeDigit x)
  | 0x33 => some (.decimal x)
  | 0x3A => some (.setPitch x)
  | 0x55 => some (.store x)
  | 0x65 => some (.fetch x)
  | 0x75 => some (.saveFlags x)
  | 0x85 => some (.loadFlags x)
  | _ => none

/-- The instruction `w` stands for where `next` is the word after it. -/
def decode? (w next : Word) : Option Instruction :=
  let x := Word.nibble w 2
  let y := Word.nibble w 1
  let n := Word.nibble w 0
  match (Word.nibble w 3).val with
  | 0x0 => ofSystem? y n
  | 0x1 => some (.jump (Word.short w))
  | 0x2 => some (.call (Word.short w))
  | 0x3 => some (.skipEqual x (Word.lowByte w))
  | 0x4 => some (.skipNotEqual x (Word.lowByte w))
  | 0x5 => ofPair? x y n
  | 0x6 => some (.load x (Word.lowByte w))
  | 0x7 => some (.add x (Word.lowByte w))
  | 0x8 => ofArithmetic? x y n
  | 0x9 => if n = 0 then some (.skipDifferent x y) else none
  | 0xA => some (.setIndex (Word.short w))
  | 0xB => some (.jumpPlus (Word.short w))
  | 0xC => some (.random x (Word.lowByte w))
  | 0xD => some (.sprite x y n)
  | 0xE => ofKey? x (Word.lowByte w)
  | _ => ofExtension? x (Word.lowByte w) next

/-- The form of what is decoded, or the invalid form. -/
def formOf : Option Instruction → Form
  | some i => i.form
  | none => .invalid

end XoChip.Instruction
