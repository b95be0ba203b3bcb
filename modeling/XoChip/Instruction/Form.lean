import XoChip.Hex
import XoChip.Instruction.Basic

/-!
Forms: how an instruction is laid out in a word and how it is written for a reader. An instruction
is its form together with its operands.
-/

namespace XoChip

/-- One digit of an encoding: fixed, or part of an operand. -/
inductive Slot
  | digit (d : Fin 16)
  | x
  | y
  | n
  deriving DecidableEq, Repr

namespace Slot

instance (d : Nat) : OfNat Slot d := ⟨digit (Fin.ofNat 16 d)⟩

def char : Slot → Char
  | digit d => Hex.digit d
  | x => 'X'
  | y => 'Y'
  | n => 'N'

/-- The digit itself, zero where an operand goes. -/
def fixed : Slot → Fin 16
  | digit d => d
  | x | y | n => 0

end Slot

/-- One piece of a label: text, or the place of an operand. -/
inductive Piece
  | text (s : String)
  | x
  | y
  | n
  | nn
  | nnn
  | nnnn
  deriving DecidableEq, Repr

namespace Piece

instance : Coe String Piece := ⟨text⟩

def letters : Piece → String
  | text s => s
  | x => "X"
  | y => "Y"
  | n => "N"
  | nn => "NN"
  | nnn => "NNN"
  | nnnn => "NNNN"

def kind? : Piece → Option OperandKind
  | text _ => none
  | x | y => some .register
  | n => some .nibble
  | nn => some .byte
  | nnn => some .short
  | nnnn => some .word

end Piece

structure Form where
  encoding : Vector Slot 4
  label : List Piece
  deriving DecidableEq, Repr

namespace Form

/-- The form of a word that is no instruction. -/
def invalid : Form := ⟨#v[0xF, 0xF, 0xF, 0xF], ["invalid"]⟩

/-- The kinds of the operands, in order. -/
def kinds (f : Form) : List OperandKind :=
  f.label.filterMap Piece.kind?

/-- The encoding with every operand zero. -/
def code (f : Form) : Nat :=
  f.encoding.foldl (fun acc s => 16 * acc + s.fixed) 0

/-- Length in bytes: a word operand follows the instruction word. -/
def size (f : Form) : Nat :=
  if .word ∈ f.kinds then 4 else 2

def encodingText (f : Form) : String :=
  String.ofList (f.encoding.toList.map Slot.char)

def labelText (f : Form) : String :=
  String.join (f.label.map Piece.letters)

end Form

namespace Operand

/-- Registers and nibbles are one digit; larger numbers are also given in decimal. -/
def chars : Operand → List Char
  | register r => [Hex.digit r]
  | nibble n => [Hex.digit n]
  | byte b => number 2 b.toNat
  | short a => number 3 a.val
  | word w => number 4 w.toNat
where
  number (width n : Nat) : List Char :=
    "0x".toList ++ Hex.digits width n ++ " (".toList ++ (toString n).toList ++ [')']

end Operand

namespace Piece

/-- The label with its places taken by the operands in turn. -/
def fill : List Piece → List Operand → List Char
  | [], _ => []
  | text s :: ps, os => s.toList ++ fill ps os
  | _ :: ps, o :: os => o.chars ++ fill ps os
  | p :: ps, [] => p.letters.toList ++ fill ps []

end Piece

namespace Instruction

def form : Instruction → Form
  | scrollDown _ => ⟨#v[0, 0, 0xC, .n], ["scroll-down ", .n]⟩
  | scrollUp _ => ⟨#v[0, 0, 0xD, .n], ["scroll-up ", .n]⟩
  | clear => ⟨#v[0, 0, 0xE, 0], ["clear"]⟩
  | ret => ⟨#v[0, 0, 0xE, 0xE], ["return"]⟩
  | scrollRight => ⟨#v[0, 0, 0xF, 0xB], ["scroll-right"]⟩
  | scrollLeft => ⟨#v[0, 0, 0xF, 0xC], ["scroll-left"]⟩
  | exit => ⟨#v[0, 0, 0xF, 0xD], ["exit"]⟩
  | lores => ⟨#v[0, 0, 0xF, 0xE], ["lores"]⟩
  | hires => ⟨#v[0, 0, 0xF, 0xF], ["hires"]⟩
  | jump _ => ⟨#v[1, .n, .n, .n], ["jump ", .nnn]⟩
  | call _ => ⟨#v[2, .n, .n, .n], ["call ", .nnn]⟩
  | skipEqual _ _ => ⟨#v[3, .x, .n, .n], ["skip v", .x, " == ", .nn]⟩
  | skipNotEqual _ _ => ⟨#v[4, .x, .n, .n], ["skip v", .x, " != ", .nn]⟩
  | skipSame _ _ => ⟨#v[5, .x, .y, 0], ["skip v", .x, " == v", .y]⟩
  | storeRange _ _ => ⟨#v[5, .x, .y, 2], ["save v", .x, " - v", .y]⟩
  | fetchRange _ _ => ⟨#v[5, .x, .y, 3], ["load v", .x, " - v", .y]⟩
  | load _ _ => ⟨#v[6, .x, .n, .n], ["v", .x, " := ", .nn]⟩
  | add _ _ => ⟨#v[7, .x, .n, .n], ["v", .x, " += ", .nn]⟩
  | copy _ _ => ⟨#v[8, .x, .y, 0], ["v", .x, " := v", .y]⟩
  | or _ _ => ⟨#v[8, .x, .y, 1], ["v", .x, " |= v", .y]⟩
  | and _ _ => ⟨#v[8, .x, .y, 2], ["v", .x, " &= v", .y]⟩
  | xor _ _ => ⟨#v[8, .x, .y, 3], ["v", .x, " ^= v", .y]⟩
  | addRegister _ _ => ⟨#v[8, .x, .y, 4], ["v", .x, " += v", .y]⟩
  | subtract _ _ => ⟨#v[8, .x, .y, 5], ["v", .x, " -= v", .y]⟩
  | shiftRight _ _ => ⟨#v[8, .x, .y, 6], ["v", .x, " := v", .y, " >> 1"]⟩
  | subtractFrom _ _ => ⟨#v[8, .x, .y, 7], ["v", .x, " =- v", .y]⟩
  | shiftLeft _ _ => ⟨#v[8, .x, .y, 0xE], ["v", .x, " := v", .y, " << 1"]⟩
  | skipDifferent _ _ => ⟨#v[9, .x, .y, 0], ["skip v", .x, " != v", .y]⟩
  | setIndex _ => ⟨#v[0xA, .n, .n, .n], ["i := ", .nnn]⟩
  | jumpPlus _ => ⟨#v[0xB, .n, .n, .n], ["jump v0 + ", .nnn]⟩
  | random _ _ => ⟨#v[0xC, .x, .n, .n], ["v", .x, " := random & ", .nn]⟩
  | sprite _ _ _ => ⟨#v[0xD, .x, .y, .n], ["sprite v", .x, " v", .y, " ", .n]⟩
  | skipPressed _ => ⟨#v[0xE, .x, 9, 0xE], ["skip v", .x, " == key pressed"]⟩
  | skipReleased _ => ⟨#v[0xE, .x, 0xA, 1], ["skip v", .x, " != key pressed"]⟩
  | setIndexLong _ => ⟨#v[0xF, 0, 0, 0], ["i := long ", .nnnn]⟩
  | selectPlanes _ => ⟨#v[0xF, .n, 0, 1], ["plane ", .n]⟩
  | audio => ⟨#v[0xF, 0, 0, 2], ["audio"]⟩
  | readDelay _ => ⟨#v[0xF, .x, 0, 7], ["v", .x, " := delay"]⟩
  | awaitKey _ => ⟨#v[0xF, .x, 0, 0xA], ["v", .x, " := key"]⟩
  | setDelay _ => ⟨#v[0xF, .x, 1, 5], ["delay := v", .x]⟩
  | setSound _ => ⟨#v[0xF, .x, 1, 8], ["buzzer := v", .x]⟩
  | addIndex _ => ⟨#v[0xF, .x, 1, 0xE], ["i += v", .x]⟩
  | smallDigit _ => ⟨#v[0xF, .x, 2, 9], ["i := hex v", .x]⟩
  | largeDigit _ => ⟨#v[0xF, .x, 3, 0], ["i := bighex v", .x]⟩
  | decimal _ => ⟨#v[0xF, .x, 3, 3], ["bcd v", .x]⟩
  | setPitch _ => ⟨#v[0xF, .x, 3, 0xA], ["pitch := v", .x]⟩
  | store _ => ⟨#v[0xF, .x, 5, 5], ["save v", .x]⟩
  | fetch _ => ⟨#v[0xF, .x, 6, 5], ["load v", .x]⟩
  | saveFlags _ => ⟨#v[0xF, .x, 7, 5], ["saveflags v", .x]⟩
  | loadFlags _ => ⟨#v[0xF, .x, 8, 5], ["loadflags v", .x]⟩

/-- Length in bytes. -/
def size (i : Instruction) : Nat :=
  i.form.size

/-- The instruction as a reader sees it, such as `vA += 0x12 (18)`. -/
def text (i : Instruction) : String :=
  String.ofList (Piece.fill i.form.label i.operands)

theorem kinds_form (i : Instruction) : i.form.kinds = i.operands.map Operand.kind := by
  cases i <;> rfl

end Instruction

/-- Every form, in the order of their codes. -/
def Form.table : List Form :=
  [.scrollDown 0, .scrollUp 0, .clear, .ret, .scrollRight, .scrollLeft, .exit, .lores, .hires,
    .jump 0, .call 0, .skipEqual 0 0, .skipNotEqual 0 0, .skipSame 0 0, .storeRange 0 0,
    .fetchRange 0 0, .load 0 0, .add 0 0, .copy 0 0, .or 0 0, .and 0 0, .xor 0 0,
    .addRegister 0 0, .subtract 0 0, .shiftRight 0 0, .subtractFrom 0 0, .shiftLeft 0 0,
    .skipDifferent 0 0, .setIndex 0, .jumpPlus 0, .random 0 0, .sprite 0 0 0, .skipPressed 0,
    .skipReleased 0, .setIndexLong 0, .selectPlanes 0, .audio, .readDelay 0, .awaitKey 0,
    .setDelay 0, .setSound 0, .addIndex 0, .smallDigit 0, .largeDigit 0, .decimal 0,
    .setPitch 0, .store 0, .fetch 0, .saveFlags 0, .loadFlags 0].map Instruction.form

theorem Form.form_mem_table (i : Instruction) : i.form ∈ Form.table := by
  cases i <;> (unfold Form.table; repeat first | exact .head _ | refine .tail _ ?_)

end XoChip
