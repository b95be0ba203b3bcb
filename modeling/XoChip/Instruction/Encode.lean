import XoChip.Instruction.Form

/-!
Encoding: the word that the digits of the operands make of an encoding. A word operand is no part of
it; it follows the instruction word.
-/

namespace XoChip

/-- What the places of an encoding are taken by. -/
structure Fields where
  x : Fin 16 := 0
  y : Fin 16 := 0
  number : Nat := 0
  deriving DecidableEq, Repr

namespace Fields

/-- The first register goes to `X`, the second to `Y`, a number to the run of `N`. -/
def ofOperands : List Operand → Fields
  | [.register x] => { x }
  | [.register x, .register y] => { x, y }
  | [.register x, .register y, .nibble n] => { x, y, number := n.val }
  | [.register x, .byte b] => { x, number := b.toNat }
  | [.nibble n] => { number := n.val }
  | [.short a] => { number := a.val }
  | _ => {}

end Fields

namespace Slot

/-- The number written by a list of slots. The digits of a number are spent from the right; what is
left of it comes second. -/
def fill (f : Fields) : List Slot → Nat × Nat
  | [] => (0, f.number)
  | s :: ss =>
    let (below, left) := fill f ss
    let weight := 16 ^ ss.length
    match s with
    | digit d => (weight * d.val + below, left)
    | x => (weight * f.x.val + below, left)
    | y => (weight * f.y.val + below, left)
    | n => (weight * (left % 16) + below, left / 16)

end Slot

namespace Form

/-- The encoding with the operands in their places. -/
def fill (f : Form) (os : List Operand) : Word :=
  UInt16.ofNat (Slot.fill (.ofOperands os) f.encoding.toList).1

end Form

namespace Instruction

/-- The instruction word. -/
def encode (i : Instruction) : Word :=
  i.form.fill i.operands

/-- The word that follows, for an instruction that has one. -/
def following? : Instruction → Option Word
  | setIndexLong w => some w
  | _ => none

end Instruction

end XoChip
