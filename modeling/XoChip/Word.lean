/-!
Words, and the fields an instruction word is cut into: four nibbles, a low byte, a twelve-bit
address.
-/

namespace XoChip

/-- A machine word; addresses are words, so they wrap at 65536. -/
abbrev Word := UInt16

-- Stated here, so that the numerals of these types all rest on the same two facts.
instance neZero_sixteen : @NeZero Nat Zero.ofOfNat0 16 := ⟨Nat.succ_ne_zero 15⟩

instance neZero_short : @NeZero Nat Zero.ofOfNat0 0x1000 := ⟨Nat.succ_ne_zero 0xFFF⟩

/-- The number of one of the sixteen registers. -/
abbrev Register := Fin 16

/-- The address a jump can name: the low twelve bits of a word. -/
abbrev ShortAddress := Fin 0x1000

namespace Word

/-- The word stored as `high` followed by `low`. -/
def ofBytes (high low : UInt8) : Word :=
  high.toUInt16 <<< 8 ||| low.toUInt16

def ofShort (a : ShortAddress) : Word :=
  UInt16.ofNat a.val

/-- The nibble `place` nibbles from the right. -/
def nibble (w : Word) (place : Nat) : Fin 16 :=
  Fin.ofNat 16 (w.toNat >>> (4 * place))

def lowByte (w : Word) : UInt8 :=
  w.toUInt8

def short (w : Word) : ShortAddress :=
  Fin.ofNat 0x1000 w.toNat

end Word

end XoChip
