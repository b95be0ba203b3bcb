import XoChip.Processor

/-!
Arithmetic on the register file. Where an operation yields a flag, the result is written first, so
that the flag wins when both go to vF.
-/

namespace XoChip.Registers

/-- Writes a result to `x` and then a flag to vF. -/
def withFlag (v : Registers) (x : Register) (result : UInt8) (flag : Bool) : Registers :=
  (v.put x result).put Register.flag flag.toUInt8

/-- A bitwise operation; some dialects clear vF after it. -/
def bitwise (v : Registers) (d : Dialect) (x y : Register) (op : UInt8 → UInt8 → UInt8) :
    Registers :=
  let v := v.put x (op (v.get x) (v.get y))
  if d.logic then v.put Register.flag 0 else v

def add (v : Registers) (x y : Register) : Registers :=
  v.withFlag x (v.get x + v.get y) (255 < (v.get x).toNat + (v.get y).toNat)

/-- The flag says that nothing was borrowed. -/
def subtract (v : Registers) (x y : Register) : Registers :=
  v.withFlag x (v.get x - v.get y) (v.get y ≤ v.get x)

def subtractFrom (v : Registers) (x y : Register) : Registers :=
  v.withFlag x (v.get y - v.get x) (v.get x ≤ v.get y)

/-- What a shift reads: its target in some dialects, else its second register. -/
def shifted (v : Registers) (d : Dialect) (x y : Register) : UInt8 :=
  if d.shift then v.get x else v.get y

def shiftRight (v : Registers) (d : Dialect) (x y : Register) : Registers :=
  let source := v.shifted d x y
  v.withFlag x (source >>> 1) (source.toNat.testBit 0)

def shiftLeft (v : Registers) (d : Dialect) (x y : Register) : Registers :=
  let source := v.shifted d x y
  v.withFlag x (source <<< 1) (source.toNat.testBit 7)

/-- The registers from `x` to `y` inclusive, downwards if `y` is the smaller. -/
def span (x y : Register) : List Register :=
  if x ≤ y then (List.finRange 16).filter fun r => x ≤ r && r ≤ y
  else ((List.finRange 16).filter fun r => y ≤ r && r ≤ x).reverse

def gather (v : Registers) (rs : List Register) : List UInt8 :=
  rs.map fun r => v.get r

/-- Writes bytes to registers in turn, as far as there are both. -/
def scatter (v : Registers) : List Register → List UInt8 → Registers
  | r :: rs, b :: bs => scatter (v.put r b) rs bs
  | _, _ => v

/-- The registers from v0 to `x`. -/
def upTo (v : Registers) (x : Register) : List UInt8 :=
  v.toList.take (x.val + 1)

/-- Overwrites the registers from v0 to `x`, with zero where there are too few bytes. -/
def overwrite (v : Registers) (x : Register) (bytes : List UInt8) : Registers :=
  Vector.ofFn fun r => if r ≤ x then bytes.getD r.val 0 else v.get r

/-- The decimal digits of a byte. -/
def decimal (b : UInt8) : List UInt8 :=
  [b / 100, b / 10 % 10, b % 10]

end XoChip.Registers
