import XoChip.Machine.Execute
import XoChip.Proofs.Checked.Operands

/-!
Registers read and written by the operands that name them, through checked places. Main statements:
what each family of register operations does (`flagged_eq`, `bitwise_eq`, `shift_eq`) and the
registers between two named ones (`span_eq`).
-/

namespace XoChip.Checked
open Machine

/-! ## Operands as numbers -/

/-- The register an operand names, by the low digit of its value. -/
def registerAt (os : Vector Operand 3) (k : Nat) : Option Nat :=
  (os[k]?).map fun o => o.value % 16

def byteAt (os : Vector Operand 3) (k : Nat) : Option UInt8 :=
  (os[k]?).map fun o => UInt8.ofNat o.value

def wordAt (os : Vector Operand 3) (k : Nat) : Option Word :=
  (os[k]?).map fun o => UInt16.ofNat o.value

section
variable (o p q : Operand) (os : List Operand)

theorem slots_first : (Operand.slots (o :: os))[0]? = some o := rfl

theorem slots_second : (Operand.slots (o :: p :: os))[1]? = some p := rfl

theorem slots_third : (Operand.slots (o :: p :: q :: os))[2]? = some q := rfl

end

section
variable {os : Vector Operand 3} {k : Nat}

theorem registerAt_eq {x : Register} (h : os[k]? = some (.register x)) :
    registerAt os k = some x.val := by
  rw [registerAt, h, Option.map_some, Operand.value, Nat.mod_eq_of_lt x.isLt]

theorem byteAt_nibble {n : Fin 16} (h : os[k]? = some (.nibble n)) :
    byteAt os k = some (UInt8.ofNat n.val) := by
  rw [byteAt, h]
  rfl

theorem toNat_nibble (n : Fin 16) : (UInt8.ofNat n.val).toNat = n.val :=
  UInt8.toNat_ofNat_of_lt (Nat.lt_trans n.isLt (by decide))

theorem byteAt_byte {b : UInt8} (h : os[k]? = some (.byte b)) : byteAt os k = some b := by
  rw [byteAt, h, Option.map_some, Operand.value, UInt8.ofNat_toNat]

theorem wordAt_short {a : ShortAddress} (h : os[k]? = some (.short a)) :
    wordAt os k = some (Word.ofShort a) := by
  rw [wordAt, h]
  rfl

theorem wordAt_word {w : Word} (h : os[k]? = some (.word w)) : wordAt os k = some w := by
  rw [wordAt, h, Option.map_some, Operand.value, UInt16.ofNat_toNat]

end

/-- The register an operand names and what it holds. -/
def valueAt (m : Machine) (os : Vector Operand 3) (k : Nat) : Option UInt8 := do
  let x ← registerAt os k
  m.v[x]?

theorem valueAt_eq (m : Machine) {os : Vector Operand 3} {k : Nat} {x : Register}
    (h : os[k]? = some (.register x)) : valueAt m os k = some (m.v.get x) := by
  rw [valueAt, registerAt_eq h, some_bind]
  exact getElem?_fin m.v x

/-! ## Registers -/

/-- Writes to the register an operand names. -/
def setAt (m : Machine) (os : Vector Operand 3) (k : Nat) (b : UInt8) : Option Machine := do
  let x ← registerAt os k
  let v ← put m.v x b
  some { m with v := v }

/-- Writes to vF. -/
def setFlag (m : Machine) (b : UInt8) : Option Machine := do
  let v ← put m.v 15 b
  some { m with v := v }

/-- An operation of two registers that yields a flag. -/
def flagged (m : Machine) (os : Vector Operand 3) (op : UInt8 → UInt8 → UInt8 × Bool) :
    Option Machine := do
  let a ← valueAt m os 0
  let b ← valueAt m os 1
  let m ← setAt m os 0 (op a b).1
  setFlag m (op a b).2.toUInt8

def bitwise (m : Machine) (os : Vector Operand 3) (op : UInt8 → UInt8 → UInt8) :
    Option Machine := do
  let a ← valueAt m os 0
  let b ← valueAt m os 1
  let m ← setAt m os 0 (op a b)
  if m.dialect.logic then setFlag m 0 else some m

/-- A shift, with the bit shifted out for a flag. -/
def shift (m : Machine) (os : Vector Operand 3) (value out : UInt8 → UInt8) : Option Machine := do
  let source ← valueAt m os (if m.dialect.shift then 0 else 1)
  let m ← setAt m os 0 (value source)
  setFlag m (out source)

/-- The numbers of the registers from one to another, in either direction. -/
def span (x y : Nat) : Option (List Nat) := do
  let count ← if x ≤ y then sub y x else sub x y
  (List.range (count + 1)).mapM fun offset => if x ≤ y then add 64 x offset else sub x offset

theorem span_eq (x y : Register) : span x.val y.val = some ((Registers.span x y).map Fin.val) := by
  revert x y
  decide +kernel

theorem setAt_eq (m : Machine) {os : Vector Operand 3} {k : Nat} {x : Register}
    (h : os[k]? = some (.register x)) (b : UInt8) :
    setAt m os k b = some (m.setRegister x b) := by
  rw [setAt, registerAt_eq h, some_bind, put_fin, some_bind]
  rfl

theorem setFlag_eq (m : Machine) (b : UInt8) :
    setFlag m b = some (m.setRegister Register.flag b) := by
  rw [setFlag, show 15 = Register.flag.val from rfl, put_fin, some_bind]
  rfl

section
variable (m : Machine) (x y : Register)

theorem flagged_eq (op : UInt8 → UInt8 → UInt8 × Bool) :
    flagged m (Operand.slots [.register x, .register y]) op =
      some { m with
        v := m.v.withFlag x (op (m.v.get x) (m.v.get y)).1 (op (m.v.get x) (m.v.get y)).2 } := by
  rw [flagged, valueAt_eq m (slots_first ..), some_bind, valueAt_eq m (slots_second ..), some_bind,
    setAt_eq m (slots_first ..), some_bind, setFlag_eq]
  rfl

theorem bitwise_eq (op : UInt8 → UInt8 → UInt8) :
    bitwise m (Operand.slots [.register x, .register y]) op =
      some { m with v := m.v.bitwise m.dialect x y op } := by
  rw [bitwise, valueAt_eq m (slots_first ..), some_bind, valueAt_eq m (slots_second ..), some_bind,
    setAt_eq m (slots_first ..), some_bind, Registers.bitwise]
  simp only [setRegister, setFlag_eq]
  split <;> rfl

theorem shift_eq (value : UInt8 → UInt8) {out : UInt8 → UInt8} {bit : UInt8 → Bool}
    (same : ∀ b, out b = (bit b).toUInt8) :
    shift m (Operand.slots [.register x, .register y]) value out =
      some { m with
        v := m.v.withFlag x (value (m.v.shifted m.dialect x y))
          (bit (m.v.shifted m.dialect x y)) } := by
  have source : valueAt m (Operand.slots [.register x, .register y])
      (if m.dialect.shift then 0 else 1) = some (m.v.shifted m.dialect x y) := by
    unfold Registers.shifted
    split
    · exact valueAt_eq m (slots_first ..)
    · exact valueAt_eq m (slots_second ..)
  rw [shift, source, some_bind, setAt_eq m (slots_first ..), some_bind, setFlag_eq, same]
  rfl

end

theorem length_upTo (v : Registers) (x : Register) : (v.upTo x).length = x.val + 1 := by
  rw [Registers.upTo, List.length_take, Vector.length_toList, Nat.min_eq_left x.isLt]

theorem slice_upTo (v : Registers) (x : Register) :
    slice v 0 (x.val + 1) = some (v.upTo x) :=
  slice_eq v (Nat.zero_le (x.val + 1)) x.isLt

theorem lowBit (b : UInt8) : b &&& 1 = (b.toNat.testBit 0).toUInt8 := by
  rw [← UInt8.toNat_inj, UInt8.toNat_and, Nat.testBit_zero]
  have parity : b.toNat &&& 1 = b.toNat % 2 := Nat.and_one_is_mod b.toNat
  change b.toNat &&& 1 = _
  rcases Nat.mod_two_eq_zero_or_one b.toNat with h | h <;> rw [parity, h] <;> rfl

theorem highBit (b : UInt8) : b >>> 7 = (b.toNat.testBit 7).toUInt8 := by
  have small := b.toNat_lt
  rw [← UInt8.toNat_inj, UInt8.toNat_shiftRight, Nat.testBit_eq_decide_div_mod_eq,
    Nat.shiftRight_eq_div_pow]
  change b.toNat / 2 ^ 7 = _
  have : b.toNat / 2 ^ 7 = 0 ∨ b.toNat / 2 ^ 7 = 1 := by omega
  rcases this with h | h <;> rw [h] <;> rfl

end XoChip.Checked
