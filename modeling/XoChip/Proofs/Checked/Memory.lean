import XoChip.Bus
import XoChip.Proofs.Checked.Operands
import XoChip.Registers

/-!
Memory written through checked places. Main statements: the fonts and every program fit where they
are placed (`erase_eq`, `place_eq`), and blocks of registers go to memory and come back at addresses
that wrap (`storeEach_eq`, `fetchEach_eq`).
-/

namespace XoChip.Checked

def write (bus : Bus) (a : Word) (b : UInt8) : Option Bus :=
  if a < Memory.start then some (bus.notify (.rejectedWrite a b))
  else do
    let ram ← put bus.memory.ram a.toNat b
    some { bus with memory := { bus.memory with ram := ram } }

theorem write_eq (bus : Bus) (a : Word) (b : UInt8) : write bus a b = some (bus.write a b) := by
  unfold write Bus.write
  split
  · rfl
  · rw [show a.toNat = a.toFin.val from rfl, put_fin, some_bind]
    rfl

/-! ## Fonts and programs -/

/-- Zeros everywhere but the fonts. -/
def fonts : Option (Vector UInt8 0x10000) := do
  let ram ← blit (Vector.replicate 0x10000 0) 0 80 Font.small.toList
  let last ← add 64 80 160
  blit ram 80 last Font.large.toList

/-- Forgets everything and puts the fonts back. -/
def erase (bus : Bus) : Option Bus := do
  let ram ← fonts
  some { bus with memory := ⟨ram, [], Vector.replicate 16 0, 0, true⟩ }

/-- Forgets everything and copies a program to the start of programs. -/
def place (bus : Bus) (rom : Rom) : Option Bus := do
  let bus ← erase bus
  let last ← add 64 0x200 rom.size
  let ram ← blit bus.memory.ram 0x200 last rom.bytes.toList
  some ({ bus with memory := { bus.memory with ram := ram, romSize := rom.size } }.notify
    (.loaded rom.size))

theorem placed_small (rom : Rom) {a : Nat} (h : a < 80) : Memory.placed rom a = Font.small[a] :=
  dif_pos h

theorem placed_large (rom : Rom) {a : Nat} (h : 80 ≤ a) (h' : a < 240) :
    Memory.placed rom a = Font.large[a - 80] := by
  rw [Memory.placed, dif_neg (Nat.not_lt.mpr h), dif_pos h']

theorem placed_program (rom : Rom) {a : Nat} (h : 240 ≤ a) :
    Memory.placed rom a = if a < 0x200 then 0 else rom.bytes.getD (a - 0x200) 0 := by
  rw [Memory.placed, dif_neg (by omega), dif_neg (by omega)]

theorem placed_empty {a : Nat} (h : 240 ≤ a) : Memory.placed .empty a = 0 := by
  rw [placed_program _ h]
  split <;> rfl

theorem fonts_eq : fonts = some Memory.blank.ram := by
  have small := blit_eq (Vector.replicate 0x10000 0) (Nat.zero_le 80) (by decide)
    (show Font.small.toList.length = 80 - 0 from Vector.length_toList)
  rw [fonts, small, some_bind, add_eq (by decide), some_bind,
    blit_eq _ (by decide) (by decide) Vector.length_toList]
  refine congrArg some (Vector.ext fun k hk => ?_)
  simp only [Memory.blank, Memory.ofRom, Vector.getElem_ofFn, Fin.getElem_fin,
    Vector.getElem_toList, Vector.getElem_replicate]
  split
  case isTrue large => exact (placed_large _ large.1 (by omega)).symm
  case isFalse outside =>
    split
    case isTrue small => exact (placed_small _ small.2).symm
    case isFalse => exact (placed_empty (by omega)).symm

/-- Memory with its ram named, which is too large to be looked into. -/
theorem memory_eq {m : Memory} {size : Nat} (stack : m.stack = [])
    (pattern : m.pattern = Vector.replicate 16 0) (romSize : m.romSize = size)
    (beep : m.beep = true) : ⟨m.ram, [], Vector.replicate 16 0, size, true⟩ = m := by
  rw [← stack, ← pattern, ← romSize, ← beep]

theorem erase_eq (bus : Bus) : erase bus = some bus.erase := by
  have blank : (⟨Memory.blank.ram, [], Vector.replicate 16 0, 0, true⟩ : Memory) = .blank :=
    memory_eq rfl rfl rfl rfl
  rw [erase, fonts_eq, some_bind, blank, Bus.erase]

theorem copied_eq (rom : Rom) :
    blit Memory.blank.ram 0x200 (0x200 + rom.size) rom.bytes.toList =
      some (Memory.ofRom rom).ram := by
  have fits : rom.size ≤ 0xFE00 := rom.size_le
  have length : rom.bytes.toList.length = 0x200 + rom.size - 0x200 :=
    (Nat.add_sub_cancel_left 0x200 rom.size).symm
  rw [blit_eq _ (by omega) (by omega) length]
  refine congrArg some (Vector.ext fun k hk => ?_)
  simp only [Memory.blank, Memory.ofRom, Vector.getElem_ofFn, Fin.getElem_fin,
    Array.getElem_toList]
  split
  case isTrue inside =>
    rw [placed_program rom (by omega), if_neg (by omega), Array.getD_eq_getD_getElem?,
      Array.getElem?_eq_getElem (by unfold Rom.size at inside; omega)]
    rfl
  case isFalse outside =>
    by_cases small : k < 80
    · rw [placed_small _ small, placed_small _ small]
    · by_cases large : k < 240
      · rw [placed_large _ (by omega) large, placed_large _ (by omega) large]
      · rw [placed_empty (by omega), placed_program rom (by omega)]
        split
        · rfl
        · rw [Array.getD_eq_getD_getElem?,
            Array.getElem?_eq_none (by unfold Rom.size at outside; omega)]
          rfl

theorem place_eq (bus : Bus) (rom : Rom) : place bus rom = some (bus.place rom) := by
  have fits : rom.size ≤ 0xFE00 := rom.size_le
  have placed :
      (⟨(Memory.ofRom rom).ram, [], Vector.replicate 16 0, rom.size, true⟩ : Memory) =
        .ofRom rom :=
    memory_eq rfl rfl rfl rfl
  rw [place, erase, fonts_eq, some_bind, some_bind, add_eq (by omega), some_bind]
  simp only [copied_eq, some_bind]
  rw [placed, Bus.place]

/-! ## Blocks -/

/-- Writes a byte for each of some values at the addresses from the `k`-th behind `i` on. -/
def storeEach {α : Type} (value : α → Option UInt8) (i : Word) : Nat → List α → Bus → Option Bus
  | _, [], bus => some bus
  | k, x :: xs, bus => do
    let b ← value x
    let bus ← write bus (i + UInt16.ofNat k) b
    storeEach value i (k + 1) xs bus

/-- Reads a byte for each of some registers at the addresses from the `k`-th behind `i` on. -/
def fetchEach (m : Memory) (i : Word) : Nat → List Nat → Registers → Option Registers
  | _, [], v => some v
  | k, r :: rs, v => do
    let b ← read m (i + UInt16.ofNat k)
    let v ← put v r b
    fetchEach m i (k + 1) rs v

/-- The place of the small digit for the low half of a byte. -/
def smallDigit (c : UInt8) : Option Word :=
  (mul 16 (c.toNat % 16) Font.smallHeight).map UInt16.ofNat

/-- The place of the large digit for a byte. -/
def largeDigit (c : UInt8) : Option Word := do
  let offset ← mul 16 Font.largeHeight c.toNat
  (add 16 80 offset).map UInt16.ofNat

theorem add_ofNat_succ (i : Word) (k : Nat) :
    i + UInt16.ofNat (k + 1) = i + UInt16.ofNat k + 1 := by
  rw [UInt16.ofNat_add, ← UInt16.add_assoc]
  rfl

theorem add_one_add_ofNat (i : Word) (k : Nat) :
    i + UInt16.ofNat (k + 1) = i + 1 + UInt16.ofNat k := by
  rw [add_ofNat_succ, UInt16.add_assoc, UInt16.add_comm (UInt16.ofNat k), UInt16.add_assoc]

theorem readBlock_succ (m : Memory) (a : Word) (n : Nat) :
    m.readBlock a (n + 1) = m.read a :: m.readBlock (a + 1) n := by
  have first : a + UInt16.ofNat 0 = a := UInt16.add_zero a
  simp only [Memory.readBlock, List.range_succ_eq_map, List.map_cons, List.map_map, first]
  exact congrArg _ (List.map_congr_left fun k _ => congrArg m.read (add_one_add_ofNat a k))

theorem storeEach_eq {α β : Type} {value : α → Option UInt8} {f : β → α} {g : β → UInt8}
    (found : ∀ x, value (f x) = some (g x)) (i : Word) (k : Nat) (xs : List β) (bus : Bus) :
    storeEach value i k (xs.map f) bus =
      some (bus.writeBlock (i + UInt16.ofNat k) (xs.map g)) := by
  induction xs generalizing bus k with
  | nil => rfl
  | cons x xs ih =>
    rw [List.map_cons, storeEach, found, some_bind, write_eq, some_bind, ih, add_ofNat_succ]
    rfl

theorem fetchEach_eq (m : Memory) (i : Word) (k : Nat) (rs : List Register) (v : Registers) :
    fetchEach m i k (rs.map Fin.val) v =
      some (v.scatter rs (m.readBlock (i + UInt16.ofNat k) rs.length)) := by
  induction rs generalizing v k with
  | nil => rfl
  | cons r rs ih =>
    rw [List.map_cons, fetchEach, read_eq, some_bind, put_fin, some_bind, ih, add_ofNat_succ,
      List.length_cons, readBlock_succ]
    rfl

theorem smallDigit_eq (c : UInt8) : smallDigit c = some (Memory.smallDigit c) := by
  rw [smallDigit, Font.smallHeight, mul_eq (by omega), Option.map_some, Nat.mul_comm]
  rfl

theorem largeDigit_eq (c : UInt8) : largeDigit c = some (Memory.largeDigit c) := by
  have := c.toNat_lt
  rw [largeDigit, Font.largeHeight, mul_eq (by omega), some_bind, add_eq (by omega)]
  rfl

end XoChip.Checked
