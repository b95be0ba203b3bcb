import XoChip.Font
import XoChip.Instruction.Decode
import XoChip.Rom

/-!
The 65536 bytes of memory with the call stack and the audio pattern beside them. The fonts lie below
address 512 and programs are placed there.
-/

namespace XoChip

structure Memory where
  ram : Vector UInt8 0x10000
  /-- Return addresses, the last one first. -/
  stack : List Word
  pattern : Vector UInt8 16
  romSize : Nat
  /-- Whether the plain beep stands in for the pattern. -/
  beep : Bool

namespace Memory

/-- The first address of a program; what lies below cannot be written. -/
def start : Word := 0x200

/-- The byte at an address once `rom` has been placed. -/
def placed (rom : Rom) (address : Nat) : UInt8 :=
  if h : address < 80 then Font.small[address]
  else if h : address < 240 then Font.large[address - 80]
  else if address < 0x200 then 0
  else rom.bytes.getD (address - 0x200) 0

/-- Memory with nothing in it but the fonts and `rom`. -/
def ofRom (rom : Rom) : Memory where
  ram := Vector.ofFn fun a => placed rom a.val
  stack := []
  pattern := Vector.replicate 16 0
  romSize := rom.size
  beep := true

def blank : Memory := ofRom .empty

instance : Inhabited Memory := ⟨blank⟩

def read (m : Memory) (a : Word) : UInt8 :=
  m.ram[a.toFin]

def word (m : Memory) (a : Word) : Word :=
  Word.ofBytes (m.read a) (m.read (a + 1))

/-- The bytes from `a` on. -/
def readBlock (m : Memory) (a : Word) (count : Nat) : List UInt8 :=
  (List.range count).map fun k => m.read (a + UInt16.ofNat k)

/-- Stores a byte wherever it is told to. -/
def put (m : Memory) (a : Word) (b : UInt8) : Memory :=
  { m with ram := m.ram.set a.toFin b }

theorem read_put (m : Memory) (a a' : Word) (b : UInt8) :
    (m.put a b).read a' = if a = a' then b else m.read a' := by
  simp only [read, put, Fin.getElem_fin, Vector.getElem_set, Fin.val_inj, UInt16.toFin_inj]

theorem read_ofRom (rom : Rom) (a : Word) : (ofRom rom).read a = placed rom a.toNat := by
  simp [read, ofRom]

/-- The instruction at `a`, if there is one. -/
def instruction? (m : Memory) (a : Word) : Option Instruction :=
  Instruction.decode? (m.word a) (m.word (a + 2))

/-- Positions in the pattern wrap at sixteen. -/
def setPattern (m : Memory) (position : UInt8) (b : UInt8) : Memory :=
  { m with pattern := m.pattern.set (Fin.ofNat 16 position.toNat) b }

/-- Where the small digit for the low nibble of `c` lies. -/
def smallDigit (c : UInt8) : Word :=
  UInt16.ofNat (Font.smallHeight * (c.toNat % 16))

/-- Where the large digit for `c` lies. -/
def largeDigit (c : UInt8) : Word :=
  UInt16.ofNat (80 + Font.largeHeight * c.toNat)

end Memory

end XoChip
