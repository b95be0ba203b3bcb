import Std.Data.TreeMap
import XoChip.Memory

/-!
The listing of every instruction reached so far, one line per address. A line keeps what memory held
when its address was first reached; its index may lag behind until the listing is renumbered.
-/

namespace XoChip

structure Line where
  address : Word
  /-- The position among the lines in order of address. -/
  index : Nat
  /-- The position among the lines in order of first visit. -/
  visit : Nat
  instruction? : Option Instruction
  bytes : List UInt8
  deriving DecidableEq, Repr

namespace Line

/-- What stands at `a` now. -/
def ofMemory (m : Memory) (a : Word) (index visit : Nat) : Line :=
  let found := m.instruction? a
  ⟨a, index, visit, found, m.readBlock a (Instruction.formOf found).size⟩

def text (l : Line) : String :=
  match l.instruction? with
  | some i => i.text
  | none => Form.invalid.labelText

/-- The bytes in hexadecimal, such as `7A 12`. -/
def hex (l : Line) : String :=
  " ".intercalate (l.bytes.map fun b => Hex.field 2 b.toNat)

/-- The line of the last visit, the one behind the others if several have it. -/
def latest? (ls : List Line) : Option Line :=
  ls.foldl (fun latest l => if latest.any (l.visit < ·.visit) then latest else some l) none

end Line

structure Disassembly where
  listing : Std.TreeMap Word Line
  /-- How many lines have been added. -/
  visits : Nat
  /-- Whether some index may lag behind. -/
  stale : Bool

namespace Disassembly

def empty : Disassembly := ⟨∅, 0, false⟩

instance : Inhabited Disassembly := ⟨empty⟩

/-- The lines in order of address. -/
def lines (d : Disassembly) : List Line :=
  d.listing.values

def get? (d : Disassembly) (a : Word) : Option Line :=
  d.listing[a]?

def size (d : Disassembly) : Nat :=
  d.listing.size

def newest? (d : Disassembly) : Option Line :=
  Line.latest? d.lines

/-- Adds a line for `a` unless it has one. -/
def visit (d : Disassembly) (m : Memory) (a : Word) : Disassembly :=
  if d.listing.contains a then d
  else
    { listing := d.listing.insert a (.ofMemory m a d.listing.size d.visits)
      visits := d.visits + 1
      stale := true }

theorem get?_visit (d : Disassembly) (m : Memory) (a b : Word) :
    (d.visit m a).get? b =
      if a = b ∧ (d.get? b).isNone then some (.ofMemory m a d.size d.visits) else d.get? b := by
  simp only [visit, get?, size]
  split <;> grind

/-- Gives every line its position in order of address. -/
def renumber (d : Disassembly) : Disassembly :=
  if d.stale then
    { d with
      listing := .ofList
        (d.listing.toList.zipIdx.map fun ((a, l), index) => (a, { l with index := index }))
      stale := false }
  else d

end Disassembly

end XoChip
