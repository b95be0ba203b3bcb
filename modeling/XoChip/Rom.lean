/-!
Programs to be loaded, and where their bytes come from.
-/

namespace XoChip

/-- The most bytes a program may have: what is left of memory above the fonts. -/
def Rom.capacity : Nat := 0xFE00

/-- A program that fits in memory. -/
structure Rom where
  bytes : Array UInt8
  size_le : bytes.size ≤ Rom.capacity

/-- Why a program could not be loaded. -/
inductive LoadError
  | unreadable (reason : String)
  | tooLarge (size : Nat)
  deriving DecidableEq, Repr

def LoadError.message : LoadError → String
  | unreadable reason => s!"unable to read ROM: {reason}"
  | tooLarge size => s!"ROM is {size} bytes but at most {Rom.capacity} fit in memory"

/-- A stream of bytes, which may break off before its end. -/
structure Source where
  bytes : List UInt8
  failure : Option String := none

namespace Rom

def size (r : Rom) : Nat :=
  r.bytes.size

def empty : Rom := ⟨#[], Nat.zero_le _⟩

instance : Inhabited Rom := ⟨empty⟩

/-- A source is read to its end before its length is looked at. -/
def ofSource? (s : Source) : Except LoadError Rom :=
  match s.failure with
  | some reason => .error (.unreadable reason)
  | none =>
    if h : s.bytes.toArray.size ≤ capacity then .ok ⟨s.bytes.toArray, h⟩
    else .error (.tooLarge s.bytes.toArray.size)

end Rom

end XoChip
