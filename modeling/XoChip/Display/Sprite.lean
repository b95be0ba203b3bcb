import XoChip.Display.Basic
import XoChip.Memory

/-!
Sprites: blocks of pixels in memory, one per selected plane, and where their lit pixels fall.
-/

namespace XoChip

/-- How the pixels of a sprite lie in memory. -/
structure Sprite where
  rows : Nat
  bytesPerRow : Nat
  /-- From the data of one plane to that of the next. -/
  stride : Nat
  deriving DecidableEq, Repr

namespace Sprite

/-- Zero rows ask for a big sprite, of sixteen rows, which may be told to be narrow. -/
def ofRows (n : Fin 16) (narrow : Bool) : Sprite :=
  if n = 0 then ⟨16, if narrow then 1 else 2, 32⟩ else ⟨n.val, 1, n.val⟩

/-- The bits of a byte, highest first. -/
def bits (b : UInt8) : List Bool :=
  (List.range 8).map fun c => b.toNat.testBit (7 - c)

/-- The pixels of one row, from left to right. -/
def row (s : Sprite) (m : Memory) (a : Word) (r : Nat) : List Bool :=
  (m.readBlock (a + UInt16.ofNat (s.bytesPerRow * r)) s.bytesPerRow).flatMap bits

/-- The lit pixels as offsets from the corner, row by row. -/
def offsets (s : Sprite) (m : Memory) (a : Word) : List (Nat × Nat) :=
  (List.range s.rows).flatMap fun r =>
    (s.row m a r).zipIdx.filterMap fun (on, c) => if on then some (c, r) else none

/-- The pixels to plot for each selected plane in turn, with the corner at (x, y). -/
def pixels (s : Sprite) (m : Memory) (a : Word) (planes : List (Fin 2)) (x y : Nat) :
    List (Fin 2 × Nat × Nat) :=
  planes.zipIdx.flatMap fun (p, k) =>
    (s.offsets m (a + UInt16.ofNat (s.stride * k))).map fun (c, r) => (p, x + c, y + r)

end Sprite

/-- Draws a sprite with its corner at (x, y), which wraps; pixels past an edge wrap too unless they
are clipped. Tells whether a lit pixel was put out. -/
def Display.draw (d : Display) (s : Sprite) (m : Memory) (a : Word) (x y : Nat) (clip : Bool) :
    Bool × Display :=
  let pixels := s.pixels m a d.selected (x % d.width) (y % d.height)
  let (width, height) := (d.width, d.height)
  d.plotAll (if clip then pixels.filter fun (_, x, y) => x < width && y < height else pixels)

end XoChip
