import XoChip.Display.Plane

/-!
Two planes, the mask that selects among them, the resolution and the palette. In low resolution each
pixel is a block of two by two stored ones.
-/

namespace XoChip

structure Color where
  r : UInt8
  g : UInt8
  b : UInt8
  a : UInt8
  deriving DecidableEq, Repr

/-- Colors for neither plane, the first, the second and both. -/
abbrev Palette := Vector Color 4

def Palette.standard : Palette :=
  #v[⟨0x99, 0x66, 0x00, 0xFF⟩, ⟨0xFF, 0xCC, 0x00, 0xFF⟩, ⟨0xFF, 0x66, 0x00, 0xFF⟩,
    ⟨0x66, 0x22, 0x00, 0xFF⟩]

structure Display where
  planes : Vector Plane 2
  /-- Bit `p` selects plane `p`. -/
  mask : Fin 4
  hires : Bool
  palette : Palette

namespace Display

def blank : Display := ⟨#v[.blank, .blank], 1, false, .standard⟩

instance : Inhabited Display := ⟨blank⟩

/-- The state at power on, in the colors already chosen. -/
def reset (d : Display) : Display :=
  { blank with palette := d.palette }

def width (d : Display) : Nat :=
  if d.hires then 128 else 64

def height (d : Display) : Nat :=
  if d.hires then 64 else 32

def selects (d : Display) (p : Fin 2) : Bool :=
  d.mask.val.testBit p.val

/-- The selected planes, the first one first. -/
def selected (d : Display) : List (Fin 2) :=
  [0, 1].filter d.selects

/-- Only the low two bits of a mask select anything. -/
def setMask (d : Display) (mask : Nat) : Display :=
  { d with mask := Fin.ofNat 4 mask }

/-- Changes the resolution and nothing else. -/
def setHires (d : Display) (on : Bool) : Display :=
  { d with hires := on }

/-- Changes the resolution of a display wiped clean, whatever is selected. -/
def switchTo (d : Display) (hires : Bool) : Display :=
  { d with planes := Vector.replicate 2 .blank, hires := hires }

def setPalette (d : Display) (p : Palette) : Display :=
  { d with palette := p }

/-- There are four colors; any other index is ignored. -/
def setColor (d : Display) (index : Nat) (c : Color) : Display :=
  { d with palette := d.palette.setIfInBounds index c }

/-- Changes the selected planes. -/
def onSelected (d : Display) (f : Plane → Plane) : Display :=
  { d with
    planes := d.planes.mapFinIdx fun p plane h => if d.selects ⟨p, h⟩ then f plane else plane }

def clear (d : Display) : Display :=
  d.onSelected fun _ => .blank

def scrollDown (d : Display) (count : Nat) : Display :=
  d.onSelected (·.scrollDown count)

def scrollUp (d : Display) (count : Nat) : Display :=
  d.onSelected (·.scrollUp count)

def scrollRight (d : Display) (count : Nat) : Display :=
  d.onSelected (·.scrollRight count)

def scrollLeft (d : Display) (count : Nat) : Display :=
  d.onSelected (·.scrollLeft count)

/-- The stored pixel at the corner of pixel (x, y), which wraps at the stored size. -/
def corner (d : Display) (x y : Nat) : Fin 128 × Fin 64 :=
  if d.hires then (Fin.ofNat 128 x, Fin.ofNat 64 y)
  else (Fin.ofNat 128 (2 * x), Fin.ofNat 64 (2 * y))

def lit (d : Display) (p : Fin 2) (x y : Nat) : Bool :=
  d.planes[p].lit (d.corner x y).1 (d.corner x y).2

/-- Inverts pixel (x, y) of plane `p`; a block takes the new value of its corner. -/
def plot (d : Display) (p : Fin 2) (x y : Nat) : Display :=
  let (column, row) := d.corner x y
  let on := !d.planes[p].lit column row
  let hires := d.hires
  { d with
    planes := ⟨d.planes.toArray.modify p fun plane => plane.paint hires column row on, by simp⟩ }

/-- Plots one pixel after another and tells whether any was lit before. -/
def plotAll (d : Display) : List (Fin 2 × Nat × Nat) → Bool × Display
  | [] => (false, d)
  | (p, x, y) :: rest =>
    let erased := d.lit p x y
    let (later, d) := (d.plot p x y).plotAll rest
    (erased || later, d)

end Display

end XoChip
