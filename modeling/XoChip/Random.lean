/-!
Random bytes. It is left open which generator makes them: a machine sees nothing of a generator but
the bytes it yields, draw after draw.
-/

namespace XoChip

structure Random where
  /-- The byte of each draw. -/
  byte : Nat → UInt8
  /-- How many have been drawn. -/
  drawn : Nat := 0
  deriving Inhabited

def Random.next (r : Random) : UInt8 × Random :=
  (r.byte r.drawn, { r with drawn := r.drawn + 1 })

end XoChip
