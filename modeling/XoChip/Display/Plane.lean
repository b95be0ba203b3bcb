/-!
One plane of pixels, always stored at 128 by 64. Moving a plane slides its rows, or the pixels of
each row, and lets blank ones in behind them.
-/

namespace XoChip

/-- Moves every element `count` places up, letting `fill` in below. -/
def slideUp {α : Type} {n : Nat} (count : Nat) (fill : α) (xs : Vector α n) : Vector α n :=
  ((Vector.replicate count fill ++ xs).take n).cast (by omega)

/-- Moves every element `count` places down, letting `fill` in above. -/
def slideDown {α : Type} {n : Nat} (count : Nat) (fill : α) (xs : Vector α n) : Vector α n :=
  ((xs ++ Vector.replicate count fill).drop count).cast (by omega)

theorem getElem_slideUp {α : Type} {n : Nat} (count : Nat) (fill : α) (xs : Vector α n)
    (k : Nat) (h : k < n) :
    (slideUp count fill xs)[k] = if h' : count ≤ k then xs[k - count] else fill := by
  simp only [slideUp, Vector.getElem_cast, Vector.getElem_take, Vector.getElem_append,
    Vector.getElem_replicate]
  split <;> split <;> first | rfl | omega

theorem getElem_slideDown {α : Type} {n : Nat} (count : Nat) (fill : α) (xs : Vector α n)
    (k : Nat) (h : k < n) :
    (slideDown count fill xs)[k] = if h' : k + count < n then xs[k + count] else fill := by
  simp only [slideDown, Vector.getElem_cast, Vector.getElem_drop, Vector.getElem_append,
    Vector.getElem_replicate, Nat.add_comm]

-- Columns and rows wrap by these.
instance neZero_width : @NeZero Nat Zero.ofOfNat0 128 := ⟨Nat.succ_ne_zero 127⟩

instance neZero_height : @NeZero Nat Zero.ofOfNat0 64 := ⟨Nat.succ_ne_zero 63⟩

abbrev Row := Vector Bool 128

def Row.blank : Row := Vector.replicate 128 false

abbrev Plane := Vector Row 64

namespace Plane

def blank : Plane := Vector.replicate 64 Row.blank

def lit (p : Plane) (x : Fin 128) (y : Fin 64) : Bool :=
  p[y][x]

def set (p : Plane) (x : Fin 128) (y : Fin 64) (on : Bool) : Plane :=
  ⟨p.toArray.modify y fun row => row.set x on, by simp⟩

theorem lit_set (p : Plane) (x x' : Fin 128) (y y' : Fin 64) (on : Bool) :
    (p.set x y on).lit x' y' = if x = x' ∧ y = y' then on else p.lit x' y' := by
  simp only [lit, set, Fin.getElem_fin, Vector.getElem_mk, Array.getElem_modify]
  by_cases hy : y = y' <;> by_cases hx : x = x' <;> simp_all [Fin.val_inj]

/-- Sets the block of two by two pixels with its corner at (x, y). -/
def setBlock (p : Plane) (x : Fin 128) (y : Fin 64) (on : Bool) : Plane :=
  (((p.set x y on).set (x + 1) y on).set x (y + 1) on).set (x + 1) (y + 1) on

/-- Sets a pixel of a display in high resolution, a block of one in low resolution. -/
def paint (p : Plane) (hires : Bool) (x : Fin 128) (y : Fin 64) (on : Bool) : Plane :=
  if hires then p.set x y on else p.setBlock x y on

def scrollDown (p : Plane) (count : Nat) : Plane :=
  slideUp count Row.blank p

def scrollUp (p : Plane) (count : Nat) : Plane :=
  slideDown count Row.blank p

def scrollRight (p : Plane) (count : Nat) : Plane :=
  p.map (slideUp count false)

def scrollLeft (p : Plane) (count : Nat) : Plane :=
  p.map (slideDown count false)

end Plane

end XoChip
