import XoChip.Proofs.Blocks

/-!
Scrolling, pixel by pixel. Rows or columns are moved in place, one after another, and what comes out
is every selected plane shifted as a whole, dark where nothing has moved in. Main statement:
`scroll_shifts`.
-/

namespace XoChip

namespace Plane

/-- The stored pixel in a column and a row; beside the plane there is none. -/
def stored (p : Plane) (x y : Nat) : Bool :=
  if h : x < 128 ∧ y < 64 then p[y][x] else false

section
variable (p : Plane) (count : Nat) {x y : Nat}

theorem stored_eq (hx : x < 128) (hy : y < 64) : p.stored x y = p[y][x] :=
  dif_pos ⟨hx, hy⟩

theorem stored_scrollDown (hx : x < 128) (hy : y < 64) :
    (p.scrollDown count).stored x y = if count ≤ y then p.stored x (y - count) else false := by
  have row : getElem (p.scrollDown count) y hy =
      if h : count ≤ y then p[y - count] else Row.blank :=
    getElem_slideUp count Row.blank p y hy
  rw [stored_eq _ hx hy, row]
  by_cases moved : count ≤ y
  · rw [dif_pos moved, if_pos moved, stored_eq p hx (by omega)]
  · rw [dif_neg moved, if_neg moved]
    simp only [Row.blank, Vector.getElem_replicate]

theorem stored_scrollUp (hx : x < 128) (hy : y < 64) :
    (p.scrollUp count).stored x y = if y + count < 64 then p.stored x (y + count) else false := by
  have row : getElem (p.scrollUp count) y hy =
      if h : y + count < 64 then p[y + count] else Row.blank :=
    getElem_slideDown count Row.blank p y hy
  rw [stored_eq _ hx hy, row]
  by_cases moved : y + count < 64
  · rw [dif_pos moved, if_pos moved, stored_eq p hx moved]
  · rw [dif_neg moved, if_neg moved]
    simp only [Row.blank, Vector.getElem_replicate]

theorem stored_scrollRight (hx : x < 128) (hy : y < 64) :
    (p.scrollRight count).stored x y = if count ≤ x then p.stored (x - count) y else false := by
  rw [stored_eq _ hx hy]
  simp only [scrollRight, Vector.getElem_map, getElem_slideUp]
  by_cases moved : count ≤ x
  · rw [dif_pos moved, if_pos moved, stored_eq p (by omega) hy]
  · rw [dif_neg moved, if_neg moved]

theorem stored_scrollLeft (hx : x < 128) (hy : y < 64) :
    (p.scrollLeft count).stored x y =
      if x + count < 128 then p.stored (x + count) y else false := by
  rw [stored_eq _ hx hy]
  simp only [scrollLeft, Vector.getElem_map, getElem_slideDown]
  by_cases moved : x + count < 128
  · rw [dif_pos moved, if_pos moved, stored_eq p moved hy]
  · rw [dif_neg moved, if_neg moved]

end

end Plane

namespace Display

/-- One display comes from another by moving the stored pixels of the selected planes: `moved` tells
what a plane holds in a column and a row afterwards. -/
structure Shifts (d d' : Display) (moved : Plane → Nat → Nat → Bool) : Prop where
  selected : ∀ p : Fin 2, d.selects p = true → ∀ x y, x < 128 → y < 64 →
    (d'.plane p).stored x y = moved (d.plane p) x y
  unselected : ∀ p : Fin 2, d.selects p = false → d'.plane p = d.plane p
  mask : d'.mask = d.mask
  hires : d'.hires = d.hires
  palette : d'.palette = d.palette

theorem shifts_onSelected {f : Plane → Plane} {moved : Plane → Nat → Nat → Bool}
    (moves : ∀ (p : Plane) {x y : Nat}, x < 128 → y < 64 → (f p).stored x y = moved p x y)
    (d : Display) : d.Shifts (d.onSelected f) moved := by
  constructor
  case selected =>
    intro p selected x y hx hy
    rw [plane_onSelected, if_pos selected]
    exact moves (d.plane p) hx hy
  case unselected =>
    intro p unselected
    rw [plane_onSelected, unselected]
    rfl
  all_goals rfl

/-- **Scrolling shifts.** Moving rows or columns in place, one after another, never leaves the cells
and yields the scrolled display. On every selected plane each stored pixel is the one that was as
many rows or columns back, and dark if that lies beside the plane, whatever the count. The planes
that are not selected stay, and so do the mask, the resolution and the palette. -/
theorem scroll_shifts (d : Display) (count : Nat) :
    (Checked.scrollDown count d = some (d.scrollDown count) ∧
      d.Shifts (d.scrollDown count) fun p x y =>
        if count ≤ y then p.stored x (y - count) else false) ∧
    (Checked.scrollUp count d = some (d.scrollUp count) ∧
      d.Shifts (d.scrollUp count) fun p x y =>
        if y + count < 64 then p.stored x (y + count) else false) ∧
    (Checked.scrollRight count d = some (d.scrollRight count) ∧
      d.Shifts (d.scrollRight count) fun p x y =>
        if count ≤ x then p.stored (x - count) y else false) ∧
    (Checked.scrollLeft count d = some (d.scrollLeft count) ∧
      d.Shifts (d.scrollLeft count) fun p x y =>
        if x + count < 128 then p.stored (x + count) y else false) := by
  refine ⟨⟨Checked.scrollDown_eq count d, ?_⟩, ⟨Checked.scrollUp_eq count d, ?_⟩,
    ⟨Checked.scrollRight_eq count d, ?_⟩, ⟨Checked.scrollLeft_eq count d, ?_⟩⟩
  · exact shifts_onSelected (fun p _ _ hx hy => p.stored_scrollDown count hx hy) d
  · exact shifts_onSelected (fun p _ _ hx hy => p.stored_scrollUp count hx hy) d
  · exact shifts_onSelected (fun p _ _ hx hy => p.stored_scrollRight count hx hy) d
  · exact shifts_onSelected (fun p _ _ hx hy => p.stored_scrollLeft count hx hy) d

end Display

end XoChip
