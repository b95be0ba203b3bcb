import XoChip.Proofs.Checked.Sprite
import XoChip.Proofs.SpriteWait
import XoChip.Proofs.WriteSet

/-!
Low resolution, in which every pixel is stored as a block of two by two. No operation by itself sees
to it that the four stay alike; they do as long as no program scrolls by half a pixel. Main
statement: `lores_in_blocks`.
-/

namespace XoChip

/-! ## Pairs -/

section
variable {α : Type} {n : Nat}

/-- Neighbours are alike, two by two. -/
def Paired (xs : Vector α n) : Prop :=
  ∀ k (h : k < n), xs[k] = xs[2 * (k / 2)]

theorem paired_replicate (a : α) : Paired (Vector.replicate n a) := by
  intro k h
  simp only [Vector.getElem_replicate]

theorem Paired.slideUp {xs : Vector α n} (paired : Paired xs) {count : Nat}
    (even : count % 2 = 0) (fill : α) : Paired (slideUp count fill xs) := by
  intro k h
  rw [getElem_slideUp, getElem_slideUp]
  by_cases moved : count ≤ k
  · have source : 2 * ((k - count) / 2) = 2 * (k / 2) - count := by omega
    rw [dif_pos moved, dif_pos (by omega), paired (k - count) (by omega)]
    simp only [source]
  · rw [dif_neg moved, dif_neg (by omega)]

theorem Paired.slideDown {xs : Vector α n} (paired : Paired xs) {count : Nat}
    (even : count % 2 = 0) (whole : n % 2 = 0) (fill : α) : Paired (slideDown count fill xs) := by
  intro k h
  rw [getElem_slideDown, getElem_slideDown]
  by_cases moved : k + count < n
  · have source : 2 * ((k + count) / 2) = 2 * (k / 2) + count := by omega
    rw [dif_pos moved, dif_pos (by omega), paired (k + count) moved]
    simp only [source]
  · rw [dif_neg moved, dif_neg (by omega)]

end

/-! ## Blocks of a plane -/

namespace Plane

/-- The four stored pixels of every block of two by two are alike. -/
def InBlocks (p : Plane) : Prop :=
  ∀ x y (hx : x < 64) (hy : y < 32),
    p[2 * y][2 * x + 1] = p[2 * y][2 * x] ∧
    p[2 * y + 1][2 * x] = p[2 * y][2 * x] ∧
    p[2 * y + 1][2 * x + 1] = p[2 * y][2 * x]

/-- Every stored pixel is like the corner of the block it lies in. -/
theorem inBlocks_iff (p : Plane) :
    p.InBlocks ↔ ∀ x y (hx : x < 128) (hy : y < 64), p[y][x] = p[2 * (y / 2)][2 * (x / 2)] := by
  constructor
  · intro alike x y hx hy
    obtain ⟨right, below, across⟩ := alike (x / 2) (y / 2) (by omega) (by omega)
    have column : x = 2 * (x / 2) ∨ x = 2 * (x / 2) + 1 := by omega
    have row : y = 2 * (y / 2) ∨ y = 2 * (y / 2) + 1 := by omega
    rcases column with column | column <;> rcases row with row | row
    · simp only [← column, ← row]
    · simpa only [← column, ← row] using below
    · simpa only [← column, ← row] using right
    · simpa only [← column, ← row] using across
  · intro alike x y hx hy
    have column : (2 * x + 1) / 2 = x := by omega
    have row : (2 * y + 1) / 2 = y := by omega
    have right := alike (2 * x + 1) (2 * y) (by omega) (by omega)
    have below := alike (2 * x) (2 * y + 1) (by omega) (by omega)
    have across := alike (2 * x + 1) (2 * y + 1) (by omega) (by omega)
    simp only [column, row, Nat.mul_div_cancel_left _ Nat.zero_lt_two] at right below across
    exact ⟨right, below, across⟩

theorem inBlocks_iff_paired (p : Plane) :
    p.InBlocks ↔ Paired p ∧ ∀ y (hy : y < 64), Paired p[y] := by
  rw [inBlocks_iff]
  constructor
  · intro alike
    refine ⟨fun y hy => Vector.ext fun x hx => ?_, fun y hy x hx => ?_⟩
    · have row : 2 * (2 * (y / 2) / 2) = 2 * (y / 2) := by omega
      rw [alike x y hx hy, alike x (2 * (y / 2)) hx (by omega)]
      simp only [row]
    · have column : 2 * (2 * (x / 2) / 2) = 2 * (x / 2) := by omega
      rw [alike x y hx hy, alike (2 * (x / 2)) y (by omega) hy]
      simp only [column]
  · rintro ⟨rows, columns⟩ x y hx hy
    rw [columns y hy x hx, rows y hy]

theorem inBlocks_blank : blank.InBlocks := by
  refine (inBlocks_iff_paired _).mpr ⟨paired_replicate _, fun y hy => ?_⟩
  rw [blank, Vector.getElem_replicate]
  exact paired_replicate _

section
variable {p : Plane} {count : Nat}

theorem InBlocks.scrollDown (h : p.InBlocks) (even : count % 2 = 0) :
    (p.scrollDown count).InBlocks := by
  obtain ⟨rows, columns⟩ := (inBlocks_iff_paired p).mp h
  refine (inBlocks_iff_paired _).mpr ⟨rows.slideUp even _, fun y hy => ?_⟩
  rw [Plane.scrollDown, getElem_slideUp]
  split
  · exact columns _ _
  · exact paired_replicate _

theorem InBlocks.scrollUp (h : p.InBlocks) (even : count % 2 = 0) :
    (p.scrollUp count).InBlocks := by
  obtain ⟨rows, columns⟩ := (inBlocks_iff_paired p).mp h
  refine (inBlocks_iff_paired _).mpr ⟨rows.slideDown even (by decide) _, fun y hy => ?_⟩
  rw [Plane.scrollUp, getElem_slideDown]
  split
  · exact columns _ _
  · exact paired_replicate _

/-- What keeps pairs in every row keeps blocks. -/
theorem InBlocks.map (h : p.InBlocks) {f : Row → Row} (keeps : ∀ row, Paired row → Paired (f row)) :
    InBlocks (Vector.map f p) := by
  obtain ⟨rows, columns⟩ := (inBlocks_iff_paired p).mp h
  refine (inBlocks_iff_paired _).mpr ⟨fun y hy => ?_, fun y hy => ?_⟩
  · rw [Vector.getElem_map, Vector.getElem_map, rows y hy]
  · rw [Vector.getElem_map]
    exact keeps _ (columns y hy)

theorem InBlocks.scrollRight (h : p.InBlocks) (even : count % 2 = 0) :
    (p.scrollRight count).InBlocks :=
  h.map fun _ paired => paired.slideUp even false

theorem InBlocks.scrollLeft (h : p.InBlocks) (even : count % 2 = 0) :
    (p.scrollLeft count).InBlocks :=
  h.map fun _ paired => paired.slideDown even (by decide) false

end

/-- A block is set as a whole if its corner is where a block begins. -/
theorem lit_setBlock (p : Plane) {x x' : Fin 128} {y y' : Fin 64} (on : Bool)
    (column : x.val % 2 = 0) (row : y.val % 2 = 0) :
    (p.setBlock x y on).lit x' y' =
      if x.val = 2 * (x'.val / 2) ∧ y.val = 2 * (y'.val / 2) then on else p.lit x' y' := by
  have right : (x + 1).val = x.val + 1 := (Fin.val_add x 1).trans (Nat.mod_eq_of_lt (by omega))
  have below : (y + 1).val = y.val + 1 := (Fin.val_add y 1).trans (Nat.mod_eq_of_lt (by omega))
  simp only [setBlock, lit_set, Fin.ext_iff, right, below]
  grind

end Plane

/-! ## Pixels of a display -/

namespace Display

/-- One of the two planes. -/
def plane (d : Display) (p : Fin 2) : Plane :=
  d.planes.get p

theorem plane_eq (d : Display) (p : Fin 2) : d.plane p = getElem d.planes p.val p.isLt := rfl

theorem planes_ext {d d' : Display} (same : ∀ p, d.plane p = d'.plane p) :
    d.planes = d'.planes := by
  ext1 p hp
  exact same ⟨p, hp⟩

theorem lit_eq (d : Display) (p : Fin 2) (x y : Nat) :
    d.lit p x y = (d.plane p).lit (d.corner x y).1 (d.corner x y).2 := rfl

/-- The corner of the pixel that a stored pixel belongs to. -/
def cornerOf (d : Display) (column : Fin 128) (row : Fin 64) : Fin 128 × Fin 64 :=
  if d.hires then (column, row)
  else (⟨2 * (column.val / 2), by omega⟩, ⟨2 * (row.val / 2), by omega⟩)

/-- Every pixel is stored whole: in low resolution both planes are in blocks. -/
def Whole (d : Display) : Prop :=
  d.hires = false → ∀ p : Fin 2, (d.plane p).InBlocks

theorem whole_iff (d : Display) :
    d.Whole ↔ ∀ (p : Fin 2) (column : Fin 128) (row : Fin 64),
      (d.plane p).lit column row =
        (d.plane p).lit (d.cornerOf column row).1 (d.cornerOf column row).2 := by
  unfold Whole cornerOf
  cases d.hires with
  | true => simp only [Bool.true_eq_false, false_implies, ↓reduceIte, implies_true]
  | false =>
    simp only [forall_const, Bool.false_eq_true, ↓reduceIte]
    refine forall_congr' fun p => (Plane.inBlocks_iff _).trans ⟨fun alike column row => ?_, ?_⟩
    · exact alike column.val row.val column.isLt row.isLt
    · intro alike x y hx hy
      exact alike ⟨x, hx⟩ ⟨y, hy⟩

theorem cornerOf_cornerOf (d : Display) (column : Fin 128) (row : Fin 64) :
    d.cornerOf (d.cornerOf column row).1 (d.cornerOf column row).2 = d.cornerOf column row := by
  unfold cornerOf
  cases d.hires with
  | true => rfl
  | false =>
    simp only [Bool.false_eq_true, ↓reduceIte, Prod.mk.injEq, Fin.mk.injEq]
    omega

theorem lit_paint (d : Display) (p : Plane) (x y : Nat) (on : Bool) (column : Fin 128)
    (row : Fin 64) :
    (p.paint d.hires (d.corner x y).1 (d.corner x y).2 on).lit column row =
      if d.corner x y = d.cornerOf column row then on else p.lit column row := by
  unfold Plane.paint corner cornerOf
  cases d.hires with
  | true =>
    simp only [↓reduceIte, Plane.lit_set, Prod.mk.injEq]
  | false =>
    simp only [Bool.false_eq_true, ↓reduceIte, Prod.mk.injEq, Fin.ext_iff]
    rw [Plane.lit_setBlock _ _ (by simp) (by simp)]

theorem plane_plot (d : Display) (p q : Fin 2) (x y : Nat) :
    (d.plot p x y).plane q =
      if p = q then (d.plane p).paint d.hires (d.corner x y).1 (d.corner x y).2 (!d.lit p x y)
      else d.plane q := by
  rw [plot_eq, plane_eq]
  simp only [Vector.getElem_set, Fin.val_inj]
  rfl

/-- A pixel that is plotted takes the inverse of its corner; the others stay. -/
theorem lit_plot (d : Display) (p q : Fin 2) (x y : Nat) (column : Fin 128) (row : Fin 64) :
    ((d.plot p x y).plane q).lit column row =
      if p = q ∧ d.corner x y = d.cornerOf column row then !d.lit p x y
      else (d.plane q).lit column row := by
  rw [plane_plot]
  by_cases same : p = q
  · subst same
    rw [if_pos rfl, lit_paint]
    simp only [true_and]
  · rw [if_neg same, if_neg (fun h => same h.1)]

theorem plane_onSelected (d : Display) (f : Plane → Plane) (p : Fin 2) :
    (d.onSelected f).plane p = if d.selects p then f (d.plane p) else d.plane p := by
  rw [plane_eq]
  exact Vector.getElem_mapFinIdx p.isLt

section
variable {d : Display}

theorem Whole.congr {d' : Display} (h : d.Whole) (planes : d'.planes = d.planes)
    (hires : d'.hires = d.hires) : d'.Whole := by
  unfold Whole plane
  rw [planes, hires]
  exact h

theorem Whole.plot (h : d.Whole) (p : Fin 2) (x y : Nat) : (d.plot p x y).Whole := by
  have corners : (d.plot p x y).cornerOf = d.cornerOf := rfl
  refine (whole_iff _).mpr fun q column row => ?_
  rw [corners, lit_plot, lit_plot, cornerOf_cornerOf]
  split
  · rfl
  · exact (whole_iff d).mp h q column row

theorem Whole.plotAll (h : d.Whole) (pixels : List (Fin 2 × Nat × Nat)) :
    (d.plotAll pixels).2.Whole := by
  induction pixels generalizing d with
  | nil => exact h
  | cons pixel rest ih =>
    obtain ⟨p, x, y⟩ := pixel
    exact ih (h.plot p x y)

theorem Whole.onSelected (h : d.Whole) {f : Plane → Plane}
    (keeps : d.hires = false → ∀ p, p.InBlocks → (f p).InBlocks) : (d.onSelected f).Whole := by
  intro lores p
  rw [plane_onSelected]
  split
  · exact keeps lores _ (h lores p)
  · exact h lores p

theorem whole_of_blank (blank : ∀ p : Fin 2, d.plane p = .blank) : d.Whole := by
  intro _ p
  rw [blank p]
  exact Plane.inBlocks_blank

theorem whole_reset (d : Display) : d.reset.Whole := by
  apply whole_of_blank
  intro p
  match p with
  | 0 | 1 => rfl

theorem whole_switchTo (d : Display) (hires : Bool) : (d.switchTo hires).Whole := by
  apply whole_of_blank
  intro p
  exact Vector.getElem_replicate p.isLt

end

end Display

namespace Machine

/-! ## Steps and moves -/

/-- A scroll by rows that would tear the pixels of low resolution apart. -/
def tears (m : Machine) : Prop :=
  m.display.hires = false ∧
    ∃ n, (m.executed? = some (.scrollDown n) ∨ m.executed? = some (.scrollUp n)) ∧ n.val % 2 = 1

theorem display_step {m : Machine} {i : Instruction} (executed : m.executed? = some i) :
    m.step.display = (m.fetched.execute i).display ∧ m.fetched.display = m.display := by
  rw [step_of_executed? executed, fetched_eq]
  exact ⟨rfl, rfl⟩

theorem whole_step {m : Machine} (h : m.display.Whole) (even : ¬m.tears) :
    m.step.display.Whole := by
  have half {n : Fin 16} (lores : m.display.hires = false)
      (scroll : m.executed? = some (.scrollDown n) ∨ m.executed? = some (.scrollUp n)) :
      n.val % 2 = 0 := by
    rcases Nat.mod_two_eq_zero_or_one n.val with fits | odd
    · exact fits
    · exact absurd ⟨lores, n, scroll, odd⟩ even
  rcases m.step_same .cells with cells | ⟨i, executed, writer⟩
  -- What writes no pixel might still leave high resolution.
  · rcases m.step_same .resolution with resolution | ⟨i, executed, writer⟩
    · exact h.congr cells resolution
    · rw [(display_step executed).1]
      cases i with
      | lores | hires => exact Display.whole_switchTo _ _
      | _ => cases writer
  · obtain ⟨display, read⟩ := display_step executed
    rw [display]
    rw [← read] at h half
    cases i with
    | scrollDown n =>
      exact h.onSelected fun lores _ inBlocks => inBlocks.scrollDown (half lores (.inl executed))
    | scrollUp n =>
      exact h.onSelected fun lores _ inBlocks => inBlocks.scrollUp (half lores (.inr executed))
    | clear => exact h.onSelected fun _ _ _ => Plane.inBlocks_blank
    | scrollRight => exact h.onSelected fun _ _ inBlocks => inBlocks.scrollRight rfl
    | scrollLeft => exact h.onSelected fun _ _ inBlocks => inBlocks.scrollLeft rfl
    | lores | hires => exact Display.whole_switchTo _ _
    | sprite x y n =>
      simp only [execute, sprite]
      split
      · exact h
      · exact h.plotAll _
    | _ => cases writer

/-- What the host does to the display: it leaves the pixels as they are or wipes them all out. -/
theorem apply_display (m : Machine) {o : Operation} (quiet : o.runs = false) :
    (m.apply o).display.planes = m.display.planes ∧
        (m.apply o).display.hires = m.display.hires ∨
      ∀ p : Fin 2, (m.apply o).display.plane p = .blank := by
  have wiped (p : Fin 2) : m.display.reset.plane p = .blank := by
    match p with
    | 0 | 1 => rfl
  cases o with
  | step | tick | frame => cases quiet
  | load source =>
    rcases m.apply_load source with h | ⟨rom, h⟩ <;> rw [h]
    · exact .inl ⟨rfl, rfl⟩
    · exact .inr wiped
  | loadFile path =>
    rcases m.apply_loadFile path with h | ⟨rom, h⟩ <;> rw [h]
    · exact .inl ⟨rfl, rfl⟩
    · exact .inr wiped
  | reset | unload => exact .inr wiped
  | setHires on => exact .inr fun p => Vector.getElem_replicate p.isLt
  | findBreakpoint =>
    rw [apply, findBreakpoint_eq]
    exact .inl ⟨rfl, rfl⟩
  | _ => exact .inl ⟨rfl, rfl⟩

theorem whole_move {m : Machine} (h : m.display.Whole) {mv : Move}
    (even : mv = .step → ¬m.tears) : (m.move mv).display.Whole := by
  cases mv with
  | step => exact whole_step h (even rfl)
  | host o quiet =>
    rcases m.apply_display quiet with ⟨planes, hires⟩ | blank
    · exact h.congr planes hires
    · exact Display.whole_of_blank blank
  | stop | endFrame | files => exact h

theorem whole_along {m : Machine} {ms : List Move} (h : m.display.Whole)
    (even : AtSteps (fun s => ¬s.tears) m ms) : Along (fun s => s.display.Whole) m ms := by
  induction ms generalizing m with
  | nil => exact h
  | cons mv ms ih => exact ⟨h, ih (whole_move h even.1) even.2⟩

/-- **Pixels stay whole in low resolution.** From a machine just switched on, whatever a host does
and whatever programs run, as long as no program scrolls up or down by an odd count in low
resolution, the four stored pixels of every block are alike on both planes at every move made in
low resolution. -/
theorem lores_in_blocks (random : Random) (h : List Turn)
    (even : AtSteps (fun m => ¬m.tears) (fresh random) ((fresh random).history h)) :
    Along (fun m => m.display.hires = false → ∀ p : Fin 2, (m.display.plane p).InBlocks)
      (fresh random) ((fresh random).history h) := by
  have start : (fresh random).display.Whole := Display.whole_reset .blank
  exact whole_along start even

/-- Where a program is as it was loaded, what is carried out is what it says. -/
theorem executed?_ofRom {m : Machine} {rom : Rom} {a : Word} {i : Instruction}
    (awaited : m.waiting = false) (memory : m.memory = .ofRom rom) (pc : m.pc = a)
    (found : (Memory.ofRom rom).instruction? a = some i) : m.executed? = some i := by
  refine executed?_eq_some.mpr ⟨awaited, ?_⟩
  rw [next?, memory, pc]
  exact found

theorem loaded_ready (rom : Rom) :
    (loaded rom).waiting = false ∧ (loaded rom).memory = .ofRom rom ∧ (loaded rom).pc = 0x200 := by
  rw [loaded_eq]
  exact ⟨rfl, rfl, rfl⟩

theorem holdsSprites_loaded (rom : Rom) : (loaded rom).holdsSprites = false := by
  rw [loaded_eq]
  rfl

/-- `D005 00C2`. -/
def drawing : Rom := ⟨#[0xD0, 0x05, 0x00, 0xC2], by decide⟩

theorem executed?_drawing : (loaded drawing).executed? = some (.sprite 0 0 5) := by
  obtain ⟨awaited, memory, pc⟩ := loaded_ready drawing
  refine executed?_ofRom awaited memory pc ?_
  rw [Memory.instruction?_ofRom]
  decide

theorem executed?_drawn : (loaded drawing).step.executed? = some (.scrollDown 2) := by
  obtain ⟨awaited, next⟩ := executed?_eq_some.mp executed?_drawing
  obtain ⟨-, memory, pc⟩ := loaded_ready drawing
  have drawn := drawn_of_free awaited next (holdsSprites_loaded drawing)
  have behind : (loaded drawing).step.pc = 0x202 := by
    rw [drawn.pc, pc]
    rfl
  refine executed?_ofRom drawn.awaited (drawn.memory.trans memory) behind ?_
  rw [Memory.instruction?_ofRom]
  decide

/-- A sprite drawn and moved down by one pixel. -/
theorem lores_in_blocks_drawing :
    let h : List Turn :=
      [.operation (.load ⟨drawing.bytes.toList, none⟩), .operation .step, .operation .step]
    AtSteps (fun m => ¬m.tears) (fresh default) ((fresh default).history h) ∧
    Along (fun m => m.display.hires = false → ∀ p : Fin 2, (m.display.plane p).InBlocks)
      (fresh default) ((fresh default).history h) := by
  intro h
  have sprite : ¬(loaded drawing).tears := by
    rintro ⟨-, n, down | up, -⟩
    · cases executed?_drawing.symm.trans down
    · cases executed?_drawing.symm.trans up
  have scroll : ¬(loaded drawing).step.tears := by
    rintro ⟨-, n, down | up, odd⟩
    · cases executed?_drawn.symm.trans down
      cases odd
    · cases executed?_drawn.symm.trans up
  have even : AtSteps (fun m => ¬m.tears) (fresh default) ((fresh default).history h) :=
    ⟨nofun, fun _ => sprite, fun _ => scroll, trivial⟩
  exact ⟨even, lores_in_blocks default h even⟩

end Machine

end XoChip
