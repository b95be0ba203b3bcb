import XoChip.Proofs.Checked.Display
import XoChip.Proofs.Checked.Operands

/-!
Sprites drawn in loops, plane by plane, row by row and pixel by pixel, each loop left where the
rest would be clipped. Main statement: drawing never leaves the cells, and the loops plot the pixels
of the sprite in their order (`draw_eq`).
-/

namespace XoChip

theorem Plane.set_eq (p : Plane) (x : Fin 128) (y : Fin 64) (on : Bool) :
    p.set x y on =
      Vector.set p y.val (Vector.set (getElem p y.val y.isLt) x.val on x.isLt) y.isLt := by
  ext1 k hk
  rw [Vector.getElem_set]
  simp only [Plane.set, Vector.getElem_mk, Array.getElem_modify, Vector.getElem_toArray]
  split
  · subst k
    rfl
  · rfl

theorem Display.plot_eq (d : Display) (p : Fin 2) (x y : Nat) :
    d.plot p x y =
      { d with
        planes := d.planes.set p.val ((getElem d.planes p p.isLt).paint d.hires (d.corner x y).1
          (d.corner x y).2 (!d.lit p x y)) p.isLt } := by
  simp only [Display.plot]
  refine congrArg (fun planes => { d with planes := planes }) (Vector.ext fun k hk => ?_)
  rw [Vector.getElem_set]
  simp only [Vector.getElem_mk, Array.getElem_modify, Vector.getElem_toArray]
  split
  · subst k
    rfl
  · rfl

namespace Checked

/-- Inverts a pixel as it is stored, a block of them in low resolution. -/
def setPixel (d : Display) (plane x y : Nat) : Option (Bool × Display) := do
  let x ← remainder x 128
  let y ← remainder y 64
  let line ← mul 64 y 128
  let corner ← add 64 line x
  let beside ← add 64 x 1
  let right := if beside < 128 then beside else x
  let under ← add 64 y 1
  let below := if under < 64 then under else y
  let cells ← (d.planes[plane]?).map Plane.cells
  let erased := (← cells[corner]?) != 0
  let cells ← put cells corner (if erased then 0 else 1)
  let cells ← if d.hires then some cells else do
    let value ← cells[corner]?
    let cells ← put cells (← add 64 line right) value
    let next ← mul 64 below 128
    let cells ← put cells (← add 64 next x) value
    put cells (← add 64 next right) value
  let planes ← put d.planes plane (Plane.ofCells cells)
  some (erased, { d with planes := planes })

/-- Inverts a pixel; in low resolution its place is doubled. -/
def plot (d : Display) (plane x y : Nat) : Option (Bool × Display) := do
  if d.hires then setPixel d plane x y
  else
    let column ← mul 64 x 2
    let row ← mul 64 y 2
    setPixel d plane column row

theorem put_set (p : Plane) (x : Fin 128) (y : Fin 64) (on : Bool) :
    put p.cells (y.val * 128 + x.val) on.toUInt8 = some (p.set x y on).cells := by
  rw [put_cells p x.isLt y.isLt, Plane.set_eq]

theorem getElem?_lit (p : Plane) (x : Fin 128) (y : Fin 64) :
    p.cells[y.val * 128 + x.val]? = some (p.lit x y).toUInt8 :=
  getElem?_cells p x.isLt y.isLt

theorem setPixel_eq (d : Display) (p : Fin 2) {x y : Nat} (c : Fin 128) (r : Fin 64)
    (column : x % 128 = c.val) (row : y % 64 = r.val)
    (block : d.hires = false → c.val + 1 < 128 ∧ r.val + 1 < 64) :
    setPixel d p x y =
      some (d.planes[p].lit c r,
        { d with
          planes := d.planes.set p
            (d.planes[p].paint d.hires c r (!d.planes[p].lit c r)) }) := by
  have corner := getElem?_lit d.planes[p] c r
  have erased : ((d.planes[p].lit c r).toUInt8 != 0) = d.planes[p].lit c r :=
    Plane.toUInt8_ne_zero _
  have flipped (on : Bool) : (if on then 0 else 1 : UInt8) = (!on).toUInt8 := by
    cases on <;> rfl
  have stored (q : Plane) :
      put d.planes p.val (Plane.ofCells q.cells) = some (d.planes.set p q) := by
    rw [Plane.ofCells_cells, put_fin]
  simp (disch := omega) only [setPixel, remainder_eq, column, row, mul_eq, add_eq,
    some_bind, getElem?_fin, Option.map_some, corner, erased, flipped, put_set]
  cases hires : d.hires with
  | true => simp only [↓reduceIte, stored, some_bind, Plane.paint]
  | false =>
    obtain ⟨hc, hr⟩ := block hires
    have right : c.val + 1 = (c + 1).val := ((Fin.val_add c 1).trans (Nat.mod_eq_of_lt hc)).symm
    have below : r.val + 1 = (r + 1).val := ((Fin.val_add r 1).trans (Nat.mod_eq_of_lt hr)).symm
    have value (on : Bool) :
        (d.planes[p].set c r on).cells[r.val * 128 + c.val]? = some on.toUInt8 := by
      rw [getElem?_lit, Plane.lit_set, if_pos ⟨rfl, rfl⟩]
    simp (disch := omega) only [Bool.false_eq_true, ↓reduceIte, value, some_bind, if_pos, right,
      below, mul_eq, add_eq, put_set, stored]
    rfl

theorem plot_eq (d : Display) (p : Fin 2) {x y : Nat} (hx : x < 2 ^ 32) (hy : y < 2 ^ 32) :
    plot d p x y = some (d.lit p x y, d.plot p x y) := by
  rw [Display.plot_eq]
  unfold plot Display.lit Display.corner
  cases hires : d.hires with
  | true =>
    simp only [↓reduceIte]
    rw [setPixel_eq d p (Fin.ofNat 128 x) (Fin.ofNat 64 y) rfl rfl (by simp [hires]), hires]
  | false =>
    simp (disch := omega) only [Bool.false_eq_true, ↓reduceIte, mul_eq, some_bind,
      Nat.mul_comm _ 2]
    rw [setPixel_eq d p (Fin.ofNat 128 (2 * x)) (Fin.ofNat 64 (2 * y)) rfl rfl, hires]
    simp only [Fin.val_ofNat]
    omega

/-! ## Rows of a sprite -/

/-- One row of a sprite as a number, the leftmost pixel highest. -/
def spriteRow (m : Memory) (i : Word) (row : Nat) (big narrow : Bool) : Option Word :=
  if big then do
    let offset ← if narrow then some row else mul 16 row 2
    readWord m (i + UInt16.ofNat offset)
  else (read m (i + UInt16.ofNat row)).map UInt8.toUInt16

/-- Draws one row from some columns on, up to one that is clipped. -/
def drawColumns (clip : Bool) (width bits : Nat) (row : Word) (plane x y : Nat) :
    List Nat → Bool × Display → Option (Bool × Display)
  | [], s => some s
  | c :: cs, s => do
    let last ← sub bits 1
    let places ← sub last c
    let shifted ← shiftRight 16 row.toNat places
    if shifted % 2 = 0 then drawColumns clip width bits row plane x y cs s
    else
      let column ← add 64 x c
      if clip && width ≤ column then some s
      else
        let (erased, d) ← plot s.2 plane column y
        drawColumns clip width bits row plane x y cs (s.1 || erased, d)

/-- Draws a sprite on one plane from some rows on, up to one that is clipped. -/
def drawRows (m : Memory) (i : Word) (big narrow clip : Bool)
    (width height columns bits plane x y : Nat) :
    List Nat → Bool × Display → Option (Bool × Display)
  | [], s => some s
  | r :: rs, s => do
    let row ← spriteRow m i r big narrow
    let line ← add 64 y r
    if clip && height ≤ line then some s
    else
      let s ← drawColumns clip width bits row plane x line (List.range columns) s
      drawRows m i big narrow clip width height columns bits plane x y rs s

/-- Draws a sprite on the selected ones of some planes; each has its own data. -/
def drawPlanes (m : Memory) (n : Fin 16) (narrow clip : Bool) (width height x y : Nat) :
    List Nat → Word → Bool × Display → Option (Bool × Display)
  | [], _, s => some s
  | plane :: planes, i, s => do
    let bit ← shiftRight 8 s.2.mask.val plane
    if bit % 2 = 0 then drawPlanes m n narrow clip width height x y planes i s
    else
      let s ← drawRows m i (n = 0) narrow clip width height (if n = 0 && !narrow then 16 else 8)
        (if n = 0 then 16 else 8) plane x y (List.range (if n = 0 then 16 else n.val)) s
      drawPlanes m n narrow clip width height x y planes
        (i + UInt16.ofNat (if n = 0 then 32 else n.val)) s

def draw (d : Display) (m : Memory) (i : Word) (x y : UInt8) (n : Fin 16) (narrow clip : Bool) :
    Option (Bool × Display) := do
  let column ← remainder x.toNat d.width
  let line ← remainder y.toNat d.height
  drawPlanes m n narrow clip d.width d.height column line (List.range 2) i (false, d)

/-! ## The loops and the pixels -/

/-- The display with pixels plotted, and whether any was lit now or before. -/
def plotInto (s : Bool × Display) (pixels : List (Fin 2 × Nat × Nat)) : Bool × Display :=
  (s.1 || (s.2.plotAll pixels).1, (s.2.plotAll pixels).2)

theorem plotInto_nil (s : Bool × Display) : plotInto s [] = s := by
  simp only [plotInto, Display.plotAll, Bool.or_false]

theorem plotInto_cons (s : Bool × Display) (p : Fin 2) (x y : Nat)
    (pixels : List (Fin 2 × Nat × Nat)) :
    plotInto s ((p, x, y) :: pixels) =
      plotInto (s.1 || s.2.lit p x y, s.2.plot p x y) pixels := by
  simp only [plotInto, Display.plotAll, Bool.or_assoc]

theorem plotInto_append (s : Bool × Display) (pixels more : List (Fin 2 × Nat × Nat)) :
    plotInto s (pixels ++ more) = plotInto (plotInto s pixels) more := by
  induction pixels generalizing s with
  | nil => rw [List.nil_append, plotInto_nil]
  | cons pixel pixels ih => rw [List.cons_append, plotInto_cons, plotInto_cons, ih]

theorem mask_plotInto (s : Bool × Display) (pixels : List (Fin 2 × Nat × Nat)) :
    (plotInto s pixels).2.mask = s.2.mask := by
  induction pixels generalizing s with
  | nil => rw [plotInto_nil]
  | cons pixel pixels ih =>
    rw [plotInto_cons, ih]
    rfl

/-- Whether a pixel is drawn: all are, unless those past the edges are clipped. -/
def inside (clip : Bool) (width height : Nat) (pixel : Fin 2 × Nat × Nat) : Bool :=
  !clip || (pixel.2.1 < width && pixel.2.2 < height)

/-- The pixels of one row that are lit in some columns. -/
def rowPixels (bits : Nat) (row : Word) (p : Fin 2) (x y : Nat) (cs : List Nat) :
    List (Fin 2 × Nat × Nat) :=
  (cs.filter fun c => row.toNat.testBit (bits - 1 - c)).map fun c => (p, x + c, y)

theorem shifted_odd (a k : Nat) : (a >>> k) % 2 = 0 ↔ a.testBit k = false := by
  rw [Nat.testBit_eq_decide_div_mod_eq, Nat.shiftRight_eq_div_pow, decide_eq_false_iff_not]
  omega

theorem drawColumns_eq {clip : Bool} {width height bits : Nat} (row : Word) (p : Fin 2) {x y : Nat}
    (wide : bits ≤ 16) (hx : x < 2 ^ 16) (hy : y < 2 ^ 16) (line : clip = true → y < height)
    {cs : List Nat} (sorted : cs.Pairwise (· < ·)) (bound : ∀ c ∈ cs, c < bits)
    (s : Bool × Display) :
    drawColumns clip width bits row p x y cs s =
      some (plotInto s ((rowPixels bits row p x y cs).filter (inside clip width height))) := by
  induction cs generalizing s with
  | nil => rw [rowPixels, List.filter_nil, List.map_nil, List.filter_nil, plotInto_nil]; rfl
  | cons c cs ih =>
    obtain ⟨later, sorted⟩ := List.pairwise_cons.mp sorted
    have hc := bound c List.mem_cons_self
    have ih := ih sorted fun c h => bound c (List.mem_cons_of_mem _ h)
    simp (disch := omega) only [drawColumns, sub_eq, shiftRight_eq, add_eq, some_bind, shifted_odd]
    cases on : row.toNat.testBit (bits - 1 - c) with
    | false =>
      rw [if_pos rfl, ih]
      simp only [rowPixels, List.filter_cons, on, Bool.false_eq_true, ↓reduceIte]
    | true =>
      have split : rowPixels bits row p x y (c :: cs) =
          (p, x + c, y) :: rowPixels bits row p x y cs := by
        simp only [rowPixels, List.filter_cons, on, ↓reduceIte, List.map_cons]
      rw [if_neg (by decide)]
      cases out : clip && decide (width ≤ x + c) with
      | true =>
        -- The columns that are left lie further out.
        have clipped :
            (rowPixels bits row p x y (c :: cs)).filter (inside clip width height) = [] := by
          refine List.filter_eq_nil_iff.mpr fun pixel h => ?_
          obtain ⟨c', lit, rfl⟩ := List.mem_map.mp h
          have further : c ≤ c' := by
            rcases List.mem_cons.mp (List.mem_filter.mp lit).1 with rfl | left
            · exact Nat.le_refl _
            · exact Nat.le_of_lt (later c' left)
          simp only [Bool.and_eq_true, decide_eq_true_eq] at out
          simp only [inside, out.1]
          grind
        rw [clipped, plotInto_nil]
        rfl
      | false =>
        have drawn : inside clip width height (p, x + c, y) = true := by
          simp only [inside]
          grind
        rw [split, List.filter_cons_of_pos drawn, plotInto_cons, plot_eq _ p (by omega) (by omega)]
        exact ih _

/-- One row of a sprite as a number. -/
def rowWord (m : Memory) (i : Word) (r : Nat) (big narrow : Bool) : Word :=
  if big then m.word (i + UInt16.ofNat (if narrow then r else r * 2))
  else (m.read (i + UInt16.ofNat r)).toUInt16

theorem spriteRow_eq (m : Memory) (i : Word) {r : Nat} (h : r < 16) (big narrow : Bool) :
    spriteRow m i r big narrow = some (rowWord m i r big narrow) := by
  have doubled : mul 16 r 2 = some (r * 2) := mul_eq (by omega)
  cases big <;> cases narrow <;>
    simp only [spriteRow, rowWord, read_eq, readWord_eq, doubled, some_bind, Option.map_some,
      Bool.false_eq_true, ↓reduceIte]

theorem drawRows_eq (m : Memory) (i : Word) (big narrow : Bool) {clip : Bool}
    {width height columns bits : Nat} (p : Fin 2) {x y : Nat} (wide : bits ≤ 16)
    (fits : columns ≤ bits) (hx : x < 2 ^ 8) (hy : y < 2 ^ 8)
    {rs : List Nat} (sorted : rs.Pairwise (· < ·)) (bound : ∀ r ∈ rs, r < 16)
    (s : Bool × Display) :
    drawRows m i big narrow clip width height columns bits p x y rs s =
      some (plotInto s ((rs.flatMap fun r =>
        rowPixels bits (rowWord m i r big narrow) p x (y + r) (List.range columns)).filter
          (inside clip width height))) := by
  induction rs generalizing s with
  | nil => rw [List.flatMap_nil, List.filter_nil, plotInto_nil]; rfl
  | cons r rs ih =>
    obtain ⟨later, sorted⟩ := List.pairwise_cons.mp sorted
    have hr := bound r List.mem_cons_self
    have ih := ih sorted fun r h => bound r (List.mem_cons_of_mem _ h)
    simp (disch := omega) only [drawRows, spriteRow_eq, add_eq, some_bind]
    cases out : clip && decide (height ≤ y + r) with
    | true =>
      -- The rows that are left lie further down.
      have clipped : ((r :: rs).flatMap fun r =>
          rowPixels bits (rowWord m i r big narrow) p x (y + r) (List.range columns)).filter
            (inside clip width height) = [] := by
        refine List.filter_eq_nil_iff.mpr fun pixel h => ?_
        obtain ⟨r', row, lit⟩ := List.mem_flatMap.mp h
        obtain ⟨c, -, rfl⟩ := List.mem_map.mp lit
        have further : r ≤ r' := by
          rcases List.mem_cons.mp row with rfl | left
          · exact Nat.le_refl _
          · exact Nat.le_of_lt (later r' left)
        simp only [Bool.and_eq_true, decide_eq_true_eq] at out
        simp only [inside, out.1]
        grind
      rw [clipped, plotInto_nil]
      rfl
    | false =>
      have line : clip = true → y + r < height := by
        rintro rfl
        simpa using out
      rw [drawColumns_eq _ p wide (by omega) (by omega) line List.pairwise_lt_range
        fun c h => by have := List.mem_range.mp h; omega]
      rw [if_neg (by decide), some_bind, ih, List.flatMap_cons, List.filter_append, plotInto_append]

end Checked

/-! ## The pixels of a sprite -/

theorem Word.testBit_ofBytes (high low : UInt8) (k : Nat) :
    (Word.ofBytes high low).toNat.testBit k =
      if k < 8 then low.toNat.testBit k else high.toNat.testBit (k - 8) := by
  rw [Word.toNat_ofBytes]
  exact Nat.testBit_two_pow_mul_add high.toNat low.toNat_lt k

theorem Memory.readBlock_one (m : Memory) (a : Word) : m.readBlock a 1 = [m.read a] := by
  simp [readBlock]

theorem Memory.readBlock_two (m : Memory) (a : Word) :
    m.readBlock a 2 = [m.read a, m.read (a + 1)] := by
  simp [readBlock, List.range_succ]

namespace Sprite

/-- The pixels of a row are the bits of a number, the highest one first. -/
theorem row_eq (n : Fin 16) (narrow : Bool) (m : Memory) (a : Word) (r : Nat) :
    (ofRows n narrow).row m a r =
      (List.range (if n = 0 && !narrow then 16 else 8)).map fun c =>
        (Checked.rowWord m a r (n = 0) narrow).toNat.testBit
          ((if n = 0 then 16 else 8) - 1 - c) := by
  have high (h l : UInt8) :
      bits h = (List.range 8).map fun c => (Word.ofBytes h l).toNat.testBit (16 - 1 - c) := by
    refine List.map_congr_left fun c bound => ?_
    have := List.mem_range.mp bound
    rw [Word.testBit_ofBytes, if_neg (by omega)]
    congr 1
    omega
  have low (h l : UInt8) :
      bits l = (List.range 8).map fun c => (Word.ofBytes h l).toNat.testBit (16 - 1 - (8 + c)) := by
    refine List.map_congr_left fun c bound => ?_
    rw [Word.testBit_ofBytes, if_pos (by omega)]
    congr 1
    omega
  by_cases big : n = 0
  · subst big
    cases narrow with
    | true =>
      have data : (ofRows 0 true).row m a r = bits (m.read (a + UInt16.ofNat r)) := by
        change (m.readBlock (a + UInt16.ofNat (1 * r)) 1).flatMap bits = _
        rw [Nat.one_mul, Memory.readBlock_one, List.flatMap_singleton]
      rw [data]
      exact high _ _
    | false =>
      let start := a + UInt16.ofNat (r * 2)
      have data : (ofRows 0 false).row m a r =
          bits (m.read start) ++ bits (m.read (start + 1)) := by
        change (m.readBlock (a + UInt16.ofNat (2 * r)) 2).flatMap bits = _
        rw [Nat.mul_comm, Memory.readBlock_two, List.flatMap_cons, List.flatMap_singleton]
      rw [data, high (m.read start) (m.read (start + 1)), low (m.read start) (m.read (start + 1))]
      rfl
  · have data : (ofRows n narrow).row m a r = bits (m.read (a + UInt16.ofNat r)) := by
      rw [ofRows, if_neg big]
      change (m.readBlock (a + UInt16.ofNat (1 * r)) 1).flatMap bits = _
      rw [Nat.one_mul, Memory.readBlock_one, List.flatMap_singleton]
    simp only [data, big, decide_false, Bool.false_and, Bool.false_eq_true, ↓reduceIte,
      Checked.rowWord, UInt8.toNat_toUInt16]
    rfl

/-- The pixels on one plane. -/
def onPlane (n : Fin 16) (narrow : Bool) (m : Memory) (a : Word) (p : Fin 2) (x y : Nat) :
    List (Fin 2 × Nat × Nat) :=
  (List.range (if n = 0 then 16 else n.val)).flatMap fun r =>
    Checked.rowPixels (if n = 0 then 16 else 8) (Checked.rowWord m a r (n = 0) narrow) p x (y + r)
      (List.range (if n = 0 && !narrow then 16 else 8))

/-- The bytes from the data of one plane to that of the next. -/
def strideOf (n : Fin 16) : Nat :=
  if n = 0 then 32 else n.val

theorem stride_ofRows (n : Fin 16) (narrow : Bool) : (ofRows n narrow).stride = strideOf n := by
  unfold ofRows strideOf
  split <;> rfl

theorem lit_map_range (f : Nat → Bool) (k r : Nat) :
    ((List.range k).map f).zipIdx.filterMap (fun (on, c) => if on then some (c, r) else none) =
      ((List.range k).filter f).map fun c => (c, r) := by
  have indexed : ((List.range k).map f).zipIdx = (List.range k).map fun c => (f c, c) := by
    apply List.ext_getElem
    · simp
    · intro c h h'
      simp
  rw [indexed, List.filterMap_map, ← List.filterMap_eq_map, List.filterMap_filter]
  rfl

theorem map_offsets (n : Fin 16) (narrow : Bool) (m : Memory) (a : Word) (p : Fin 2) (x y : Nat) :
    ((ofRows n narrow).offsets m a).map (fun (c, r) => (p, x + c, y + r)) =
      onPlane n narrow m a p x y := by
  have rows : (ofRows n narrow).rows = if n = 0 then 16 else n.val := by
    unfold ofRows
    split <;> rfl
  simp only [offsets, rows, row_eq, lit_map_range, List.map_flatMap, List.map_map, onPlane,
    Checked.rowPixels]
  rfl

/-- The data of the planes lie one behind the other. -/
theorem pixels_cons (n : Fin 16) (narrow : Bool) (m : Memory) (a : Word) (p : Fin 2)
    (ps : List (Fin 2)) (x y : Nat) :
    (ofRows n narrow).pixels m a (p :: ps) x y =
      onPlane n narrow m a p x y ++
        (ofRows n narrow).pixels m (a + UInt16.ofNat (strideOf n)) ps x y := by
  have next (k : Nat) : a + UInt16.ofNat (strideOf n * (k + 1)) =
      a + UInt16.ofNat (strideOf n) + UInt16.ofNat (strideOf n * k) := by
    rw [UInt16.add_assoc, ← UInt16.ofNat_add, Nat.mul_succ, Nat.add_comm]
  have first : a + UInt16.ofNat (strideOf n * 0) = a := UInt16.add_zero a
  simp only [pixels, List.zipIdx_cons, List.flatMap_cons, stride_ofRows, map_offsets, first,
    List.zipIdx_succ, List.flatMap_map, next]

end Sprite

namespace Checked

theorem drawPlanes_eq (m : Memory) (n : Fin 16) (narrow clip : Bool) {width height x y : Nat}
    (hx : x < 2 ^ 8) (hy : y < 2 ^ 8) (planes : List (Fin 2)) (i : Word) (s : Bool × Display) :
    drawPlanes m n narrow clip width height x y (planes.map Fin.val) i s =
      some (plotInto s (((Sprite.ofRows n narrow).pixels m i (planes.filter s.2.selects) x y).filter
        (inside clip width height))) := by
  induction planes generalizing i s with
  | nil =>
    rw [List.filter_nil, Sprite.pixels, List.zipIdx_nil, List.flatMap_nil, List.filter_nil,
      plotInto_nil]
    rfl
  | cons p planes ih =>
    simp (disch := omega) only [List.map_cons, drawPlanes, shiftRight_eq, some_bind, shifted_odd]
    have bit : s.2.mask.val.testBit p.val = s.2.selects p := rfl
    rw [bit]
    cases selected : s.2.selects p with
    | false => rw [if_pos rfl, ih, List.filter_cons_of_neg (by simp [selected])]
    | true =>
      rw [if_neg (by decide), drawRows_eq m i (n = 0) narrow p (by split <;> decide)
          (by split <;> split <;> grind) hx hy List.pairwise_lt_range (by grind), some_bind, ih,
        List.filter_cons_of_pos selected, Sprite.pixels_cons, List.filter_append, plotInto_append]
      have same : (plotInto s ((Sprite.onPlane n narrow m i p x y).filter
          (inside clip width height))).2.selects = s.2.selects := by
        unfold Display.selects
        rw [mask_plotInto]
      unfold Sprite.onPlane at same ⊢
      rw [same]
      rfl

theorem draw_eq (d : Display) (m : Memory) (i : Word) (x y : UInt8) (n : Fin 16)
    (narrow clip : Bool) :
    draw d m i x y n narrow clip =
      some (d.draw (.ofRows n narrow) m i x.toNat y.toNat clip) := by
  have hx := x.toNat_lt
  have hy := y.toNat_lt
  have width : d.width ≠ 0 := by unfold Display.width; split <;> decide
  have height : d.height ≠ 0 := by unfold Display.height; split <;> decide
  have column := Nat.mod_le x.toNat d.width
  have line := Nat.mod_le y.toNat d.height
  have planes : List.range 2 = ([0, 1] : List (Fin 2)).map Fin.val := rfl
  rw [draw, remainder_eq width, some_bind, remainder_eq height, some_bind, planes,
    drawPlanes_eq m n narrow clip (by omega) (by omega)]
  have drawn (pixels : List (Fin 2 × Nat × Nat)) :
      plotInto (false, d) pixels = d.plotAll pixels := by
    simp only [plotInto, Bool.false_or]
  rw [drawn]
  unfold Display.draw
  cases clip with
  | true => rfl
  | false =>
    have all (pixels : List (Fin 2 × Nat × Nat)) :
        pixels.filter (inside false d.width d.height) = pixels :=
      List.filter_eq_self.mpr fun _ _ => rfl
    rw [all]
    rfl

end Checked

end XoChip
