import XoChip.Display.Sprite
import XoChip.Proofs.Checked.Basic

/-!
The display as it is stored, each plane as one row of cells after another, and its operations as
loops over the cells. Main statements: plotting, clearing and scrolling never leave the cells and
do to them what they do to the planes.
-/

namespace XoChip

/-! ## Loops over the elements of a vector -/

section
variable {α : Type} {n : Nat}

/-- Copies one element over another. -/
def copyTo (xs : Vector α n) (source dest : Nat) : Vector α n :=
  if h : source < n then xs.setIfInBounds dest xs[source] else xs

theorem getElem_copyTo (xs : Vector α n) {source dest k : Nat} (h : source < n) (hk : k < n) :
    (copyTo xs source dest)[k] = if dest = k then xs[source] else xs[k] := by
  rw [copyTo, dif_pos h]
  exact Vector.getElem_setIfInBounds hk

/-- The last element is moved first, so that none is overwritten before it is moved. -/
theorem getElem_copyUp (xs : Vector α n) {count rounds k : Nat} (fits : rounds + count ≤ n)
    (hk : k < n) :
    ((List.range rounds).reverse.foldl (fun xs y => copyTo xs y (y + count)) xs)[k] =
      if h : count ≤ k ∧ k < rounds + count then xs[k - count] else xs[k] := by
  induction rounds generalizing xs with
  | zero =>
    rw [dif_neg (by omega)]
    rfl
  | succ rounds ih =>
    rw [List.range_succ, List.reverse_append, List.reverse_singleton, List.singleton_append,
      List.foldl_cons, ih _ (by omega)]
    simp only [getElem_copyTo xs (show rounds < n by omega)]
    by_cases last : rounds + count = k
    · subst last
      rw [dif_neg (by omega), if_pos rfl, dif_pos (by omega)]
      simp only [Nat.add_sub_cancel]
    · rw [if_neg last]
      split
      · rw [dif_pos (by omega), if_neg (by omega)]
      · rw [dif_neg (by omega)]

theorem getElem_copyDown (xs : Vector α n) {count rounds k : Nat} (fits : rounds + count ≤ n)
    (hk : k < n) :
    ((List.range rounds).foldl (fun xs y => copyTo xs (y + count) y) xs)[k] =
      if h : k < rounds then xs[k + count] else xs[k] := by
  induction rounds generalizing k with
  | zero => rfl
  | succ rounds ih =>
    have source := ih (k := rounds + count) (by omega) (by omega)
    have here := ih (k := k) (by omega) hk
    rw [List.range_succ, List.foldl_append, List.foldl_cons, List.foldl_nil,
      getElem_copyTo _ (by omega), source, here, dif_neg (by omega)]
    by_cases last : rounds = k
    · subst last
      rw [if_pos rfl, dif_pos (by omega)]
    · rw [if_neg last]
      split
      · rw [dif_pos (by omega)]
      · rw [dif_neg (by omega)]

theorem getElem_fillLast (xs : Vector α n) (fill : α) {rounds k : Nat} (hk : k < n) :
    ((List.range rounds).foldl (fun xs y => xs.setIfInBounds (n - y - 1) fill) xs)[k] =
      if n - rounds ≤ k then fill else xs[k] := by
  induction rounds with
  | zero => exact (if_neg (by omega)).symm
  | succ rounds ih =>
    rw [List.range_succ, List.foldl_append, List.foldl_cons, List.foldl_nil,
      Vector.getElem_setIfInBounds hk, ih]
    by_cases last : n - rounds - 1 = k
    · rw [if_pos last, if_pos (by omega)]
    · rw [if_neg last]
      split
      · rw [if_pos (by omega)]
      · rw [if_neg (by omega)]

theorem slideUp_eq_loops (count : Nat) (fill : α) (xs : Vector α n) :
    slideUp count fill xs =
      (List.range (min count n)).foldl (fun xs y => xs.setIfInBounds y fill)
        ((List.range (n - min count n)).reverse.foldl
          (fun xs y => copyTo xs y (y + min count n)) xs) := by
  ext1 k hk
  rw [getElem_slideUp, Checked.getElem_setEach (fun _ => fill), getElem_copyUp _ (by omega)]
  split
  case isTrue moved =>
    have count : min count n = count := by omega
    simp only [count]
    rw [if_neg (by omega), dif_pos (by omega)]
  case isFalse => rw [if_pos (by omega)]

theorem slideDown_eq_loops (count : Nat) (fill : α) (xs : Vector α n) :
    slideDown count fill xs =
      (List.range (min count n)).foldl (fun xs y => xs.setIfInBounds (n - y - 1) fill)
        ((List.range (n - min count n)).foldl
          (fun xs y => copyTo xs (y + min count n) y) xs) := by
  ext1 k hk
  rw [getElem_slideDown, getElem_fillLast, getElem_copyDown _ (by omega)]
  split
  case isTrue moved =>
    have count : min count n = count := by omega
    simp only [count]
    rw [if_neg (by omega), dif_pos (by omega)]
  case isFalse => rw [if_pos (by omega)]

end

/-! ## Planes as cells -/

namespace Plane

/-- The pixels of a plane row after row, one where a pixel is lit and zero where it is not. -/
def cells (p : Plane) : Vector UInt8 8192 :=
  Vector.ofFn fun k => (p.lit ⟨k.val % 128, by omega⟩ ⟨k.val / 128, by omega⟩).toUInt8

def ofCells (cells : Vector UInt8 8192) : Plane :=
  Vector.ofFn fun y => Vector.ofFn fun x => cells[y.val * 128 + x.val] != 0

theorem getElem_cells (p : Plane) {k : Nat} (h : k < 8192) :
    p.cells[k] = (p[k / 128][k % 128]).toUInt8 := by
  simp only [cells, Vector.getElem_ofFn, lit, Fin.getElem_fin]

theorem getElem_cells_at (p : Plane) {x y : Nat} (hx : x < 128) (hy : y < 64) :
    p.cells[y * 128 + x] = (p[y][x]).toUInt8 := by
  have row : (y * 128 + x) / 128 = y := by omega
  have column : (y * 128 + x) % 128 = x := by omega
  simp only [getElem_cells, row, column]

theorem toUInt8_ne_zero (b : Bool) : (b.toUInt8 != 0) = b := by
  cases b <;> rfl

theorem ofCells_cells (p : Plane) : ofCells p.cells = p := by
  ext y hy x hx
  simp only [ofCells, Vector.getElem_ofFn, getElem_cells_at p hx hy, toUInt8_ne_zero]

/-- Cells hold what the plane holds, so a plane is known by its cells. -/
theorem cells_eq {cells : Vector UInt8 8192} {p : Plane}
    (h : ∀ x y (hx : x < 128) (hy : y < 64), cells[y * 128 + x] = (p[y][x]).toUInt8) :
    cells = p.cells := by
  ext1 k hk
  have here := h (k % 128) (k / 128) (by omega) (by omega)
  have place : k / 128 * 128 + k % 128 = k := by omega
  simpa only [place, getElem_cells] using here

end Plane

namespace Checked

/-! ## Cells of one plane -/

def copyRow (source dest : Nat) (cells : Vector UInt8 8192) : Option (Vector UInt8 8192) := do
  let first ← mul 64 source 128
  let last ← add 64 first 128
  let row ← slice cells first last
  let place ← mul 64 dest 128
  let stop ← add 64 place 128
  blit cells place stop row

def clearRow (row : Nat) (cells : Vector UInt8 8192) : Option (Vector UInt8 8192) := do
  let first ← mul 64 row 128
  let last ← add 64 first 128
  blit cells first last (List.replicate 128 0)

def copyColumn (source dest : Nat) (cells : Vector UInt8 8192) : Option (Vector UInt8 8192) :=
  (List.range 64).foldlM (fun cells row => do
    let line ← mul 64 row 128
    let value ← cells[← add 64 line source]?
    put cells (← add 64 line dest) value) cells

def clearColumn (column : Nat) (cells : Vector UInt8 8192) : Option (Vector UInt8 8192) :=
  (List.range 64).foldlM (fun cells row => do
    let line ← mul 64 row 128
    put cells (← add 64 line column) 0) cells

theorem copyRow_eq (p : Plane) {source dest : Nat} (hs : source < 64) (hd : dest < 64) :
    copyRow source dest p.cells = some (Plane.cells (copyTo p source dest)) := by
  simp (disch := omega) only [copyRow, mul_eq, add_eq, some_bind, slice_eq]
  rw [blit_eq _ (by omega) (by omega) (by simp; omega)]
  refine congrArg some (Plane.cells_eq fun x y hx hy => ?_)
  rw [Vector.getElem_ofFn, getElem_copyTo _ hs]
  by_cases here : dest = y
  · subst here
    rw [dif_pos (by simp only []; omega)]
    simp only [List.getElem_drop, List.getElem_take, Vector.getElem_toList, ↓reduceIte,
      Nat.add_sub_cancel_left, p.getElem_cells_at hx hs]
  · rw [dif_neg (by simp only []; omega), if_neg here]
    exact p.getElem_cells_at hx hy

theorem clearRow_eq (p : Plane) {row : Nat} (h : row < 64) :
    clearRow row p.cells = some (Plane.cells (p.setIfInBounds row Row.blank)) := by
  simp (disch := omega) only [clearRow, mul_eq, add_eq, some_bind]
  rw [blit_eq _ (by omega) (by omega) (by simp)]
  refine congrArg some (Plane.cells_eq fun x y hx hy => ?_)
  rw [Vector.getElem_ofFn, Vector.getElem_setIfInBounds hy]
  by_cases here : row = y
  · subst here
    rw [dif_pos (by simp only []; omega), if_pos rfl]
    simp only [List.getElem_replicate, Row.blank, Vector.getElem_replicate]
    rfl
  · rw [dif_neg (by simp only []; omega), if_neg here]
    exact p.getElem_cells_at hx hy

theorem getElem?_cells (p : Plane) {x y : Nat} (hx : x < 128) (hy : y < 64) :
    p.cells[y * 128 + x]? = some (p[y][x]).toUInt8 := by
  rw [Vector.getElem?_eq_getElem (by omega), p.getElem_cells_at hx hy]

theorem put_cells (p : Plane) {x y : Nat} (hx : x < 128) (hy : y < 64) (on : Bool) :
    put p.cells (y * 128 + x) on.toUInt8 =
      some (Plane.cells (Vector.set p y (Vector.set p[y] x on))) := by
  rw [put_eq _ _ (by omega)]
  refine congrArg some (Plane.cells_eq fun x' y' hx' hy' => ?_)
  rw [Vector.getElem_set, Vector.getElem_set]
  by_cases row : y = y'
  · subst row
    rw [if_pos rfl, Vector.getElem_set]
    by_cases column : x = x'
    · subst column
      simp only [↓reduceIte]
    · rw [if_neg (by omega), if_neg column]
      exact p.getElem_cells_at hx' hy
  · rw [if_neg (by omega), if_neg row]
    exact p.getElem_cells_at hx' hy'

/-- Changes one row. -/
def onRow (f : Row → Row) (p : Plane) (row : Nat) : Plane :=
  if h : row < 64 then Vector.set p row (f p[row]) else p

theorem getElem_onRow (f : Row → Row) (p : Plane) {row k : Nat} (hk : k < 64) :
    (onRow f p row)[k] = if row = k then f p[k] else p[k] := by
  unfold onRow
  split
  · rw [Vector.getElem_set]
    split
    · subst row
      rfl
    · rfl
  · rw [if_neg (by omega)]

theorem foldl_onRow (f : Row → Row) (p : Plane) :
    (List.range 64).foldl (onRow f) p = p.map f := by
  have rounds (n k : Nat) (hk : k < 64) :
      ((List.range n).foldl (onRow f) p)[k] = if k < n then f p[k] else p[k] := by
    induction n with
    | zero => rfl
    | succ n ih =>
      rw [List.range_succ, List.foldl_append, List.foldl_cons, List.foldl_nil,
        getElem_onRow f _ hk, ih]
      grind
  ext1 k hk
  rw [rounds, if_pos hk, Vector.getElem_map]

theorem copyColumn_eq (p : Plane) {source dest : Nat} (hs : source < 128) (hd : dest < 128) :
    copyColumn source dest p.cells = some (Plane.cells (p.map (copyTo · source dest))) := by
  rw [← foldl_onRow]
  refine foldlM_eq Plane.cells (fun p row h => ?_) p
  have row_lt := List.mem_range.mp h
  have moved : copyTo p[row] source dest = Vector.set p[row] dest p[row][source] := by
    ext1 k hk
    rw [getElem_copyTo _ hs, Vector.getElem_set]
  simp (disch := omega) only [mul_eq, add_eq, some_bind, getElem?_cells, put_cells,
    onRow, row_lt, ↓reduceDIte, moved]

theorem clearColumn_eq (p : Plane) {column : Nat} (h : column < 128) :
    clearColumn column p.cells = some (Plane.cells (p.map (·.setIfInBounds column false))) := by
  rw [← foldl_onRow]
  refine foldlM_eq Plane.cells (fun p row h => ?_) p
  have row_lt := List.mem_range.mp h
  have dark : put p.cells (row * 128 + column) 0 = _ := put_cells p ‹_› row_lt false
  have blank : p[row].setIfInBounds column false = Vector.set p[row] column false := by
    ext1 k hk
    rw [Vector.getElem_setIfInBounds hk, Vector.getElem_set]
  simp (disch := omega) only [mul_eq, add_eq, some_bind, dark, onRow, row_lt,
    ↓reduceDIte, blank]

end Checked

/-! ## Selected planes -/

namespace Display

theorem onSelected_id (d : Display) : d.onSelected (fun p => p) = d := by
  unfold onSelected
  congr 1
  ext1 k hk
  rw [Vector.getElem_mapFinIdx]
  split <;> rfl

theorem onSelected_onSelected (d : Display) (f g : Plane → Plane) :
    (d.onSelected f).onSelected g = d.onSelected fun p => g (f p) := by
  unfold onSelected
  congr 1
  ext1 k hk
  simp only [Vector.getElem_mapFinIdx]
  change (if d.selects ⟨k, hk⟩ then _ else _) = _
  cases d.selects ⟨k, hk⟩ <;> rfl

theorem foldl_onSelected {α : Type} (f : α → Plane → Plane) (xs : List α) (d : Display) :
    xs.foldl (fun d x => d.onSelected (f x)) d =
      d.onSelected fun p => xs.foldl (fun p x => f x p) p := by
  induction xs generalizing d with
  | nil => exact d.onSelected_id.symm
  | cons x xs ih => rw [List.foldl_cons, ih, onSelected_onSelected]; rfl

end Display

theorem foldl_map_rows {α : Type} (f : α → Row → Row) (xs : List α) (p : Plane) :
    xs.foldl (fun (p : Plane) x => p.map (f x)) p =
      p.map fun row => xs.foldl (fun row x => f x row) row := by
  induction xs generalizing p with
  | nil => exact (Vector.map_id p).symm
  | cons x xs ih => rw [List.foldl_cons, ih, Vector.map_map]; rfl

namespace Checked

/-- The indexes of the selected planes. -/
def active (d : Display) : List Nat :=
  (List.range 2).filter fun p => d.mask.val.testBit p

/-- Changes the cells of the selected planes in turn. -/
def onActive (f : Vector UInt8 8192 → Option (Vector UInt8 8192)) (d : Display) :
    Option Display :=
  (active d).foldlM (fun d p => do
    let plane ← d.planes[p]?
    let cells ← f plane.cells
    let planes ← put d.planes p (Plane.ofCells cells)
    some { d with planes := planes }) d

/-- Changes one plane. -/
def onPlane (g : Plane → Plane) (d : Display) (p : Nat) : Display :=
  if h : p < 2 then { d with planes := d.planes.set p (g d.planes[p]) } else d

theorem foldl_onPlane (g : Plane → Plane) (d : Display) :
    (active d).foldl (onPlane g) d = d.onSelected g := by
  obtain ⟨planes, mask, hires, palette⟩ := d
  unfold Display.onSelected
  cases first : mask.val.testBit 0 <;> cases second : mask.val.testBit 1
  all_goals
    simp only [active, List.range_succ, List.range_zero, List.nil_append, List.cons_append,
      List.filter, first, second, List.foldl, onPlane, Nat.zero_lt_two, Nat.one_lt_two,
      ↓reduceDIte]
    congr 1
    ext1 k hk
    match k, hk with
    | 0, _ | 1, _ => simp [Display.selects, first, second]

theorem onActive_eq {f : Vector UInt8 8192 → Option (Vector UInt8 8192)} {g : Plane → Plane}
    (same : ∀ p : Plane, f p.cells = some (g p).cells) (d : Display) :
    onActive f d = some (d.onSelected g) := by
  rw [← foldl_onPlane]
  refine foldlM_eq id (fun d p h => ?_) d
  have bound : p < 2 := List.mem_range.mp (List.mem_filter.mp h).1
  simp only [id, Vector.getElem?_eq_getElem bound, some_bind, same,
    Plane.ofCells_cells, put_eq _ _ bound, onPlane, bound, ↓reduceDIte]

/-- A loop whose rounds change the selected planes. -/
theorem foldlM_onSelected {f : Display → Nat → Option Display} {g : Nat → Plane → Plane}
    {xs : List Nat} (round : ∀ d : Display, ∀ x ∈ xs, f d x = some (d.onSelected (g x)))
    (d : Display) :
    xs.foldlM f d = some (d.onSelected fun p => xs.foldl (fun p x => g x p) p) := by
  rw [← Display.foldl_onSelected]
  exact foldlM_eq id round d

def clear (d : Display) : Option Display :=
  onActive (fun _ => some (Vector.replicate 8192 0)) d

/-- Moves rows or columns towards the last one, which is moved first, and clears the first. -/
def slideAway (size count : Nat)
    (copy : Nat → Nat → Vector UInt8 8192 → Option (Vector UInt8 8192))
    (clear : Nat → Vector UInt8 8192 → Option (Vector UInt8 8192)) (d : Display) :
    Option Display := do
  let count := min count size
  let rest ← sub size count
  let d ← (List.range rest).reverse.foldlM
    (fun d k => do onActive (copy k (← add 64 k count)) d) d
  (List.range count).foldlM (fun d k => onActive (clear k) d) d

/-- Moves rows or columns towards the first one, which is moved first, and clears the last. -/
def slideBack (size count : Nat)
    (copy : Nat → Nat → Vector UInt8 8192 → Option (Vector UInt8 8192))
    (clear : Nat → Vector UInt8 8192 → Option (Vector UInt8 8192)) (d : Display) :
    Option Display := do
  let count := min count size
  let rest ← sub size count
  let d ← (List.range rest).foldlM (fun d k => do onActive (copy (← add 64 k count) k) d) d
  (List.range count).foldlM (fun d k => do onActive (clear (← sub (← sub size k) 1)) d) d

section
variable {size : Nat} {copy : Nat → Nat → Vector UInt8 8192 → Option (Vector UInt8 8192)}
  {clear : Nat → Vector UInt8 8192 → Option (Vector UInt8 8192)}
  {copy' : Nat → Nat → Plane → Plane} {clear' : Nat → Plane → Plane}

theorem slideAway_eq (small : size < 2 ^ 32)
    (copied : ∀ s t, s < size → t < size → ∀ p : Plane,
      copy s t p.cells = some (copy' s t p).cells)
    (cleared : ∀ k, k < size → ∀ p : Plane, clear k p.cells = some (clear' k p).cells)
    (count : Nat) (d : Display) :
    slideAway size count copy clear d = some (d.onSelected fun p =>
      (List.range (min count size)).foldl (fun p k => clear' k p)
        ((List.range (size - min count size)).reverse.foldl
          (fun p k => copy' k (k + min count size) p) p)) := by
  simp only [slideAway, sub_eq (Nat.min_le_right count size), some_bind]
  rw [foldlM_onSelected (g := fun k p => copy' k (k + min count size) p) ?copies]
  case copies =>
    intro d k h
    have := List.mem_range.mp (List.mem_reverse.mp h)
    simp (disch := omega) only [add_eq, some_bind]
    exact onActive_eq (copied k _ (by omega) (by omega)) d
  simp only [some_bind]
  rw [foldlM_onSelected (g := clear') ?clears, Display.onSelected_onSelected]
  case clears =>
    intro d k h
    have := List.mem_range.mp h
    exact onActive_eq (cleared k (by omega)) d

theorem slideBack_eq (small : size < 2 ^ 32)
    (copied : ∀ s t, s < size → t < size → ∀ p : Plane,
      copy s t p.cells = some (copy' s t p).cells)
    (cleared : ∀ k, k < size → ∀ p : Plane, clear k p.cells = some (clear' k p).cells)
    (count : Nat) (d : Display) :
    slideBack size count copy clear d = some (d.onSelected fun p =>
      (List.range (min count size)).foldl (fun p k => clear' (size - k - 1) p)
        ((List.range (size - min count size)).foldl
          (fun p k => copy' (k + min count size) k p) p)) := by
  simp only [slideBack, sub_eq (Nat.min_le_right count size), some_bind]
  rw [foldlM_onSelected (g := fun k p => copy' (k + min count size) k p) ?copies]
  case copies =>
    intro d k h
    have := List.mem_range.mp h
    simp (disch := omega) only [add_eq, some_bind]
    exact onActive_eq (copied _ k (by omega) (by omega)) d
  simp only [some_bind]
  rw [foldlM_onSelected (g := fun k => clear' (size - k - 1)) ?clears,
    Display.onSelected_onSelected]
  case clears =>
    intro d k h
    have := List.mem_range.mp h
    simp (disch := omega) only [sub_eq, some_bind]
    exact onActive_eq (cleared _ (by omega)) d

end

def scrollDown (count : Nat) : Display → Option Display :=
  slideAway 64 count copyRow clearRow

def scrollUp (count : Nat) : Display → Option Display :=
  slideBack 64 count copyRow clearRow

def scrollRight (count : Nat) : Display → Option Display :=
  slideAway 128 count copyColumn clearColumn

def scrollLeft (count : Nat) : Display → Option Display :=
  slideBack 128 count copyColumn clearColumn

theorem cells_blank : Vector.replicate 8192 0 = Plane.blank.cells := by
  refine Plane.cells_eq fun x y hx hy => ?_
  simp only [Plane.blank, Row.blank, Vector.getElem_replicate]
  rfl

theorem clear_eq (d : Display) : clear d = some d.clear :=
  onActive_eq (f := fun _ => some (Vector.replicate 8192 0)) (g := fun _ => Plane.blank)
    (fun _ => congrArg some cells_blank) d

theorem scrollDown_eq (count : Nat) (d : Display) :
    scrollDown count d = some (d.scrollDown count) := by
  rw [scrollDown, slideAway_eq (by decide) (fun _ _ hs ht p => copyRow_eq p hs ht)
    fun _ h p => clearRow_eq p h]
  simp only [Display.scrollDown, Plane.scrollDown, slideUp_eq_loops]

theorem scrollUp_eq (count : Nat) (d : Display) :
    scrollUp count d = some (d.scrollUp count) := by
  rw [scrollUp, slideBack_eq (by decide) (fun _ _ hs ht p => copyRow_eq p hs ht)
    fun _ h p => clearRow_eq p h]
  simp only [Display.scrollUp, Plane.scrollUp, slideDown_eq_loops]

theorem scrollRight_eq (count : Nat) (d : Display) :
    scrollRight count d = some (d.scrollRight count) := by
  rw [scrollRight, slideAway_eq (by decide) (fun _ _ hs ht p => copyColumn_eq p hs ht)
    fun _ h p => clearColumn_eq p h]
  simp only [foldl_map_rows, Vector.map_map]
  simp only [Display.scrollRight, Plane.scrollRight]
  congr 2
  funext p
  congr 1
  funext row
  exact (slideUp_eq_loops count false row).symm

theorem scrollLeft_eq (count : Nat) (d : Display) :
    scrollLeft count d = some (d.scrollLeft count) := by
  rw [scrollLeft, slideBack_eq (by decide) (fun _ _ hs ht p => copyColumn_eq p hs ht)
    fun _ h p => clearColumn_eq p h]
  simp only [foldl_map_rows, Vector.map_map]
  simp only [Display.scrollLeft, Plane.scrollLeft]
  congr 2
  funext p
  congr 1
  funext row
  exact (slideDown_eq_loops count false row).symm

end Checked

end XoChip
