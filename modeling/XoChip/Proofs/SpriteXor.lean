import Mathlib.Data.Nat.Bits
import XoChip.Proofs.Blocks

/-!
Sprites as toggles. What a list of pixels does to a stored pixel depends only on how often it is
covered (`lit_plotAll`), so drawing twice draws nothing and the order of sprites does not matter;
the pixels of one sprite never meet, so the flag tells whether one of them was lit. Main statement:
`sprite_toggles`.
-/

namespace XoChip

namespace Display

/-- A pixel of a plane, the plane first, covers a stored pixel. -/
def covers (d : Display) (p : Fin 2) (column : Fin 128) (row : Fin 64)
    (pixel : Fin 2 × Nat × Nat) : Bool :=
  pixel.1 == p && d.corner pixel.2.1 pixel.2.2 == d.cornerOf column row

/-- Two pixels are stored in different places. -/
def Apart (d : Display) (a b : Fin 2 × Nat × Nat) : Prop :=
  ¬(a.1 = b.1 ∧ d.corner a.2.1 a.2.2 = d.corner b.2.1 b.2.2)

theorem cornerOf_corner (d : Display) (x y : Nat) :
    d.cornerOf (d.corner x y).1 (d.corner x y).2 = d.corner x y := by
  unfold cornerOf corner
  cases d.hires with
  | true => rfl
  | false =>
    simp only [Bool.false_eq_true, ↓reduceIte, Prod.mk.injEq, Fin.ext_iff, Fin.val_ofNat]
    omega

theorem planes_ext_lit {d d' : Display}
    (same : ∀ (p : Fin 2) (column : Fin 128) (row : Fin 64),
      (d.plane p).lit column row = (d'.plane p).lit column row) : d.planes = d'.planes := by
  refine planes_ext fun p => ?_
  ext y hy x hx
  exact same p ⟨x, hx⟩ ⟨y, hy⟩

/-! ## Toggling -/

section
variable {d : Display}

/-- Where pixels are stored whole, plotting one inverts all that it covers. -/
theorem lit_plot_of_whole (whole : d.Whole) (pixel : Fin 2 × Nat × Nat) (p : Fin 2)
    (column : Fin 128) (row : Fin 64) :
    ((d.plot pixel.1 pixel.2.1 pixel.2.2).plane p).lit column row =
      ((d.plane p).lit column row ^^ d.covers p column row pixel) := by
  obtain ⟨q, x, y⟩ := pixel
  rw [lit_plot]
  by_cases covered : q = p ∧ d.corner x y = d.cornerOf column row
  · obtain ⟨rfl, corner⟩ := covered
    have inverted : d.lit q x y = (d.plane q).lit column row := by
      rw [lit, corner]
      exact ((whole_iff d).mp whole q column row).symm
    simp only [covers, corner, inverted, and_self, ↓reduceIte, beq_self_eq_true, Bool.and_self,
      Bool.xor_true]
  · have missed : d.covers p column row (q, x, y) = false := by
      simpa only [covers, Bool.and_eq_false_iff, beq_eq_false_iff_ne, ← not_and_or] using covered
    rw [if_neg covered, missed, Bool.xor_false]

/-- A stored pixel is inverted as often as it is covered. -/
theorem lit_plotAll (whole : d.Whole) (pixels : List (Fin 2 × Nat × Nat)) (p : Fin 2)
    (column : Fin 128) (row : Fin 64) :
    ((d.plotAll pixels).2.plane p).lit column row =
      ((d.plane p).lit column row ^^ (pixels.countP (d.covers p column row)).bodd) := by
  induction pixels generalizing d with
  | nil => simp only [plotAll, List.countP_nil, Nat.bodd_zero, Bool.xor_false]
  | cons pixel rest ih =>
    -- The first pixel leaves a display on which pixels are stored whole, as the rest needs it.
    have covers : (d.plot pixel.1 pixel.2.1 pixel.2.2).covers = d.covers := rfl
    have later := ih (whole.plot pixel.1 pixel.2.1 pixel.2.2)
    rw [covers, lit_plot_of_whole whole] at later
    rw [List.countP_cons, Nat.bodd_add]
    refine later.trans ?_
    cases d.covers p column row pixel with
    | true => simp
    | false => simp

theorem plotAll_append (d : Display) (pixels more : List (Fin 2 × Nat × Nat)) :
    (d.plotAll (pixels ++ more)).2 = ((d.plotAll pixels).2.plotAll more).2 := by
  induction pixels generalizing d with
  | nil => rfl
  | cons pixel rest ih => exact ih _

/-- What is plotted is known by what is covered an odd number of times. -/
theorem plotAll_congr (whole : d.Whole) {pixels more : List (Fin 2 × Nat × Nat)}
    (same : ∀ p column row, (pixels.countP (d.covers p column row)).bodd =
      (more.countP (d.covers p column row)).bodd) :
    (d.plotAll pixels).2 = (d.plotAll more).2 := by
  have planes : (d.plotAll pixels).2.planes = (d.plotAll more).2.planes := by
    apply planes_ext_lit
    intro p column row
    rw [lit_plotAll whole, lit_plotAll whole, same]
  rw [plotAll_eq d pixels, plotAll_eq d more, planes]

/-- Pixels plotted once more are gone. -/
theorem plotAll_plotAll (whole : d.Whole) (pixels : List (Fin 2 × Nat × Nat)) :
    ((d.plotAll pixels).2.plotAll pixels).2 = d := by
  rw [← plotAll_append]
  have none : (d.plotAll []).2 = d := rfl
  refine (plotAll_congr whole fun p column row => ?_).trans none
  rw [List.countP_append, Nat.bodd_add, List.countP_nil, Nat.bodd_zero]
  exact Bool.xor_self _

theorem plotAll_comm (whole : d.Whole) (pixels more : List (Fin 2 × Nat × Nat)) :
    ((d.plotAll pixels).2.plotAll more).2 = ((d.plotAll more).2.plotAll pixels).2 := by
  rw [← plotAll_append, ← plotAll_append]
  refine plotAll_congr whole fun p column row => ?_
  rw [List.countP_append, List.countP_append, Nat.add_comm]

/-! ## Pixels that never meet -/

theorem lit_plot_of_apart {pixel other : Fin 2 × Nat × Nat} (apart : d.Apart pixel other) :
    (d.plot pixel.1 pixel.2.1 pixel.2.2).lit other.1 other.2.1 other.2.2 =
      d.lit other.1 other.2.1 other.2.2 := by
  have corner : (d.plot pixel.1 pixel.2.1 pixel.2.2).corner = d.corner := rfl
  rw [lit_eq, corner, lit_plot, cornerOf_corner, if_neg apart]
  rfl

/-- Whether a pixel is put out is whether one was lit before the first of them was plotted. -/
theorem fst_plotAll {pixels : List (Fin 2 × Nat × Nat)} (apart : pixels.Pairwise d.Apart) :
    (d.plotAll pixels).1 = true ↔
      ∃ pixel ∈ pixels, d.lit pixel.1 pixel.2.1 pixel.2.2 = true := by
  induction pixels generalizing d with
  | nil => simp [plotAll]
  | cons pixel rest ih =>
    obtain ⟨first, later⟩ := List.pairwise_cons.mp apart
    have hit : (d.plotAll (pixel :: rest)).1 =
        (d.lit pixel.1 pixel.2.1 pixel.2.2 ||
          ((d.plot pixel.1 pixel.2.1 pixel.2.2).plotAll rest).1) := rfl
    rw [hit, Bool.or_eq_true, ih (d := d.plot pixel.1 pixel.2.1 pixel.2.2) later]
    simp only [List.mem_cons, exists_eq_or_imp]
    refine or_congr Iff.rfl (exists_congr fun other => and_congr_right fun h => ?_)
    rw [lit_plot_of_apart (first other h)]

theorem covers_iff {p : Fin 2} {column : Fin 128} {row : Fin 64} {pixel : Fin 2 × Nat × Nat} :
    d.covers p column row pixel = true ↔
      pixel.1 = p ∧ d.corner pixel.2.1 pixel.2.2 = d.cornerOf column row := by
  simp only [covers, Bool.and_eq_true, beq_iff_eq]

section
variable {pixels : List (Fin 2 × Nat × Nat)} {p : Fin 2} {column : Fin 128} {row : Fin 64}

/-- What no pixel covers stays. -/
theorem lit_plotAll_of_uncovered
    (uncovered : ∀ pixel ∈ pixels, ¬d.covers p column row pixel = true) :
    ((d.plotAll pixels).2.plane p).lit column row = (d.plane p).lit column row := by
  induction pixels generalizing d with
  | nil => rfl
  | cons pixel rest ih =>
    have first : ((d.plot pixel.1 pixel.2.1 pixel.2.2).plane p).lit column row =
        (d.plane p).lit column row := by
      have missed := uncovered pixel List.mem_cons_self
      rw [lit_plot, if_neg (covers_iff.not.mp missed)]
    rw [← first]
    exact ih (d := d.plot pixel.1 pixel.2.1 pixel.2.2) fun later h =>
      uncovered later (List.mem_cons_of_mem pixel h)

/-- What a pixel covers takes the inverse of its corner, whatever it was itself. -/
theorem lit_plotAll_of_covered (apart : pixels.Pairwise d.Apart) {pixel : Fin 2 × Nat × Nat}
    (mem : pixel ∈ pixels) (covered : d.covers p column row pixel = true) :
    ((d.plotAll pixels).2.plane p).lit column row =
      !(d.plane p).lit (d.cornerOf column row).1 (d.cornerOf column row).2 := by
  induction pixels generalizing d with
  | nil => cases mem
  | cons first rest ih =>
    obtain ⟨ahead, later⟩ := List.pairwise_cons.mp apart
    obtain ⟨plane, corner⟩ := covers_iff.mp covered
    rcases List.mem_cons.mp mem with rfl | mem
    · have inverted : ((d.plot pixel.1 pixel.2.1 pixel.2.2).plane p).lit column row =
          !(d.plane p).lit (d.cornerOf column row).1 (d.cornerOf column row).2 := by
        rw [lit_plot, if_pos ⟨plane, corner⟩, lit_eq, plane, corner]
      rw [← inverted]
      refine lit_plotAll_of_uncovered (d := d.plot pixel.1 pixel.2.1 pixel.2.2) ?_
      intro other h covered'
      obtain ⟨plane', corner'⟩ := covers_iff.mp covered'
      exact ahead other h ⟨plane.trans plane'.symm, corner.trans corner'.symm⟩
    · -- The first pixel leaves the corner alone.
      have missed : ¬(first.1 = p ∧
          d.corner first.2.1 first.2.2 =
            d.cornerOf (d.cornerOf column row).1 (d.cornerOf column row).2) := by
        rw [cornerOf_cornerOf]
        rintro ⟨plane', corner'⟩
        exact ahead pixel mem ⟨plane'.trans plane.symm, corner'.trans corner.symm⟩
      have kept := d.lit_plot first.1 p first.2.1 first.2.2 (d.cornerOf column row).1
        (d.cornerOf column row).2
      rw [if_neg missed] at kept
      rw [← kept]
      exact ih (d := d.plot first.1 first.2.1 first.2.2) later mem covered

end

theorem lit_plotAll_of_mem {pixels : List (Fin 2 × Nat × Nat)} (apart : pixels.Pairwise d.Apart)
    {pixel : Fin 2 × Nat × Nat} (mem : pixel ∈ pixels) :
    (d.plotAll pixels).2.lit pixel.1 pixel.2.1 pixel.2.2 =
      !d.lit pixel.1 pixel.2.1 pixel.2.2 := by
  have corner : (d.plotAll pixels).2.corner = d.corner := by rw [plotAll_eq]; rfl
  have covered : d.covers pixel.1 (d.corner pixel.2.1 pixel.2.2).1
      (d.corner pixel.2.1 pixel.2.2).2 pixel = true :=
    covers_iff.mpr ⟨rfl, (cornerOf_corner ..).symm⟩
  rw [lit_eq, corner, lit_plotAll_of_covered apart mem covered, cornerOf_corner]
  rfl

end

end Display

/-! ## The pixels of a sprite -/

/-- A sprite is smaller than the display, so that it never wraps onto itself. -/
theorem Display.corner_inj {d : Display} {x y c c' r r' : Nat} (hc : c < 16) (hc' : c' < 16)
    (hr : r < 16) (hr' : r' < 16)
    (same : d.corner (x + c) (y + r) = d.corner (x + c') (y + r')) : c = c' ∧ r = r' := by
  unfold corner at same
  cases hires : d.hires <;>
    simp only [hires, Bool.false_eq_true, ↓reduceIte, Prod.mk.injEq, Fin.ext_iff,
      Fin.val_ofNat] at same <;>
    omega

namespace Sprite

variable {n : Fin 16} {narrow : Bool} {m : Memory} {a : Word}

theorem mem_rowPixels {bits : Nat} {row : Word} {p : Fin 2} {x y : Nat} {cs : List Nat}
    {pixel : Fin 2 × Nat × Nat} :
    pixel ∈ Checked.rowPixels bits row p x y cs ↔
      ∃ c ∈ cs, row.toNat.testBit (bits - 1 - c) = true ∧ (p, x + c, y) = pixel := by
  simp only [Checked.rowPixels, List.mem_map, List.mem_filter, and_assoc]

theorem mem_onPlane {p : Fin 2} {x y : Nat} {pixel : Fin 2 × Nat × Nat}
    (mem : pixel ∈ onPlane n narrow m a p x y) : pixel.1 = p := by
  obtain ⟨r, -, row⟩ := List.mem_flatMap.mp mem
  obtain ⟨c, -, -, rfl⟩ := mem_rowPixels.mp row
  rfl

theorem mem_pixels {planes : List (Fin 2)} {x y : Nat} {pixel : Fin 2 × Nat × Nat}
    (mem : pixel ∈ (ofRows n narrow).pixels m a planes x y) : pixel.1 ∈ planes := by
  induction planes generalizing a with
  | nil => cases mem
  | cons p planes ih =>
    rw [pixels_cons] at mem
    rcases List.mem_append.mp mem with first | later
    · rw [mem_onPlane first]
      exact List.mem_cons_self
    · exact List.mem_cons_of_mem p (ih later)

theorem apart_onPlane (d : Display) (p : Fin 2) (x y : Nat) :
    (onPlane n narrow m a p x y).Pairwise d.Apart := by
  have columns {c : Nat} (h : c ∈ List.range (if n = 0 && !narrow then 16 else 8)) : c < 16 := by
    have := List.mem_range.mp h
    split at this <;> omega
  have rows {r : Nat} (h : r ∈ List.range (if n = 0 then 16 else n.val)) : r < 16 := by
    have := List.mem_range.mp h
    split at this <;> omega
  refine List.pairwise_flatMap.mpr ⟨fun r row => ?_, ?_⟩
  · refine List.pairwise_map.mpr ((List.pairwise_lt_range.filter _).imp_of_mem ?_)
    rintro c c' here there before ⟨-, meets⟩
    have same := (Display.corner_inj (columns (List.mem_filter.mp here).1)
      (columns (List.mem_filter.mp there).1) (rows row) (rows row) meets).1
    omega
  · refine List.pairwise_lt_range.imp_of_mem ?_
    rintro r r' here there before pixel first other second ⟨-, meets⟩
    obtain ⟨c, column, -, rfl⟩ := mem_rowPixels.mp first
    obtain ⟨c', column', -, rfl⟩ := mem_rowPixels.mp second
    have same :=
      (Display.corner_inj (columns column) (columns column') (rows here) (rows there) meets).2
    omega

theorem apart_pixels (d : Display) {planes : List (Fin 2)} (distinct : planes.Nodup) (x y : Nat) :
    ((ofRows n narrow).pixels m a planes x y).Pairwise d.Apart := by
  induction planes generalizing a with
  | nil => exact List.Pairwise.nil
  | cons p planes ih =>
    obtain ⟨other, distinct⟩ := List.nodup_cons.mp distinct
    rw [pixels_cons]
    refine List.pairwise_append.mpr ⟨apart_onPlane d p x y, ih distinct, ?_⟩
    rintro pixel first pixel' second ⟨meets, -⟩
    rw [mem_onPlane first] at meets
    exact other (meets ▸ mem_pixels second)

end Sprite

namespace Machine

/-! ## Steps that draw -/

/-- The pixels that a sprite drawn now plots. -/
def plotted (m : Machine) (x y : Register) (n : Fin 16) : List (Fin 2 × Nat × Nat) :=
  let d := m.display
  let pixels :=
    (Sprite.ofRows n (m.dialect.loresSprites && !d.hires)).pixels m.memory m.i d.selected
      ((m.v.get x).toNat % d.width) ((m.v.get y).toNat % d.height)
  if m.dialect.clip then pixels.filter fun (_, x, y) => x < d.width && y < d.height else pixels

theorem display_drawSprite (m : Machine) (x y : Register) (n : Fin 16) :
    (m.drawSprite x y n).display = (m.display.plotAll (m.plotted x y n)).2 := rfl

theorem v_drawSprite (m : Machine) (x y : Register) (n : Fin 16) :
    (m.drawSprite x y n).v =
      m.v.put Register.flag (m.display.plotAll (m.plotted x y n)).1.toUInt8 := rfl

theorem apart_plotted (m : Machine) (x y : Register) (n : Fin 16) :
    (m.plotted x y n).Pairwise m.display.Apart := by
  have distinct : m.display.selected.Nodup := List.Pairwise.filter _ (by decide)
  unfold plotted
  split
  · exact (Sprite.apart_pixels _ distinct _ _).filter _
  · exact Sprite.apart_pixels _ distinct _ _

/-- The next step draws a sprite without delay, and neither of its registers is the one for flags.
In low resolution the display consists of blocks. -/
structure DrawsFreely (m : Machine) (x y : Register) (n : Fin 16) : Prop where
  executed : m.executed? = some (.sprite x y n)
  free : m.dialect.vblank = false
  column : x ≠ Register.flag
  row : y ≠ Register.flag
  whole : m.display.hires = false → ∀ p : Fin 2, (m.display.plane p).InBlocks

/-- What a sprite looks like and where it is drawn is the same on two machines. -/
structure SameSprites (m m' : Machine) : Prop where
  ram : m'.memory.ram = m.memory.ram
  i : m'.i = m.i
  v : ∀ r, r ≠ Register.flag → m'.v.get r = m.v.get r
  dialect : m'.dialect = m.dialect

section
variable {m m' : Machine} {x y : Register} {n : Fin 16}

theorem DrawsFreely.drawn (h : m.DrawsFreely x y n) : m.Drawn x y n := by
  obtain ⟨awaited, next⟩ := executed?_eq_some.mp h.executed
  refine drawn_of_free awaited next ?_
  simp only [Processor.holdsSprites, h.free, Bool.false_and]

theorem DrawsFreely.step (h : m.DrawsFreely x y n) :
    m.step.display = (m.display.plotAll (m.plotted x y n)).2 ∧
    m.step.v = m.v.put Register.flag (m.display.plotAll (m.plotted x y n)).1.toUInt8 :=
  ⟨h.drawn.display.trans (m.display_drawSprite x y n), h.drawn.v.trans (m.v_drawSprite x y n)⟩

theorem plotted_congr (same : m.SameSprites m') (mask : m'.display.mask = m.display.mask)
    (hires : m'.display.hires = m.display.hires) (column : x ≠ Register.flag)
    (row : y ≠ Register.flag) : m'.plotted x y n = m.plotted x y n := by
  have memory (s : Sprite) (a : Word) (planes : List (Fin 2)) (x y : Nat) :
      s.pixels m'.memory a planes x y = s.pixels m.memory a planes x y := by
    simp only [Sprite.pixels, Sprite.offsets, Sprite.row, Memory.readBlock, Memory.read, same.ram]
  have width : m'.display.width = m.display.width := by rw [Display.width, hires]; rfl
  have height : m'.display.height = m.display.height := by rw [Display.height, hires]; rfl
  have selected : m'.display.selected = m.display.selected := by
    unfold Display.selected Display.selects
    rw [mask]
  simp only [plotted, memory, same.i, same.v x column, same.v y row, same.dialect, hires, width,
    height, selected]

theorem DrawsFreely.sameSprites (h : m.DrawsFreely x y n) : m.SameSprites m.step := by
  have leaves {p : Part} (other : p.writtenBy (.sprite x y n) = false) : p.Same m m.step := by
    rcases m.step_same p with same | ⟨i, executed, writer⟩
    · exact same
    · cases h.executed.symm.trans executed
      cases other.symm.trans writer
  constructor
  case ram => exact leaves (p := .ram) rfl
  case i => exact leaves (p := .index) rfl
  case v =>
    intro r other
    rw [h.step.2, Registers.get_put, if_neg other.symm]
  case dialect => exact m.step_sameSettings.dialect

end

theorem SameSprites.trans {m₁ m₂ m₃ : Machine} (h : m₁.SameSprites m₂) (h' : m₂.SameSprites m₃) :
    m₁.SameSprites m₃ :=
  ⟨h'.ram.trans h.ram, h'.i.trans h.i, fun r other => (h'.v r other).trans (h.v r other),
    h'.dialect.trans h.dialect⟩

/-- Execution comes to a sprite that looks as it does on `m₂`, on the display as `m₁` has left it
by its own. -/
structure Follows (m₁ m₂ m' : Machine) (x y : Register) (n : Fin 16) : Prop where
  executed : m'.executed? = some (.sprite x y n)
  same : m₂.SameSprites m'
  display : m'.display = m₁.step.display

section
variable {m₁ m₂ m' : Machine} {x₁ y₁ x₂ y₂ : Register} {n₁ n₂ : Fin 16}

/-- Two sprites one after the other plot their pixels one after the other. -/
theorem Follows.step (h : Follows m₁ m₂ m' x₂ y₂ n₂) (first : m₁.DrawsFreely x₁ y₁ n₁)
    (second : m₂.DrawsFreely x₂ y₂ n₂) (shared : m₂.display = m₁.display) :
    let display := (m₁.display.plotAll (m₁.plotted x₁ y₁ n₁)).2
    m'.step.display = (display.plotAll (m₂.plotted x₂ y₂ n₂)).2 ∧
    m'.step.v.get Register.flag = (display.plotAll (m₂.plotted x₂ y₂ n₂)).1.toUInt8 := by
  intro display
  have here : m'.display = display := h.display.trans first.step.1
  have settings : m'.display.mask = m₂.display.mask ∧ m'.display.hires = m₂.display.hires := by
    have kept : display = { m₁.display with planes := display.planes } :=
      m₁.display.plotAll_eq _
    rw [here, shared, kept]
    exact ⟨rfl, rfl⟩
  have plotted : m'.plotted x₂ y₂ n₂ = m₂.plotted x₂ y₂ n₂ :=
    plotted_congr h.same settings.1 settings.2 second.column second.row
  have free : m'.dialect.vblank = false := by
    rw [h.same.dialect]
    exact second.free
  have whole : m'.display.Whole := by
    rw [here]
    exact Display.Whole.plotAll first.whole _
  obtain ⟨drawn, flag⟩ :=
    DrawsFreely.step ⟨h.executed, free, second.column, second.row, whole⟩
  rw [here, plotted] at drawn flag
  refine ⟨drawn, ?_⟩
  rw [flag, Registers.get_put, if_pos rfl]

end

/-- **Sprites are toggles.** Drawn without delay on pixels that are stored whole, with its corner in
registers other than the one for flags, a sprite drawn twice leaves the display as it was, and the
flag tells whether some pixel of it was not lit at first. Two sprites come to the same in either
order. -/
theorem sprite_toggles :
    (∀ {m m' : Machine} {x y : Register} {n : Fin 16}, m.DrawsFreely x y n →
      Follows m m.step m' x y n →
      m'.step.display = m.display ∧
      (m'.step.v.get Register.flag = 1 ↔
        ∃ pixel ∈ m.plotted x y n, m.display.lit pixel.1 pixel.2.1 pixel.2.2 = false)) ∧
    (∀ {m₁ m₂ m₁' m₂' : Machine} {x₁ y₁ x₂ y₂ : Register} {n₁ n₂ : Fin 16},
      m₁.DrawsFreely x₁ y₁ n₁ → m₂.DrawsFreely x₂ y₂ n₂ → m₂.display = m₁.display →
      Follows m₁ m₂ m₁' x₂ y₂ n₂ → Follows m₂ m₁ m₂' x₁ y₁ n₁ →
      m₁'.step.display = m₂'.step.display) := by
  constructor
  · intro m m' x y n first follows
    have looks : Follows m m m' x y n :=
      { follows with same := first.sameSprites.trans follows.same }
    obtain ⟨display, flag⟩ := looks.step first first rfl
    have whole : m.display.Whole := first.whole
    have apart := m.apart_plotted x y n
    have apart' : (m.plotted x y n).Pairwise (m.display.plotAll (m.plotted x y n)).2.Apart := by
      rw [Display.plotAll_eq]
      exact apart
    refine ⟨display.trans (Display.plotAll_plotAll whole _), ?_⟩
    have one (b : Bool) : b.toUInt8 = 1 ↔ b = true := by cases b <;> decide
    -- When it is drawn again, each pixel of the sprite is the inverse of what it was at first.
    rw [flag, one, Display.fst_plotAll apart']
    refine exists_congr fun pixel => and_congr_right fun mem => ?_
    rw [Display.lit_plotAll_of_mem apart mem, Bool.not_eq_true']
  · intro m₁ m₂ m₁' m₂' x₁ y₁ x₂ y₂ n₁ n₂ first second shared follows follows'
    have display := (follows.step first second shared).1
    have display' := (follows'.step second first shared.symm).1
    rw [display, display', shared]
    exact Display.plotAll_comm first.whole _ _

/-- `D015 D123`. -/
def crossing : Rom := ⟨#[0xD0, 0x15, 0xD1, 0x23], by decide⟩

theorem instruction?_crossing :
    (Memory.ofRom crossing).instruction? 0x200 = some (.sprite 0 1 5) ∧
    (Memory.ofRom crossing).instruction? 0x202 = some (.sprite 1 2 3) := by
  rw [Memory.instruction?_ofRom, Memory.instruction?_ofRom]
  decide

/-- The machine sent to an address, with something else to draw. -/
def sentTo (m : Machine) (a index : Word) : Machine :=
  { m with pc := a, i := index }

section
variable {m m₁ m₂ : Machine}

theorem display_sentTo (m : Machine) (a index : Word) : (m.sentTo a index).display = m.display :=
  rfl

theorem sameSprites_sentTo (m : Machine) (a : Word) : m.SameSprites (m.sentTo a m.i) :=
  ⟨rfl, rfl, fun _ _ => rfl, rfl⟩

theorem sameSprites_sentTo_sentTo (m : Machine) (a b index : Word) :
    m.SameSprites ((m.sentTo a index).sentTo b m.i) :=
  ⟨rfl, rfl, fun _ _ => rfl, rfl⟩

theorem SameSprites.sentTo (same : m₁.SameSprites m₂) (a b index : Word) :
    (m₁.sentTo a index).SameSprites (m₂.sentTo b index) :=
  ⟨same.ram, rfl, same.v, same.dialect⟩

theorem DrawsFreely.sentTo {x y x' y' : Register} {n n' : Fin 16} {rom : Rom} {a : Word}
    (h : m.DrawsFreely x y n) (awaited : m.waiting = false) (memory : m.memory = .ofRom rom)
    (found : (Memory.ofRom rom).instruction? a = some (.sprite x' y' n')) (index : Word)
    (column : x' ≠ Register.flag) (row : y' ≠ Register.flag) :
    (m.sentTo a index).DrawsFreely x' y' n' :=
  ⟨executed?_ofRom awaited memory rfl found, h.free, column, row, h.whole⟩

theorem follows_sentTo {rom : Rom} {a index : Word} {x y : Register} {n : Fin 16}
    (awaited : m₁.step.waiting = false) (memory : m₁.step.memory = .ofRom rom)
    (found : (Memory.ofRom rom).instruction? a = some (.sprite x y n))
    (same : m₂.SameSprites (m₁.step.sentTo a index)) :
    Follows m₁ m₂ (m₁.step.sentTo a index) x y n :=
  ⟨executed?_ofRom awaited memory rfl found, same, rfl⟩

end

theorem drawsFreely_crossing : (loaded crossing).DrawsFreely 0 1 5 := by
  obtain ⟨awaited, memory, pc⟩ := loaded_ready crossing
  refine ⟨executed?_ofRom awaited memory pc instruction?_crossing.1, ?_, by decide, by decide, ?_⟩
  · rw [loaded_eq]
    rfl
  · rw [loaded_eq]
    exact Display.whole_reset .blank

theorem sprite_toggles_crossing :
    let m := loaded crossing
    let m' := m.sentTo 0x202 5
    m.DrawsFreely 0 1 5 ∧ m'.DrawsFreely 1 2 3 ∧
    ((m.step.sentTo 0x200 m.step.i).step.display = m.display ∧
      ((m.step.sentTo 0x200 m.step.i).step.v.get Register.flag = 1 ↔
        ∃ pixel ∈ m.plotted 0 1 5, m.display.lit pixel.1 pixel.2.1 pixel.2.2 = false)) ∧
    (m.step.sentTo 0x202 5).step.display = (m'.step.sentTo 0x200 m.i).step.display := by
  intro m m'
  obtain ⟨awaited, memory, -⟩ := loaded_ready crossing
  obtain ⟨found, found'⟩ := instruction?_crossing
  have first : m.DrawsFreely 0 1 5 := drawsFreely_crossing
  have second : m'.DrawsFreely 1 2 3 :=
    first.sentTo awaited memory found' 5 (by decide) (by decide)
  have stepped := first.drawn.memory.trans memory
  have again : Follows m m.step (m.step.sentTo 0x200 m.step.i) 0 1 5 :=
    follows_sentTo first.drawn.awaited stepped found (sameSprites_sentTo _ _)
  have goesOn : Follows m m' (m.step.sentTo 0x202 5) 1 2 3 :=
    follows_sentTo first.drawn.awaited stepped found' (first.sameSprites.sentTo _ _ _)
  have goesBack : Follows m' m (m'.step.sentTo 0x200 m.i) 0 1 5 := by
    refine follows_sentTo second.drawn.awaited (second.drawn.memory.trans memory) found ?_
    exact (sameSprites_sentTo_sentTo m 0x202 0x200 5).trans (second.sameSprites.sentTo _ _ _)
  exact ⟨first, second, sprite_toggles.1 first again,
    sprite_toggles.2 first second (display_sentTo m 0x202 5) goesOn goesBack⟩

end Machine

end XoChip
