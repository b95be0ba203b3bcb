import XoChip.Proofs.SpriteXor

/-!
Sprites pixel by pixel. The bits in memory tell which pixels a sprite plots, and these tell every
stored pixel, and the flag, once it is drawn. Main statement: `step_draws`.
-/

namespace XoChip

namespace Sprite

/-- How many rows a sprite has. -/
def rowsOf (n : Fin 16) : Nat :=
  if n = 0 then 16 else n.val

/-- How many columns a sprite has. -/
def columnsOf (n : Fin 16) (narrow : Bool) : Nat :=
  if n = 0 && !narrow then 16 else 8

/-- The bit in a column and a row of the data for the plane drawn as number `k`. -/
def bitAt (n : Fin 16) (narrow : Bool) (m : Memory) (a : Word) (k column row : Nat) : Bool :=
  (m.read (UInt16.ofNat
    (a.toNat + k * strideOf n + columnsOf n narrow / 8 * row + column / 8))).toNat.testBit
      (7 - column % 8)

section
variable {n : Fin 16} {narrow : Bool} {m : Memory} {a : Word}

/-- The number that a row is read as has the bits of its bytes, the highest one first. -/
theorem testBit_rowWord {c : Nat} (r : Nat) (bound : c < columnsOf n narrow) :
    (Checked.rowWord m a r (n = 0) narrow).toNat.testBit ((if n = 0 then 16 else 8) - 1 - c) =
      (m.read (a + UInt16.ofNat (columnsOf n narrow / 8 * r + c / 8))).toNat.testBit
        (7 - c % 8) := by
  by_cases big : n = 0
  · subst big
    cases narrow with
    | true =>
      -- Two bytes are read for a row here too, but only the first is drawn.
      have narrowed : c < 8 := bound
      have byte : columnsOf 0 true / 8 * r + c / 8 = r := by
        change 1 * r + c / 8 = r
        omega
      have place : 16 - 1 - c - 8 = 7 - c % 8 := by omega
      rw [byte]
      change (Word.ofBytes _ _).toNat.testBit (16 - 1 - c) = _
      rw [Word.testBit_ofBytes, if_neg (by omega), place]
      rfl
    | false =>
      have wide : c < 16 := bound
      change (Word.ofBytes (m.read (a + UInt16.ofNat (r * 2)))
        (m.read (a + UInt16.ofNat (r * 2) + 1))).toNat.testBit (16 - 1 - c) = _
      rw [Word.testBit_ofBytes]
      by_cases left : c < 8
      · have byte : columnsOf 0 false / 8 * r + c / 8 = r * 2 := by
          change 2 * r + c / 8 = r * 2
          omega
        have place : 16 - 1 - c - 8 = 7 - c % 8 := by omega
        rw [if_neg (by omega), byte, place]
      · have byte : columnsOf 0 false / 8 * r + c / 8 = r * 2 + 1 := by
          change 2 * r + c / 8 = r * 2 + 1
          omega
        have place : 16 - 1 - c = 7 - c % 8 := by omega
        rw [if_pos (by omega), byte, place, UInt16.ofNat_add, ← UInt16.add_assoc]
        rfl
  · have narrowed : columnsOf n narrow = 8 := by simp [columnsOf, big]
    rw [narrowed] at bound
    have byte : columnsOf n narrow / 8 * r + c / 8 = r := by
      rw [narrowed]
      omega
    have place : 8 - 1 - c = 7 - c % 8 := by omega
    rw [if_neg big, byte, place]
    simp only [Checked.rowWord, big, decide_false, Bool.false_eq_true, ↓reduceIte,
      UInt8.toNat_toUInt16]

/-- The pixels of the plane drawn as number `k`. -/
theorem mem_onPlane_iff {k : Nat} {p : Fin 2} {x y : Nat} {pixel : Fin 2 × Nat × Nat} :
    pixel ∈ onPlane n narrow m (a + UInt16.ofNat (strideOf n * k)) p x y ↔
      ∃ r c, r < rowsOf n ∧ c < columnsOf n narrow ∧ bitAt n narrow m a k c r = true ∧
        pixel = (p, x + c, y + r) := by
  have lit {r c : Nat} (bound : c < columnsOf n narrow) :
      (Checked.rowWord m (a + UInt16.ofNat (strideOf n * k)) r (n = 0) narrow).toNat.testBit
        ((if n = 0 then 16 else 8) - 1 - c) = bitAt n narrow m a k c r := by
    have address : a + UInt16.ofNat (strideOf n * k) +
        UInt16.ofNat (columnsOf n narrow / 8 * r + c / 8) =
          UInt16.ofNat (a.toNat + k * strideOf n + columnsOf n narrow / 8 * r + c / 8) := by
      simp only [UInt16.ofNat_add, UInt16.ofNat_toNat, UInt16.add_assoc, Nat.mul_comm]
    rw [testBit_rowWord r bound, address, bitAt]
  unfold onPlane
  simp only [List.mem_flatMap, mem_rowPixels, List.mem_range]
  constructor
  · rintro ⟨r, row, c, column, on, rfl⟩
    exact ⟨r, c, row, column, (lit column).symm.trans on, rfl⟩
  · rintro ⟨r, c, row, column, on, rfl⟩
    exact ⟨r, row, c, column, (lit column).trans on, rfl⟩

end

end Sprite

namespace Display

/-- How many selected planes come before a plane. -/
def rank (d : Display) (p : Fin 2) : Nat :=
  d.selected.countP (· < p)

/-- The pixel that a stored pixel belongs to. -/
def pixelOf (d : Display) (column : Fin 128) (row : Fin 64) : Nat × Nat :=
  if d.hires then (column.val, row.val) else (column.val / 2, row.val / 2)

theorem mem_zipIdx_selected {d : Display} {p : Fin 2} {k : Nat} :
    (p, k) ∈ d.selected.zipIdx ↔ d.selects p = true ∧ k = d.rank p := by
  unfold rank selected
  cases first : d.selects 0 <;> cases second : d.selects 1 <;> match p with
    | 0 | 1 => simp [first, second]

/-- Pixels beyond an edge are those at the other side. -/
theorem corner_mod (d : Display) (x y : Nat) :
    d.corner (x % d.width) (y % d.height) = d.corner x y := by
  unfold corner width height
  cases d.hires <;>
    simp only [Bool.false_eq_true, ↓reduceIte, Prod.mk.injEq, Fin.ext_iff, Fin.val_ofNat] <;>
    omega

theorem corner_eq_cornerOf_iff {d : Display} {x y : Nat} {column : Fin 128} {row : Fin 64} :
    d.corner x y = d.cornerOf column row ↔ d.pixelOf column row = (x % d.width, y % d.height) := by
  unfold corner cornerOf pixelOf width height
  cases d.hires <;>
    simp only [Bool.false_eq_true, ↓reduceIte, Prod.mk.injEq, Fin.ext_iff, Fin.val_ofNat] <;>
    omega

end Display

/-- What the planes plot together. -/
theorem Sprite.mem_pixels_iff {d : Display} {n : Fin 16} {narrow : Bool} {m : Memory} {a : Word}
    {x y : Nat} {pixel : Fin 2 × Nat × Nat} :
    pixel ∈ (ofRows n narrow).pixels m a d.selected x y ↔
      ∃ p, d.selects p = true ∧ ∃ r c, r < rowsOf n ∧ c < columnsOf n narrow ∧
        bitAt n narrow m a (d.rank p) c r = true ∧ pixel = (p, x + c, y + r) := by
  simp only [pixels, stride_ofRows, map_offsets, List.mem_flatMap, Prod.exists,
    Display.mem_zipIdx_selected, mem_onPlane_iff]
  constructor
  · rintro ⟨p, k, ⟨selected, rfl⟩, plots⟩
    exact ⟨p, selected, plots⟩
  · rintro ⟨p, selected, plots⟩
    exact ⟨p, d.rank p, ⟨selected, rfl⟩, plots⟩

namespace Machine

/-- A sprite drawn now with its corner where `x` and `y` say, which wraps, plots a pixel of plane
`p`: a bit of its data falls there, past no edge if what does is clipped. -/
def Plots (m : Machine) (x y : Register) (n : Fin 16) (p : Fin 2) (pixel : Nat × Nat) : Prop :=
  let d := m.display
  let narrow := m.dialect.loresSprites && !d.hires
  let left := (m.v.get x).toNat % d.width
  let top := (m.v.get y).toNat % d.height
  d.selects p = true ∧ ∃ r c, r < Sprite.rowsOf n ∧ c < Sprite.columnsOf n narrow ∧
    Sprite.bitAt n narrow m.memory m.i (d.rank p) c r = true ∧
    (m.dialect.clip = true → left + c < d.width ∧ top + r < d.height) ∧
    pixel = ((left + c) % d.width, (top + r) % d.height)

/-- `m'` is `m` with a sprite drawn on it. -/
structure Draws (m m' : Machine) (x y : Register) (n : Fin 16) : Prop where
  /-- Whatever belongs to a pixel that is plotted takes the inverse of its corner. -/
  toggled : ∀ p column row, m.Plots x y n p (m.display.pixelOf column row) →
    (m'.display.plane p).lit column row =
      !(m.display.plane p).lit (m.display.cornerOf column row).1 (m.display.cornerOf column row).2
  kept : ∀ p column row, ¬m.Plots x y n p (m.display.pixelOf column row) →
    (m'.display.plane p).lit column row = (m.display.plane p).lit column row
  hit : (∃ p pixel, m.Plots x y n p pixel ∧ m.display.lit p pixel.1 pixel.2 = true) →
    m'.v.get Register.flag = 1
  missed : (¬∃ p pixel, m.Plots x y n p pixel ∧ m.display.lit p pixel.1 pixel.2 = true) →
    m'.v.get Register.flag = 0
  registers : ∀ r, r ≠ Register.flag → m'.v.get r = m.v.get r
  memory : m'.memory = m.memory
  index : m'.i = m.i
  /-- Besides, execution moves on as it does behind any instruction, and no frame is waited for. -/
  rest : m' =
    { m with
      display := { m.display with planes := m'.display.planes }
      v := m'.v
      pc := m.pc + 2
      latch := m.memory.word m.pc
      cycles := m.cycles + 1
      frameWait := if m.dialect.vblank then .idle else m.frameWait
      disassembly := m.disassembly.visit m.memory m.pc
      monitor := { m.monitor with log := m'.monitor.log } }

section
variable {m : Machine} {x y : Register} {n : Fin 16}

theorem mem_plotted {pixel : Fin 2 × Nat × Nat} :
    pixel ∈ m.plotted x y n ↔
      (m.dialect.clip = true →
        pixel.2.1 < m.display.width ∧ pixel.2.2 < m.display.height) ∧
      ∃ p, m.display.selects p = true ∧ ∃ r c, r < Sprite.rowsOf n ∧
        c < Sprite.columnsOf n (m.dialect.loresSprites && !m.display.hires) ∧
        Sprite.bitAt n (m.dialect.loresSprites && !m.display.hires) m.memory m.i
          (m.display.rank p) c r = true ∧
        pixel = (p, (m.v.get x).toNat % m.display.width + c,
          (m.v.get y).toNat % m.display.height + r) := by
  unfold plotted
  cases m.dialect.clip with
  | true =>
    simp only [↓reduceIte, List.mem_filter, Sprite.mem_pixels_iff, Bool.and_eq_true,
      decide_eq_true_eq, true_implies]
    exact and_comm
  | false =>
    simp only [Bool.false_eq_true, ↓reduceIte, Sprite.mem_pixels_iff, false_implies, true_and]

/-- What is plotted are the pixels that are drawn, wrapped. -/
theorem plots_iff {p : Fin 2} {place : Nat × Nat} :
    m.Plots x y n p place ↔ ∃ pixel ∈ m.plotted x y n, pixel.1 = p ∧
      place = (pixel.2.1 % m.display.width, pixel.2.2 % m.display.height) := by
  constructor
  · rintro ⟨selected, r, c, row, column, on, clipped, wrapped⟩
    exact ⟨_, mem_plotted.mpr ⟨clipped, p, selected, r, c, row, column, on, rfl⟩, rfl, wrapped⟩
  · rintro ⟨pixel, mem, rfl, wrapped⟩
    obtain ⟨clipped, q, selected, r, c, row, column, on, rfl⟩ := mem_plotted.mp mem
    exact ⟨selected, r, c, row, column, on, clipped, wrapped⟩

theorem plots_pixelOf_iff {p : Fin 2} {column : Fin 128} {row : Fin 64} :
    m.Plots x y n p (m.display.pixelOf column row) ↔
      ∃ pixel ∈ m.plotted x y n, m.display.covers p column row pixel = true := by
  rw [plots_iff]
  refine exists_congr fun pixel => and_congr_right fun _ => ?_
  rw [Display.covers_iff, Display.corner_eq_cornerOf_iff]

theorem exists_plots_lit_iff :
    (∃ p pixel, m.Plots x y n p pixel ∧ m.display.lit p pixel.1 pixel.2 = true) ↔
      ∃ pixel ∈ m.plotted x y n, m.display.lit pixel.1 pixel.2.1 pixel.2.2 = true := by
  have same (pixel : Fin 2 × Nat × Nat) :
      m.display.lit pixel.1 (pixel.2.1 % m.display.width) (pixel.2.2 % m.display.height) =
        m.display.lit pixel.1 pixel.2.1 pixel.2.2 := by
    rw [Display.lit_eq, Display.corner_mod]
    rfl
  constructor
  · rintro ⟨p, place, plots, lit⟩
    obtain ⟨pixel, mem, rfl, rfl⟩ := plots_iff.mp plots
    exact ⟨pixel, mem, (same pixel).symm.trans lit⟩
  · rintro ⟨pixel, mem, lit⟩
    exact ⟨_, _, plots_iff.mpr ⟨pixel, mem, rfl, rfl⟩, (same pixel).trans lit⟩

/-- **A sprite is its bits.** A sprite that is not held back plots the pixels that the bits of its
data tell. Each of them is inverted, as a whole in low resolution, and no other stored pixel changes
on either plane; vF tells whether one of them was lit before, and is the only register to change.
The loops that draw it never leave memory or the planes, and come to the same. -/
theorem step_draws (executed : m.executed? = some (.sprite x y n))
    (free : m.holdsSprites = false) :
    m.Draws m.step x y n ∧
    ∃ hit, Checked.draw m.display m.memory m.i (m.v.get x) (m.v.get y) n
        (m.dialect.loresSprites && !m.display.hires) m.dialect.clip = some (hit, m.step.display) ∧
      m.step.v.get Register.flag = hit.toUInt8 := by
  obtain ⟨awaited, next⟩ := executed?_eq_some.mp executed
  have stepped := step_of_free awaited next free
  have drawn := drawn_of_free awaited next free
  have display := drawn.display.trans (m.display_drawSprite x y n)
  have v := drawn.v.trans (m.v_drawSprite x y n)
  have flag : m.step.v.get Register.flag =
      (m.display.plotAll (m.plotted x y n)).1.toUInt8 := by
    rw [v, Registers.get_put, if_pos rfl]
  have apart := m.apart_plotted x y n
  have hit := exists_plots_lit_iff.trans (Display.fst_plotAll apart).symm
  refine ⟨?_, (m.display.plotAll (m.plotted x y n)).1, ?_, flag⟩
  · constructor
    case toggled =>
      intro p column row plots
      obtain ⟨pixel, mem, covered⟩ := plots_pixelOf_iff.mp plots
      rw [display, Display.lit_plotAll_of_covered apart mem covered]
    case kept =>
      intro p column row unplotted
      rw [display, Display.lit_plotAll_of_uncovered]
      intro pixel mem covered
      exact unplotted (plots_pixelOf_iff.mpr ⟨pixel, mem, covered⟩)
    case hit =>
      intro lit
      rw [flag, hit.mp lit]
      rfl
    case missed =>
      intro dark
      rw [flag, Bool.eq_false_iff.mpr fun lit => dark (hit.mpr lit)]
      rfl
    case registers =>
      intro r other
      rw [v, Registers.get_put, if_neg other.symm]
    case memory => exact drawn.memory
    case index => rw [stepped]
    case rest => rw [stepped, display_drawSprite, Display.plotAll_eq]
  · rw [Checked.draw_eq, display]
    rfl

end

/-- The first pixel of the digit zero. -/
theorem plots_crossing : (loaded crossing).Plots 0 1 5 0 (0, 0) := by
  have lit : Sprite.bitAt 5 false (Memory.ofRom crossing) 0 0 0 0 = true := by
    unfold Sprite.bitAt
    rw [Memory.read_ofRom]
    decide
  rw [loaded_eq]
  exact ⟨rfl, 0, 0, by decide, by decide, lit, nofun, rfl⟩

theorem step_draws_crossing :
    let m := loaded crossing
    m.executed? = some (.sprite 0 1 5) ∧ m.holdsSprites = false ∧ m.Plots 0 1 5 0 (0, 0) ∧
    m.Draws m.step 0 1 5 ∧
    ∃ hit, Checked.draw m.display m.memory m.i (m.v.get 0) (m.v.get 1) 5
        (m.dialect.loresSprites && !m.display.hires) m.dialect.clip = some (hit, m.step.display) ∧
      m.step.v.get Register.flag = hit.toUInt8 := by
  intro m
  have executed : m.executed? = some (.sprite 0 1 5) := drawsFreely_crossing.executed
  have free : m.holdsSprites = false := holdsSprites_loaded crossing
  exact ⟨executed, free, plots_crossing, step_draws executed free⟩

end Machine

end XoChip
