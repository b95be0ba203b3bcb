import XoChip.Proofs.Reload
import XoChip.Proofs.SpriteWait
import XoChip.Proofs.WriteSet

/-!
The fonts in memory. Programs lie behind them and cannot write to them, whatever they store and
wherever their addresses wrap. Main statement: in every history both fonts are in their places at
every move, so a digit the index register is pointed at is the digit that was asked for
(`fonts_in_place`).
-/

namespace XoChip

/-- The rows of a digit in a font. -/
def Font.glyph {n : Nat} (font : Vector UInt8 n) (height digit : Nat) : List UInt8 :=
  (font.toList.drop (height * digit)).take height

namespace Memory

/-- What lies below the start of programs: the small font, the large font, and zeros. -/
def fontArea : List UInt8 :=
  Font.small.toList ++ Font.large.toList ++ List.replicate (0x200 - 240) 0

def FontsInPlace (m : Memory) : Prop :=
  m.readBlock 0 0x200 = fontArea

/-- A block is part of every longer one that it lies in. -/
theorem readBlock_part (m : Memory) {first count total : Nat} (inside : first + count ≤ total) :
    m.readBlock (UInt16.ofNat first) count = ((m.readBlock 0 total).drop first).take count := by
  refine List.ext_getElem ?_ fun k h _ => ?_
  · rw [List.length_take, List.length_drop, length_readBlock, length_readBlock]
    omega
  · simp only [readBlock, List.getElem_map, List.getElem_range, List.getElem_take,
      List.getElem_drop, UInt16.ofNat_add, UInt16.zero_add]

theorem length_fontArea : fontArea.length = 0x200 := by
  simp only [fontArea, List.length_append, List.length_replicate, Vector.length_toList]

theorem fontsInPlace_ofRom (rom : Rom) : (ofRom rom).FontsInPlace := by
  have front : (layout rom).take 0x200 = fontArea := by
    rw [layout, List.append_assoc _ rom.bytes.toList]
    exact List.take_left' length_fontArea
  have long := length_layout rom
  rw [FontsInPlace, ← front]
  refine List.ext_getElem ?_ fun k h _ => ?_
  · rw [length_readBlock, List.length_take, long]
    rfl
  · rw [length_readBlock] at h
    have address : (UInt16.ofNat k).toNat = k :=
      UInt16.toNat_ofNat_of_lt (Nat.lt_trans h (by decide))
    simp only [readBlock, List.getElem_map, List.getElem_range, UInt16.zero_add, read_ofRom,
      address, List.getElem_take]
    exact placed_eq rom k (by omega)

/-- What lies below the start of programs is the same in two memories. -/
def SameBelow (m m' : Memory) : Prop :=
  ∀ a < start, m'.read a = m.read a

theorem FontsInPlace.congr {m m' : Memory} (h : m.FontsInPlace) (same : m.SameBelow m') :
    m'.FontsInPlace := by
  rw [FontsInPlace, ← h]
  refine List.map_congr_left fun k inside => same _ ?_
  have small := List.mem_range.mp inside
  have address : (UInt16.ofNat k).toNat = k :=
    UInt16.toNat_ofNat_of_lt (Nat.lt_trans small (by decide))
  rw [UInt16.zero_add, UInt16.lt_iff_toNat_lt, address]
  exact small

theorem sameBelow_write (bus : Bus) (a : Word) (b : UInt8) :
    bus.memory.SameBelow (bus.write a b).memory := by
  intro below inside
  unfold Bus.write
  split
  case isTrue => rfl
  case isFalse accepted =>
    have other : a ≠ below := by
      rintro rfl
      exact accepted inside
    rw [read_put, if_neg other]

theorem sameBelow_writeBlock (bus : Bus) (a : Word) (bs : List UInt8) :
    bus.memory.SameBelow (bus.writeBlock a bs).memory := by
  induction bs generalizing bus a with
  | nil => exact fun _ _ => rfl
  | cons b bs ih =>
    intro below inside
    exact (ih (bus.write a b) (a + 1) below inside).trans (sameBelow_write bus a b below inside)

/-- The small font is read where a small digit is pointed at. -/
theorem FontsInPlace.small {m : Memory} (h : m.FontsInPlace) (c : UInt8) :
    m.readBlock (smallDigit c) 5 = Font.glyph Font.small 5 (c.toNat % 16) := by
  have inside : 5 * (c.toNat % 16) + 5 ≤ 80 := by omega
  have length : Font.small.toList.length = 80 := Vector.length_toList
  have front : 5 * (c.toNat % 16) + 5 ≤ 0x200 := by omega
  rw [smallDigit, Font.smallHeight, m.readBlock_part front, h, fontArea, List.append_assoc,
    List.drop_append_of_le_length (by omega), List.take_append_of_le_length, Font.glyph]
  rw [List.length_drop]
  omega

theorem FontsInPlace.large {m : Memory} (h : m.FontsInPlace) (c : UInt8) :
    m.readBlock (largeDigit (c &&& 0xF)) 10 = Font.glyph Font.large 10 (c.toNat % 16) := by
  have digit : (c &&& 0xF).toNat = c.toNat % 16 := by
    rw [UInt8.toNat_and]
    exact Nat.and_two_pow_sub_one_eq_mod c.toNat 4
  have inside : 10 * (c.toNat % 16) + 10 ≤ 160 := by omega
  have small : Font.small.toList.length = 80 := Vector.length_toList
  have large : Font.large.toList.length = 160 := Vector.length_toList
  have front : 80 + 10 * (c.toNat % 16) + 10 ≤ 0x200 := by omega
  rw [largeDigit, Font.largeHeight, digit, m.readBlock_part front, h, fontArea, List.append_assoc,
    ← List.drop_drop, List.drop_left' small, List.drop_append_of_le_length (by omega),
    List.take_append_of_le_length, Font.glyph]
  rw [List.length_drop]
  omega

end Memory

namespace Machine

/-- Only the block stores write to memory, and these leave alone what lies below the start of
programs. -/
theorem sameBelow_step (m : Machine) : m.memory.SameBelow m.step.memory := by
  rcases m.step_same .ram with same | ⟨i, executed, writer⟩
  · intro below _
    have ram : m.step.memory.ram = m.memory.ram := same
    simp only [Memory.read, ram]
  · have read : m.fetched.memory = m.memory := by rw [fetched_eq]
    rw [step_of_executed? executed, ← read]
    cases i with
    | storeRange | decimal => exact Memory.sameBelow_writeBlock _ _ _
    | store x =>
      simp only [execute, store]
      rw [advanceIndex_eq]
      exact Memory.sameBelow_writeBlock _ _ _
    | _ => cases writer

theorem memory_start (m : Machine) (rom : Rom) : (m.start rom).memory = .ofRom rom := by
  obtain ⟨bus, memory, -, placed⟩ := m.exists_bus rom
  rw [start_eq, placed]
  exact memory

/-- An operation that carries out no instruction leaves memory alone or sets it up anew. -/
theorem apply_memory (m : Machine) {o : Operation} (quiet : o.runs = false) :
    (m.apply o).memory = m.memory ∨ ∃ rom, (m.apply o).memory = .ofRom rom := by
  cases o with
  | load s =>
    rcases m.apply_load s with same | ⟨rom, loaded⟩
    · exact .inl (by rw [same])
    · exact .inr ⟨rom, by rw [loaded, memory_start]⟩
  | loadFile path =>
    rcases m.apply_loadFile path with same | ⟨rom, loaded⟩
    · exact .inl (by rw [same])
    · exact .inr ⟨rom, by rw [loaded]; exact m.memory_start rom⟩
  | reset =>
    obtain ⟨bus, memory, -, placed⟩ := m.exists_bus m.rom
    exact .inr ⟨m.rom, by rw [apply, reset, placed]; exact memory⟩
  | unload => exact .inr ⟨.empty, rfl⟩
  | findBreakpoint => exact .inl (by rw [apply, findBreakpoint_eq])
  | step | tick | frame => cases quiet
  | _ => exact .inl rfl

theorem fontsInPlace_move {m : Machine} (h : m.memory.FontsInPlace) (mv : Move) :
    (m.move mv).memory.FontsInPlace := by
  cases mv with
  | step => exact h.congr m.sameBelow_step
  | host o quiet =>
    rcases m.apply_memory quiet with same | ⟨rom, placed⟩
    · rw [move, same]
      exact h
    · rw [move, placed]
      exact Memory.fontsInPlace_ofRom rom
  | _ => exact h

/-- A digit the index register has just been pointed at is the one that a register asked for. -/
structure PointsAtDigits (m : Machine) : Prop where
  small : ∀ x, m.executed? = some (.smallDigit x) →
    m.step.memory.readBlock m.step.i 5 = Font.glyph Font.small 5 ((m.v.get x).toNat % 16)
  large : ∀ x, m.executed? = some (.largeDigit x) →
    m.step.memory.readBlock m.step.i 10 = Font.glyph Font.large 10 ((m.v.get x).toNat % 16)

theorem pointsAtDigits {m : Machine} (h : m.memory.FontsInPlace) : m.PointsAtDigits := by
  have after := h.congr m.sameBelow_step
  have read : m.fetched.v = m.v := by rw [fetched_eq]
  constructor
  · intro x executed
    have points : m.step.i = Memory.smallDigit (m.v.get x) := by
      rw [step_of_executed? executed, ← read]
      rfl
    rw [points]
    exact after.small _
  · intro x executed
    have points : m.step.i = Memory.largeDigit (m.v.get x &&& 0xF) := by
      rw [step_of_executed? executed, ← read]
      rfl
    rw [points]
    exact after.large _

/-- **The fonts stay.** From a machine just switched on, whatever a host does and whatever programs
run, both fonts are in their places at every move, with zeros behind them up to the start of
programs; so a digit that a program points at is always the whole digit it asks for. -/
theorem fonts_in_place (random : Random) (h : List Turn) :
    Along (fun m => m.memory.FontsInPlace ∧ m.PointsAtDigits) (fresh random)
      ((fresh random).history h) := by
  have start : (fresh random).memory.FontsInPlace := by
    have blank : (fresh random).memory = .ofRom .empty := rfl
    rw [blank]
    exact Memory.fontsInPlace_ofRom .empty
  have kept : Along (fun m => m.memory.FontsInPlace) (fresh random) ((fresh random).history h) :=
    along_of_kept (fun m mv (inPlace : m.memory.FontsInPlace) => fontsInPlace_move inPlace mv)
      start _
  exact kept.mono fun _ inPlace => ⟨inPlace, pointsAtDigits inPlace⟩

end Machine

end XoChip
