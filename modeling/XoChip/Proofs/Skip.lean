import XoChip.Proofs.Step

/-!
Conditional skips, and the length of what they pass over. A skip tells the long load by the one word
that is printed for it, decoding by fifteen more (`skipLength_eq_iff`). Past any of those a skip
does not get: it lands on the address that follows (`step_skip`).
-/

namespace XoChip

/-- `FX00` where X is not zero: a long load for decoding, an ordinary word for a skip. -/
def Word.unprintedLong (w : Word) : Prop :=
  w.nibble 3 = 0xF ∧ w.nibble 2 ≠ 0 ∧ w.lowByte = 0

theorem Word.eq_long_iff (w : Word) :
    w = 0xF000 ↔ w.nibble 3 = 0xF ∧ w.nibble 2 = 0 ∧ w.lowByte = 0 := by
  constructor
  · rintro rfl
    decide
  · rintro ⟨high, middle, low⟩
    have bound := w.toNat_lt
    simp only [← UInt16.toNat_inj, ← UInt8.toNat_inj, Fin.ext_iff, nibble, lowByte,
      Fin.val_ofNat, Nat.shiftRight_eq_div_pow, UInt16.toNat_toUInt8] at *
    simp at *
    omega

namespace Instruction

theorem ofSystem?_ne_long (y n : Fin 16) (w : Word) : ofSystem? y n ≠ some (.setIndexLong w) := by
  unfold ofSystem?
  split <;> nofun

theorem ofPair?_ne_long (x y n : Fin 16) (w : Word) : ofPair? x y n ≠ some (.setIndexLong w) := by
  unfold ofPair?
  split <;> nofun

theorem ofArithmetic?_ne_long (x y n : Fin 16) (w : Word) :
    ofArithmetic? x y n ≠ some (.setIndexLong w) := by
  unfold ofArithmetic?
  split <;> nofun

theorem ofKey?_ne_long (x : Fin 16) (low : UInt8) (w : Word) :
    ofKey? x low ≠ some (.setIndexLong w) := by
  unfold ofKey?
  split <;> nofun

theorem ofExtension?_eq_long {x : Fin 16} {low : UInt8} {next w : Word} :
    ofExtension? x low next = some (.setIndexLong w) ↔ low = 0 ∧ next = w := by
  unfold ofExtension?
  split
  · simp_all [← UInt8.toNat_inj]
  all_goals
    refine ⟨nofun, ?_⟩
    rintro ⟨rfl, -⟩
    contradiction

/-- Decoding takes a word for a long load whatever its second nibble. -/
theorem decode?_eq_long {w next target : Word} :
    decode? w next = some (.setIndexLong target) ↔
      w.nibble 3 = 0xF ∧ w.lowByte = 0 ∧ next = target := by
  unfold decode?
  split <;> grind [ofSystem?_ne_long, ofPair?_ne_long, ofArithmetic?_ne_long, ofKey?_ne_long,
    ofExtension?_eq_long]

theorem size_eq_two (i : Instruction) (h : ∀ w, i ≠ .setIndexLong w) : i.form.size = 2 := by
  cases i with
  | setIndexLong w => exact absurd rfl (h w)
  | _ => rfl

theorem size_formOf_decode? (w next : Word) :
    (formOf (decode? w next)).size = if w.nibble 3 = 0xF ∧ w.lowByte = 0 then 4 else 2 := by
  split
  · rename_i long
    rw [decode?_eq_long.mpr ⟨long.1, long.2, rfl⟩]
    rfl
  · rename_i short
    cases found : decode? w next with
    | none => rfl
    | some i =>
      apply size_eq_two
      rintro target rfl
      obtain ⟨high, low, _⟩ := decode?_eq_long.mp found
      exact short ⟨high, low⟩

end Instruction

namespace Machine

open Instruction

/-- The condition of a conditional skip. -/
def condition? (m : Machine) : Instruction → Option Bool
  | .skipEqual x b => some (m.v.get x = b)
  | .skipNotEqual x b => some (m.v.get x ≠ b)
  | .skipSame x y => some (m.v.get x = m.v.get y)
  | .skipDifferent x y => some (m.v.get x ≠ m.v.get y)
  | .skipPressed x => some (m.keys.get (Processor.keyOf (m.v.get x)))
  | .skipReleased x => some !m.keys.get (Processor.keyOf (m.v.get x))
  | _ => none

/-- The length of what stands at an address, in the eyes of decoding. -/
def lengthAt (m : Machine) (a : Word) : Word :=
  UInt16.ofNat (formOf (m.memory.instruction? a)).size

theorem lengthAt_eq (m : Machine) (a : Word) :
    m.lengthAt a =
      if (m.memory.word a).nibble 3 = 0xF ∧ (m.memory.word a).lowByte = 0 then 4 else 2 := by
  unfold lengthAt Memory.instruction?
  rw [size_formOf_decode?]
  split <;> rfl

/-- A skip and decoding disagree on the words of a long load that are not printed for it. -/
theorem skipLength_eq_iff (m : Machine) (a : Word) :
    skipLength (m.memory.word a) = m.lengthAt a ↔ ¬(m.memory.word a).unprintedLong := by
  unfold skipLength Word.unprintedLong
  rw [lengthAt_eq]
  grind [Word.eq_long_iff]

theorem execute_of_condition? {m : Machine} {i : Instruction} {c : Bool}
    (h : m.condition? i = some c) : m.execute i = m.skipIf c := by
  cases i with
  | skipEqual | skipSame | skipPressed | skipReleased =>
    cases h
    rfl
  | skipNotEqual | skipDifferent =>
    cases h
    exact congrArg m.skipIf decide_not.symm
  | _ => cases h

theorem size_of_condition? {m : Machine} {i : Instruction} {c : Bool}
    (h : m.condition? i = some c) : i.form.size = 2 := by
  apply size_eq_two
  rintro w rfl
  cases h

theorem pc_step_of_condition? {m : Machine} {i : Instruction} {c : Bool}
    (awaited : m.waiting = false) (here : m.next? = some i) (h : m.condition? i = some c) :
    m.step.pc = if c then m.pc + 2 + skipLength (m.memory.word (m.pc + 2)) else m.pc + 2 := by
  have fetched : m.fetched.condition? i = some c := by
    rw [fetched_eq]
    exact h
  have behind : m.fetched.pc = m.pc + 2 := by
    rw [fetched_eq, here]
    exact congrArg (m.pc + UInt16.ofNat ·) (size_of_condition? h)
  have same : m.fetched.memory = m.memory := by rw [fetched_eq]
  rw [step_of_some awaited here, execute_of_condition? fetched, skipIf]
  cases c with
  | true => simp only [↓reduceIte, behind, same]
  | false => simp only [Bool.false_eq_true, ↓reduceIte, behind]

/-- A skip that is taken passes over the whole of what decoding finds, but for one kind of word. -/
theorem passes_iff {m : Machine} {i : Instruction} (awaited : m.waiting = false)
    (here : m.next? = some i) (taken : m.condition? i = some true) :
    m.step.pc = m.pc + 2 + m.lengthAt (m.pc + 2) ↔
      ¬(m.memory.word (m.pc + 2)).unprintedLong := by
  have landed := pc_step_of_condition? awaited here taken
  rw [landed, ← skipLength_eq_iff]
  exact UInt16.add_right_inj _

/-- **Where a skip lands.** Not taken it goes on behind itself. Taken it passes over what stands
there, as long as decoding says, unless that is a long load by an unprinted word: then it stops at
the address that belongs to it. -/
theorem step_skip {m : Machine} {i : Instruction} {c : Bool} (awaited : m.waiting = false)
    (here : m.next? = some i) (condition : m.condition? i = some c) :
    (c = false → m.step.pc = m.pc + 2) ∧
    (c = true →
      (m.step.pc = m.pc + 2 + m.lengthAt (m.pc + 2) ↔
        ¬(m.memory.word (m.pc + 2)).unprintedLong)) ∧
    (c = true → (m.memory.word (m.pc + 2)).unprintedLong →
      m.step.pc = m.pc + 4 ∧ m.lengthAt (m.pc + 2) = 4) := by
  have landed := pc_step_of_condition? awaited here condition
  refine ⟨?_, ?_, ?_⟩
  · rintro rfl
    exact landed
  · rintro rfl
    exact passes_iff awaited here condition
  · rintro rfl ⟨high, middle, low⟩
    have ordinary : m.memory.word (m.pc + 2) ≠ 0xF000 := by
      intro long
      exact middle ((Word.eq_long_iff _).mp long).2.1
    rw [landed, lengthAt_eq]
    simp only [skipLength, ordinary, high, low, and_self, ↓reduceIte, and_true]
    exact UInt16.add_assoc m.pc 2 2

/-- A skip in front of the word `F100`. -/
def beforeUnprintedLong : Machine :=
  (fresh default).place ⟨#[0x30, 0x00, 0xF1, 0x00], by decide⟩

theorem next?_beforeUnprintedLong : beforeUnprintedLong.next? = some (.skipEqual 0 0) := by
  change (Memory.ofRom _).instruction? 0x200 = _
  rw [Memory.instruction?_ofRom]
  decide

theorem unprintedLong_beforeUnprintedLong :
    (beforeUnprintedLong.memory.word (beforeUnprintedLong.pc + 2)).unprintedLong := by
  change ((Memory.ofRom _).word 0x202).unprintedLong
  rw [Memory.word_ofRom]
  exact ⟨rfl, by decide, rfl⟩

theorem step_skip_beforeUnprintedLong :
    beforeUnprintedLong.waiting = false ∧ beforeUnprintedLong.next? = some (.skipEqual 0 0) ∧
    beforeUnprintedLong.condition? (.skipEqual 0 0) = some true ∧
    beforeUnprintedLong.step.pc = beforeUnprintedLong.pc + 4 := by
  have taken : beforeUnprintedLong.condition? (.skipEqual 0 0) = some true := by decide
  have landed := step_skip rfl next?_beforeUnprintedLong taken
  exact ⟨rfl, next?_beforeUnprintedLong, taken,
    (landed.2.2 rfl unprintedLong_beforeUnprintedLong).1⟩

/-- A skip need not pass over the whole of what decoding finds behind it. -/
theorem skip_falls_short :
    ¬∀ (m : Machine) (i : Instruction), m.waiting = false → m.next? = some i →
      m.condition? i = some true → m.step.pc = m.pc + 2 + m.lengthAt (m.pc + 2) := by
  intro passes
  have taken : beforeUnprintedLong.condition? (.skipEqual 0 0) = some true := by decide
  have passed := passes beforeUnprintedLong _ rfl next?_beforeUnprintedLong taken
  exact (passes_iff rfl next?_beforeUnprintedLong taken).mp passed
    unprintedLong_beforeUnprintedLong

end Machine

end XoChip
