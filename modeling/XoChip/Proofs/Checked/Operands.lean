import XoChip.Memory
import XoChip.Proofs.Checked.Basic
import XoChip.Proofs.Decoding

/-!
Operands cut out of a word by their positions. Main statements: the operands found at the positions
are those of the decoded instruction (`operands_of_decode?`), what is decoded is printed for the
word but for a second digit that decoding does not look at (`decode?_printed`), and operands placed
in an encoding are found again (`decode?_fill`).
-/

namespace XoChip

/-- The first operands of an instruction and registers named zero behind them. -/
def Operand.slots (os : List Operand) : Vector Operand 3 :=
  Vector.ofFn fun k => os.getD k.val (.register 0)

namespace Checked
open Instruction

def read (m : Memory) (a : Word) : Option UInt8 :=
  m.ram[a.toNat]?

def readWord (m : Memory) (a : Word) : Option Word := do
  let high ← read m a
  let low ← read m (a + 1)
  some (Word.ofBytes high low)

theorem read_eq (m : Memory) (a : Word) : read m a = some (m.read a) :=
  getElem?_fin m.ram a.toFin

theorem readWord_eq (m : Memory) (a : Word) : readWord m a = some (m.word a) := by
  simp only [readWord, read_eq]
  rfl

/-- The digit so many places from the right of the operand field. -/
def digit (w : Word) (position : Nat) : Option (Fin 16) := do
  let places ← mul 16 (position % 4) 4
  let field ← shiftRight 16 (w.toNat % 0x1000) places
  some (Fin.ofNat 16 field)

theorem digit_eq (w : Word) {position : Nat} (h : position < 3) :
    digit w position = some (w.nibble position) := by
  have places : position % 4 * 4 = 4 * position := by omega
  rw [digit, mul_eq (by omega), places]
  simp only [some_bind]
  rw [shiftRight_eq (by omega)]
  simp only [some_bind, Option.some.injEq, Fin.ext_iff, Fin.val_ofNat, Word.nibble,
    Nat.shiftRight_eq_div_pow]
  have : position = 0 ∨ position = 1 ∨ position = 2 := by omega
  rcases this with rfl | rfl | rfl <;> omega

/-- The operand of a kind at its place in the order of operands. -/
def operand (w : Word) (m : Memory) (next : Word) (index : Nat) :
    OperandKind → Option Operand
  | .register => do
    let position ← sub 2 index
    (digit w position).map .register
  | .nibble => do
    let position ← sub 2 index
    (digit w position).map .nibble
  | .byte => do
    let position ← sub 2 index
    let high ← digit w position
    let low ← digit w (position - 1)
    some (.byte (UInt8.ofNat (16 * high.val + low.val)))
  | .short => do
    let _ ← sub 2 index
    some (.short w.short)
  | .word => do
    let _ ← sub 2 index
    (readWord m next).map .word

/-- Fills the slots from `index` on. -/
def walk (w : Word) (m : Memory) (next : Word) :
    Nat → List OperandKind → Vector Operand 3 → Option (Vector Operand 3)
  | _, [], slots => some slots
  | index, k :: ks, slots => do
    let o ← operand w m next index k
    let slots ← put slots index o
    walk w m next (index + 1) ks slots

/-- The operands of a form in a word. Those of a scroll and of the choice of planes do not stand
where the walk looks. -/
def operands (f : Form) (w : Word) (m : Memory) (next : Word) : Option (Vector Operand 3) :=
  if f.code = 0x00C0 ∨ f.code = 0x00D0 then do
    let n ← digit w 0
    put (Operand.slots []) 0 (.nibble n)
  else if f.code = 0xF001 then do
    let n ← digit w 2
    put (Operand.slots []) 0 (.nibble n)
  else walk w m next 0 f.kinds (Operand.slots [])

/-! ## Operands by their kinds -/

section
variable (w : Word) (m : Memory) (next : Word)

theorem operand_register {index : Nat} (h : index ≤ 2) :
    operand w m next index .register = some (.register (w.nibble (2 - index))) := by
  simp only [operand, sub_eq h, digit_eq w (Nat.lt_succ_of_le (Nat.sub_le 2 index)), some_bind,
    Option.map_some]

theorem operand_nibble {index : Nat} (h : index ≤ 2) :
    operand w m next index .nibble = some (.nibble (w.nibble (2 - index))) := by
  simp only [operand, sub_eq h, digit_eq w (Nat.lt_succ_of_le (Nat.sub_le 2 index)), some_bind,
    Option.map_some]

theorem operand_byte : operand w m next 1 .byte = some (.byte w.lowByte) := by
  have high : digit w (2 - 1) = some (w.nibble 1) := digit_eq w (by decide)
  have low : digit w (2 - 1 - 1) = some (w.nibble 0) := digit_eq w (by decide)
  have value : UInt8.ofNat (16 * (w.nibble 1).val + (w.nibble 0).val) = w.lowByte := by
    simp only [← UInt8.toNat_inj, UInt8.toNat_ofNat', Word.lowByte, UInt16.toNat_toUInt8,
      Word.val_nibble]
    omega
  simp only [operand, sub_eq (Nat.le_succ 1), high, low, some_bind, value]

theorem operand_short {index : Nat} (h : index ≤ 2) :
    operand w m next index .short = some (.short w.short) := by
  simp only [operand, sub_eq h, some_bind]

theorem operand_word {index : Nat} (h : index ≤ 2) :
    operand w m next index .word = some (.word (m.word next)) := by
  simp only [operand, sub_eq h, readWord_eq, some_bind, Option.map_some]

/-- Whether the operands stand where the walk looks. -/
def walked (f : Form) : Bool :=
  !(f.code == 0x00C0 || f.code == 0x00D0 || f.code == 0xF001)

theorem operands_walked {f : Form} {ks : List OperandKind} (h : walked f = true)
    (kinds : f.kinds = ks) : operands f w m next = walk w m next 0 ks (Operand.slots []) := by
  simp only [walked, Bool.not_eq_true', Bool.or_eq_false_iff, beq_eq_false_iff_ne] at h
  rw [operands, if_neg (not_or.mpr h.1), if_neg h.2, kinds]

theorem walk_one {k : OperandKind} {o : Operand} (first : operand w m next 0 k = some o) :
    walk w m next 0 [k] (Operand.slots []) = some (Operand.slots [o]) := by
  simp only [walk, first, some_bind]
  rfl

theorem walk_two {k l : OperandKind} {o p : Operand} (first : operand w m next 0 k = some o)
    (second : operand w m next 1 l = some p) :
    walk w m next 0 [k, l] (Operand.slots []) = some (Operand.slots [o, p]) := by
  simp only [walk, first, second, some_bind]
  rfl

theorem walk_three {k l j : OperandKind} {o p q : Operand} (first : operand w m next 0 k = some o)
    (second : operand w m next 1 l = some p) (third : operand w m next 2 j = some q) :
    walk w m next 0 [k, l, j] (Operand.slots []) = some (Operand.slots [o, p, q]) := by
  simp only [walk, first, second, third, some_bind]
  rfl

theorem operands_none {f : Form} (h : walked f = true) (kinds : f.kinds = []) :
    operands f w m next = some (Operand.slots []) := by
  rw [operands_walked w m next h kinds]
  rfl

theorem operands_register {f : Form} (h : walked f = true) (kinds : f.kinds = [.register]) :
    operands f w m next = some (Operand.slots [.register (w.nibble 2)]) :=
  (operands_walked w m next h kinds).trans
    (walk_one w m next (operand_register w m next (Nat.zero_le 2)))

theorem operands_short {f : Form} (h : walked f = true) (kinds : f.kinds = [.short]) :
    operands f w m next = some (Operand.slots [.short w.short]) :=
  (operands_walked w m next h kinds).trans
    (walk_one w m next (operand_short w m next (Nat.zero_le 2)))

theorem operands_registers {f : Form} (h : walked f = true)
    (kinds : f.kinds = [.register, .register]) :
    operands f w m next =
      some (Operand.slots [.register (w.nibble 2), .register (w.nibble 1)]) :=
  (operands_walked w m next h kinds).trans
    (walk_two w m next (operand_register w m next (Nat.zero_le 2))
      (operand_register w m next (Nat.le_succ 1)))

theorem operands_byte {f : Form} (h : walked f = true) (kinds : f.kinds = [.register, .byte]) :
    operands f w m next = some (Operand.slots [.register (w.nibble 2), .byte w.lowByte]) :=
  (operands_walked w m next h kinds).trans
    (walk_two w m next (operand_register w m next (Nat.zero_le 2)) (operand_byte w m next))

theorem operands_scroll {f : Form} (h : f.code = 0x00C0 ∨ f.code = 0x00D0) :
    operands f w m next = some (Operand.slots [.nibble (w.nibble 0)]) := by
  rw [operands, if_pos h, digit_eq w (Nat.zero_lt_succ 2)]
  rfl

theorem operands_planes {f : Form} (h : f.code = 0xF001) :
    operands f w m next = some (Operand.slots [.nibble (w.nibble 2)]) := by
  rw [operands, if_neg (by simp [h]), if_pos h, digit_eq w (Nat.lt_succ_self 2)]
  rfl

theorem operands_of_decode? {i : Instruction} (h : decode? w (m.word next) = some i) :
    operands i.form w m next = some (Operand.slots i.operands) := by
  dsimp only [decode?] at h
  split at h
  case h_1 =>
    unfold ofSystem? at h
    split at h <;> cases h
    case h_1 | h_2 =>
      exact operands_scroll w m next (by first | exact .inl rfl | exact .inr rfl)
    all_goals exact operands_none w m next rfl rfl
  case h_6 =>
    unfold ofPair? at h
    split at h <;> cases h
    all_goals exact operands_registers w m next rfl rfl
  case h_9 =>
    unfold ofArithmetic? at h
    split at h <;> cases h
    all_goals exact operands_registers w m next rfl rfl
  case h_10 =>
    split at h <;> cases h
    exact operands_registers w m next rfl rfl
  case h_14 =>
    cases h
    exact (operands_walked w m next rfl rfl).trans
      (walk_three w m next (operand_register w m next (Nat.zero_le 2))
        (operand_register w m next (Nat.le_succ 1)) (operand_nibble w m next (Nat.le_refl 2)))
  case h_15 =>
    unfold ofKey? at h
    split at h <;> cases h
    all_goals exact operands_register w m next rfl rfl
  case h_16 =>
    unfold ofExtension? at h
    split at h <;> cases h
    case h_1 =>
      exact (operands_walked w m next rfl rfl).trans
        (walk_one w m next (operand_word w m next (Nat.zero_le 2)))
    case h_2 => exact operands_planes w m next rfl
    case h_3 => exact operands_none w m next rfl rfl
    all_goals exact operands_register w m next rfl rfl
  all_goals cases h
  case h_2 | h_3 | h_11 | h_12 => exact operands_short w m next rfl rfl
  all_goals exact operands_byte w m next rfl rfl

end

/-! ## Decoding and its encodings -/

/-- No form but those of family 0 begins with a zero, and these have one for their second digit. -/
theorem zeroSecond_of_system {f : Form} (entry : f ∈ Form.table) {w : Word}
    (system : w.nibble 3 = 0) (h : f.Matches w) : f.ZeroSecond := by
  have first : f.encoding[0].Admits 0 := system ▸ h 0
  obtain ⟨i, -, rfl⟩ := List.mem_map.mp entry
  cases i <;> first | rfl | cases first

/-- A word of family 0 is seen without its second digit. -/
theorem matches_seen_iff {f : Form} (entry : f ∈ Form.table) {w : Word} (system : w.nibble 3 = 0) :
    f.Matches (f.seen w) ↔ f.Matches w.withoutSecond := by
  have family {v : Word} (first : v.nibble 3 = 0) (h : f.Matches v) : f.seen w = w.withoutSecond :=
    if_pos (zeroSecond_of_system entry first h)
  constructor
  · intro h
    have first : (f.seen w).nibble 3 = 0 := by
      unfold Form.seen
      split
      · exact w.nibble_withoutSecond.1.trans system
      · exact system
    exact family first h ▸ h
  · intro h
    rw [family (w.nibble_withoutSecond.1.trans system) h]
    exact h

/-- Decoding finds what is printed for a word, and the operands put back into the encoding make the
word again, but that a second digit for which a zero is printed is not looked at. Two words mean the
same only if they differ there, and a word of family 0 means nothing only if no other one that
differs there is printed. -/
theorem decode?_printed (w : Word) (m : Memory) (next : Word) :
    (∀ f, (∃ i, decode? w (m.word next) = some i ∧ i.form = f) ↔
      f ∈ Form.table ∧ f.Matches (f.seen w)) ∧
    (∀ i, decode? w (m.word next) = some i →
      operands i.form w m next = some (Operand.slots i.operands) ∧
      i.form.fill i.operands = i.form.seen w) ∧
    (∀ w' next' i, decode? w (m.word next) = some i → decode? w' next' = some i → w' ≠ w →
      i.form.ZeroSecond ∧ w'.withoutSecond = w.withoutSecond) ∧
    (w.nibble 3 = 0 →
      (decode? w (m.word next) = none ↔ ∀ f ∈ Form.table, ¬f.Matches w.withoutSecond)) := by
  refine ⟨exists_decode?_iff w _, fun i found => ?_, fun w' next' i found found' other => ?_,
    fun system => ?_⟩
  · exact ⟨operands_of_decode? w m next found, (reads_of_decode? found).encode⟩
  · have same : i.form.seen w' = i.form.seen w :=
      (reads_of_decode? found').encode.symm.trans (reads_of_decode? found).encode
    unfold Form.seen at same
    split at same
    · exact ⟨‹_›, same⟩
    · exact absurd same other
  · rw [decode?_eq_none_iff]
    exact forall₂_congr fun f entry => not_congr (matches_seen_iff entry system)

/-- The word 01E0 clears the display as 00E0 does. -/
theorem decode?_printed_clear :
    (decode? 0x01E0 0 = some .clear ∧ decode? 0x00E0 0 = some .clear) ∧
    Instruction.clear.form.fill Instruction.clear.operands = Instruction.clear.form.seen 0x01E0 :=
  ⟨⟨rfl, rfl⟩, ((decode?_printed 0x01E0 .blank 0x202).2.1 .clear rfl).2⟩

/-- It is none of the printed words, and not what its operands make of the encoding. -/
theorem clear_not_printed :
    decode? 0x01E0 0 = some .clear ∧ ¬Instruction.clear.form.Matches 0x01E0 ∧
    Instruction.clear.form.fill Instruction.clear.operands ≠ 0x01E0 ∧
    decode? 0x00E0 0 = decode? 0x01E0 0 :=
  ⟨rfl, by decide, by decide, rfl⟩

/-- Operands placed in an encoding are found again, a word among them if it follows in memory. -/
theorem decode?_fill {f : Form} (entry : f ∈ Form.table) {os : List Operand}
    (kinds : os.map Operand.kind = f.kinds) (m : Memory) (next : Word)
    (stored : ∀ v, os = [.word v] →
      m.read next = (v >>> 8).toUInt8 ∧ m.read (next + 1) = v.toUInt8) :
    ∃ i, decode? (f.fill os) (m.word next) = some i ∧ i.form = f ∧ i.operands = os ∧
      operands f (f.fill os) m next = some (Operand.slots os) := by
  have follows (v : Word) (h : os = [.word v]) : m.word next = v := by
    obtain ⟨high, low⟩ := stored v h
    rw [Memory.word, high, low, Word.ofBytes_bytes]
  obtain ⟨i, found, rfl, rfl⟩ := exists_of_kinds entry kinds follows
  exact ⟨i, found, rfl, rfl, operands_of_decode? _ m next found⟩

/-- A long address at the end of memory is continued at its beginning. -/
theorem decode?_fill_atEnd :
    let m := (Memory.blank.put 0xFFFF 0xAB).put 0 0xCD
    (setIndexLong 0).form ∈ Form.table ∧
    [Operand.word 0xABCD].map Operand.kind = (setIndexLong 0).form.kinds ∧
    m.read 0xFFFF = 0xAB ∧ m.read (0xFFFF + 1) = 0xCD ∧
    ∃ i, decode? ((setIndexLong 0).form.fill [.word 0xABCD]) (m.word 0xFFFF) = some i ∧
      i.form = (setIndexLong 0).form ∧ i.operands = [.word 0xABCD] ∧
      operands (setIndexLong 0).form ((setIndexLong 0).form.fill [.word 0xABCD]) m 0xFFFF =
        some (Operand.slots [.word 0xABCD]) := by
  intro m
  have high : m.read 0xFFFF = 0xAB := by
    simp only [m, Memory.read_put]
    rfl
  have low : m.read (0xFFFF + 1) = 0xCD := by
    simp only [m, Memory.read_put]
    rfl
  refine ⟨Form.form_mem_table _, rfl, high, low, ?_⟩
  refine decode?_fill (Form.form_mem_table _) rfl m 0xFFFF fun v stored => ?_
  cases stored
  exact ⟨high, low⟩

end Checked

end XoChip
