import XoChip.Proofs.Checked.Run
import XoChip.Proofs.Skip

/-!
The listing beside the execution. An instruction is read twice: for its line, from its address on,
and to be carried out, word by word while execution moves behind each word. Main statement: both
find the same instruction, the same operands and the same bytes, and execution goes on behind these
bytes (`step_listed`).
-/

namespace XoChip

/-- Whether an instruction sends execution elsewhere, whatever the registers hold. -/
def Instruction.jumps : Instruction → Bool
  | .jump _ | .call _ | .ret | .jumpPlus _ => true
  | _ => false

namespace Machine

/-- Execution is to go on behind an instruction: that is no jump, no call, no return, no skip that
is taken and no sprite that has to wait. -/
structure GoesOn (m : Machine) (i : Instruction) : Prop where
  stays : i.jumps = false
  untaken : m.condition? i ≠ some true
  drawn : ∀ x y n, i = .sprite x y n → m.holdsSprites = false

/-- An instruction finds execution behind itself, and leaves it there. -/
theorem pc_execute {m : Machine} {i : Instruction} (h : m.GoesOn i) : (m.execute i).pc = m.pc := by
  cases condition : m.condition? i with
  | some c =>
    have untaken : c = false := by
      cases c with
      | true => exact absurd condition h.untaken
      | false => rfl
    rw [execute_of_condition? condition, untaken]
    rfl
  | none =>
    cases i with
    | jump | call | ret | jumpPlus => cases h.stays
    | skipEqual | skipNotEqual | skipSame | skipDifferent | skipPressed | skipReleased =>
      cases condition
    | sprite x y n =>
      simp only [execute, sprite, h.drawn x y n rfl, Bool.false_eq_true, ↓reduceIte]
      rfl
    | store | fetch =>
      simp only [execute, store, fetch]
      rw [advanceIndex_eq]
    | addIndex =>
      simp only [execute]
      rw [addIndex_eq]
    | saveFlags =>
      simp only [execute]
      rw [saveFlags_eq]
    | loadFlags =>
      simp only [execute]
      rw [loadFlags_eq]
    | _ => rfl

theorem pc_step {m : Machine} (awaited : m.waiting = false)
    (goesOn : ∀ i, m.next? = some i → m.GoesOn i) :
    m.step.pc = m.pc + UInt16.ofNat (Instruction.formOf m.next?).size := by
  have behind : m.fetched.pc = m.pc + UInt16.ofNat (Instruction.formOf m.next?).size := by
    rw [fetched_eq]
  cases next : m.next? with
  | none =>
    rw [step_of_none awaited next, ← next]
    exact behind
  | some i =>
    obtain ⟨stays, untaken, drawn⟩ := goesOn i next
    -- Reading changes no register, no key and no wait, so the skip is not taken afterwards either.
    have still : m.fetched.GoesOn i := by
      rw [fetched_eq]
      exact ⟨stays, untaken, drawn⟩
    rw [step_of_some awaited next, ← next]
    exact (pc_execute still).trans behind

end Machine

namespace Checked
open Machine

/-! ## What is carried out -/

/-- What stands where execution is, with its operands, and the machine behind it. -/
def readInstruction (m : Machine) :
    Option (Option Instruction × Vector Operand 3 × Machine) := do
  let word ← readWord m.memory m.pc
  let m := { m with latch := word, pc := m.pc + 2 }
  let next ← readWord m.memory m.pc
  let found := Instruction.decode? word next
  let os ← operands (Instruction.formOf found) word m.memory m.pc
  let long := (Instruction.formOf found).code = 0xF000
  some (found, os, if long then { m with pc := m.pc + 2 } else m)

/-- A step enters a line where execution stands, and carries out what it reads there on the operands
it finds for it. -/
def CarriesOut (m : Machine) (found : Option Instruction) (os : Vector Operand 3) : Prop :=
  ∃ behind done, readInstruction m.enter = some (found, os, behind) ∧
    perform (behind.report m.pc behind.latch found) os found = some done ∧
    m.step = { done with cycles := done.cycles + 1 }

/-- The bytes of what is carried out: two, and two more for a long address. -/
def byteCount : Option Instruction → Nat
  | some (.setIndexLong _) => 4
  | _ => 2

theorem byteCount_eq_four {found : Option Instruction} :
    byteCount found = 4 ↔ ∃ w, found = some (.setIndexLong w) := by
  unfold byteCount
  split <;> simp_all

theorem byteCount_eq_two {found : Option Instruction} (h : byteCount found ≠ 4) :
    byteCount found = 2 := by
  unfold byteCount at *
  split
  · exact absurd rfl h
  · rfl

theorem size_formOf (found : Option Instruction) :
    (Instruction.formOf found).size = byteCount found := by
  cases found with
  | none => rfl
  | some i => cases i <;> rfl

/-- The one code that has a word behind it. -/
theorem code_eq_long_iff : ∀ f ∈ Form.table, f.code = 0xF000 ↔ f.size = 4 := by
  decide

theorem code_formOf (found : Option Instruction) :
    (Instruction.formOf found).code = 0xF000 ↔ byteCount found = 4 := by
  rw [← size_formOf]
  cases found with
  | none => decide
  | some i => exact code_eq_long_iff _ (Form.form_mem_table i)

/-- Moving behind each word comes out behind the bytes. -/
theorem readInstruction_eq (m : Machine) :
    readInstruction m =
      some (m.next?, Operand.slots (operandsOf m.next?),
        m.moveBehind (m.memory.word m.pc) (byteCount m.next?)) := by
  have decoded : Instruction.decode? (m.memory.word m.pc) (m.memory.word (m.pc + 2)) = m.next? :=
    rfl
  simp only [readInstruction, readWord_eq, some_bind, operands_decode?, decoded, code_formOf,
    moveBehind]
  split
  case isTrue long =>
    rw [long, UInt16.add_assoc]
    rfl
  case isFalse short =>
    rw [byteCount_eq_two short]
    rfl

theorem carriesOut {m : Machine} (awaited : m.waiting = false) :
    CarriesOut m m.next? (Operand.slots (operandsOf m.next?)) := by
  have stepped : m.step =
      { m.fetched.perform m.next? with cycles := (m.fetched.perform m.next?).cycles + 1 } := by
    cases next : m.next? with
    | none => exact step_of_none awaited next
    | some i => exact step_of_some awaited next
  have behind : m.fetched =
      (m.enter.moveBehind (m.memory.word m.pc) (byteCount m.next?)).report m.pc
        (m.memory.word m.pc) m.next? := by
    rw [fetched, size_formOf]
  refine ⟨_, _, readInstruction_eq m.enter, ?_, stepped⟩
  rw [behind]
  exact perform_eq _ m.next?

/-- There is one thing to carry out. -/
theorem CarriesOut.eq {m : Machine} {found : Option Instruction} {os : Vector Operand 3}
    (h : CarriesOut m found os) :
    found = m.next? ∧ os = Operand.slots (operandsOf m.next?) := by
  obtain ⟨behind, _, read, -⟩ := h
  rw [readInstruction_eq] at read
  cases read
  exact ⟨rfl, rfl⟩

/-! ## What is listed -/

/-- A line shows an instruction: the label with the operands in their places, and its bytes, four of
a long load and two of anything else. -/
structure Shows (m : Memory) (a : Word) (found : Option Instruction) (os : Vector Operand 3)
    (l : Line) : Prop where
  address : l.address = a
  text : l.text = String.ofList (Piece.fill (Instruction.formOf found).label
    (os.toList.take (Instruction.formOf found).kinds.length))
  bytes : l.bytes = m.readBlock a (byteCount found)
  long : l.bytes.length = 4 ↔ ∃ w, found = some (.setIndexLong w)
  short : (∀ w, found ≠ some (.setIndexLong w)) → l.bytes.length = 2

theorem text_ofMemory (m : Memory) (a : Word) (index visit : Nat) :
    (Line.ofMemory m a index visit).text =
      String.ofList (Piece.fill (Instruction.formOf (m.instruction? a)).label
        (operandsOf (m.instruction? a))) := by
  unfold Line.ofMemory Line.text
  cases m.instruction? a <;> rfl

theorem take_slots (found : Option Instruction) :
    (Operand.slots (operandsOf found)).toList.take (Instruction.formOf found).kinds.length =
      operandsOf found := by
  have shown := slice_slots found
  unfold slice at shown
  split at shown
  · exact Option.some.inj shown
  · cases shown

theorem ofMemory_shows (m : Memory) (a : Word) (index visit : Nat) :
    Shows m a (m.instruction? a) (Operand.slots (operandsOf (m.instruction? a)))
      (.ofMemory m a index visit) := by
  have bytes : (Line.ofMemory m a index visit).bytes =
      m.readBlock a (byteCount (m.instruction? a)) := by
    rw [← size_formOf]
    rfl
  have length : (Line.ofMemory m a index visit).bytes.length = byteCount (m.instruction? a) := by
    rw [bytes, Memory.length_readBlock]
  refine ⟨rfl, ?_, bytes, length ▸ byteCount_eq_four, fun ordinary => ?_⟩
  · rw [text_ofMemory, take_slots]
  · rw [length]
    exact byteCount_eq_two fun long => (byteCount_eq_four.mp long).elim ordinary

/-- **What a step lists is what it carries out.** It reads its instruction and the operands from
where execution stands. A line it adds there shows them, and a line that was there stays as it was.
Execution goes on behind the bytes of the instruction, unless the instruction sends it elsewhere. -/
theorem step_listed {m : Machine} (awaited : m.waiting = false) :
    ∃ found os, CarriesOut m found os ∧
      (m.disassembly.get? m.pc = none →
        ∃ l, m.step.disassembly.get? m.pc = some l ∧ Shows m.memory m.pc found os l) ∧
      (∀ l, m.disassembly.get? m.pc = some l → m.step.disassembly.get? m.pc = some l) ∧
      ((∀ i, found = some i → m.GoesOn i) →
        m.step.pc = m.pc + UInt16.ofNat (byteCount found)) := by
  refine ⟨m.next?, _, carriesOut awaited, fun unlisted => ?_, fun l listed => ?_, fun goesOn => ?_⟩
  · refine ⟨_, ?_, ofMemory_shows m.memory m.pc m.disassembly.size m.disassembly.visits⟩
    rw [disassembly_step awaited, Disassembly.get?_visit, unlisted]
    exact if_pos ⟨rfl, rfl⟩
  · rw [disassembly_step awaited, Disassembly.get?_visit, listed, if_neg (by simp)]
  · rw [pc_step awaited goesOn, size_formOf]

/-- A long load at the end of memory, its address at the beginning, where the fonts are. -/
def longAtEnd : Machine :=
  { fresh default with memory := Memory.blank.put 0xFFFE 0xF0, pc := 0xFFFE }

theorem readBlock_longAtEnd : longAtEnd.memory.readBlock 0xFFFE 4 = [0xF0, 0x00, 0xF0, 0x90] := by
  change (List.range 4).map (fun k => (Memory.put _ _ _).read (0xFFFE + UInt16.ofNat k)) = _
  simp only [Memory.read_put, Memory.blank, Memory.read_ofRom]
  decide

theorem next?_longAtEnd : longAtEnd.next? = some (.setIndexLong 0xF090) := by
  change (Memory.put _ _ _).instruction? 0xFFFE = _
  simp only [Memory.instruction?, Memory.word, Memory.read_put, Memory.blank, Memory.read_ofRom]
  decide

/-- It is listed with the bytes of both ends, and execution goes on behind them. -/
theorem step_listed_longAtEnd :
    longAtEnd.waiting = false ∧
    (∃ l, longAtEnd.step.disassembly.get? 0xFFFE = some l ∧
      l.text = "i := long 0xF090 (61584)" ∧ l.bytes = [0xF0, 0x00, 0xF0, 0x90]) ∧
    longAtEnd.step.pc = 2 := by
  have awaited : longAtEnd.waiting = false := rfl
  -- What is carried out is named first: substituting it as it stands would have Lean evaluate it.
  obtain ⟨found, os, carried, listed, -, goesOn⟩ := step_listed awaited
  obtain ⟨long, address⟩ := carried.eq
  rw [next?_longAtEnd] at long address
  subst long address
  obtain ⟨l, here, shows⟩ := listed rfl
  refine ⟨rfl, ⟨l, here, ?_, shows.bytes.trans readBlock_longAtEnd⟩, ?_⟩
  · rw [shows.text]
    rfl
  · refine goesOn fun i h => ?_
    cases h
    exact ⟨rfl, nofun, nofun⟩

end Checked

end XoChip
