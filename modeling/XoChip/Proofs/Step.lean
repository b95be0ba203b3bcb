import XoChip.Machine.Operation

/-!
A step taken apart: execution moves behind the instruction and writes it down, then the instruction
is carried out. Main statements: what no instruction changes (`execute_eq_writing`), and which
instructions can change whether execution goes on (`execute_control`).
-/

namespace XoChip

/-- Whether an instruction can halt the machine, make it wait or end a wait. -/
def Instruction.controls : Instruction → Bool
  | .exit | .sprite _ _ _ | .awaitKey _ => true
  | _ => false

namespace Bus

theorem writeBlock_eq (bus : Bus) (a : Word) (bs : List UInt8) :
    bus.writeBlock a bs =
      ⟨{ bus.memory with ram := (bus.writeBlock a bs).memory.ram },
        (bus.writeBlock a bs).monitor⟩ := by
  induction bs generalizing bus a with
  | nil => rfl
  | cons b bs ih =>
    have written : (bus.write a b) =
        ⟨{ bus.memory with ram := (bus.write a b).memory.ram }, (bus.write a b).monitor⟩ := by
      unfold Bus.write
      split <;> rfl
    rw [Bus.writeBlock, ih, written]

theorem pop_eq (bus : Bus) :
    bus.pop.2 = ⟨{ bus.memory with stack := bus.pop.2.memory.stack }, bus.pop.2.monitor⟩ := by
  unfold Bus.pop
  split <;> rfl

end Bus

namespace Memory

theorem length_readBlock (m : Memory) (a : Word) (count : Nat) :
    (m.readBlock a count).length = count := by
  rw [readBlock, List.length_map, List.length_range]

theorem word_ofRom (rom : Rom) (a : Word) :
    (ofRom rom).word a = Word.ofBytes (placed rom a.toNat) (placed rom (a + 1).toNat) := by
  simp only [word, read_ofRom]

theorem instruction?_ofRom (rom : Rom) (a : Word) :
    (ofRom rom).instruction? a =
      Instruction.decode? (Word.ofBytes (placed rom a.toNat) (placed rom (a + 1).toNat))
        (Word.ofBytes (placed rom (a + 2).toNat) (placed rom (a + 2 + 1).toNat)) := by
  simp only [instruction?, word_ofRom]

end Memory

namespace Display

theorem plotAll_eq (d : Display) (pixels : List (Fin 2 × Nat × Nat)) :
    (d.plotAll pixels).2 = { d with planes := (d.plotAll pixels).2.planes } := by
  induction pixels generalizing d with
  | nil => rfl
  | cons pixel rest ih => exact ih _

end Display

namespace Monitor

theorem write_eq (m : Monitor) (n : Notice) : m.write n = { m with log := (m.write n).log } := by
  unfold write
  split <;> rfl

end Monitor

namespace Machine

/-- The instruction execution stands at. -/
def next? (m : Machine) : Option Instruction :=
  m.memory.instruction? m.pc

/-- The machine as the instruction it stands at finds it. -/
def fetched (m : Machine) : Machine :=
  (m.enter.moveBehind (m.memory.word m.pc) (Instruction.formOf m.next?).size).report
    m.pc (m.memory.word m.pc) m.next?

theorem report_eq (m : Machine) (address word : Word) (found : Option Instruction) :
    m.report address word found =
      { m with monitor := (m.report address word found).monitor } := by
  unfold report
  split <;> rfl

theorem fetched_eq (m : Machine) :
    m.fetched =
      { m with
        disassembly := m.disassembly.visit m.memory m.pc
        latch := m.memory.word m.pc
        pc := m.pc + UInt16.ofNat (Instruction.formOf m.next?).size
        monitor := m.fetched.monitor } := by
  unfold fetched
  rw [report_eq]
  rfl

theorem step_of_waiting {m : Machine} (h : m.waiting = true) : m.step = m := by
  simp only [step, h, ↓reduceIte]

theorem step_of_some {m : Machine} {i : Instruction} (h : m.waiting = false)
    (hi : m.next? = some i) :
    m.step = { m.fetched.execute i with cycles := (m.fetched.execute i).cycles + 1 } := by
  have hi' : m.memory.instruction? m.pc = some i := hi
  simp only [step, h, hi', fetched, hi]
  rfl

theorem step_of_none {m : Machine} (h : m.waiting = false) (hi : m.next? = none) :
    m.step = { m.fetched with cycles := m.fetched.cycles + 1 } := by
  have hi' : m.memory.instruction? m.pc = none := hi
  simp only [step, h, hi', fetched, hi]
  rfl

/-! ## What an instruction writes -/

theorem skipIf_eq (m : Machine) (c : Bool) : m.skipIf c = { m with pc := (m.skipIf c).pc } := by
  unfold skipIf
  split <;> rfl

theorem addIndex_eq (m : Machine) (x : Register) :
    m.addIndex x = { m with i := (m.addIndex x).i, v := (m.addIndex x).v } := by
  simp only [addIndex]
  split <;> rfl

theorem advanceIndex_eq (m : Machine) (x : Register) :
    m.advanceIndex x = { m with i := (m.advanceIndex x).i } := by
  unfold advanceIndex
  split <;> rfl

theorem saveFlags_eq (m : Machine) (x : Register) :
    m.saveFlags x =
      { m with files := (m.saveFlags x).files, monitor := (m.saveFlags x).monitor } := by
  unfold saveFlags
  split
  · rfl
  · split <;> rfl

theorem loadFlags_eq (m : Machine) (x : Register) :
    m.loadFlags x = { m with v := (m.loadFlags x).v, monitor := (m.loadFlags x).monitor } := by
  unfold loadFlags
  split
  · rfl
  · split <;> rfl

theorem returnFromCall_eq (m : Machine) :
    m.returnFromCall =
      { m with
        pc := m.returnFromCall.pc
        memory := { m.memory with stack := m.returnFromCall.memory.stack }
        monitor := m.returnFromCall.monitor } := by
  have popped := m.toBus.pop_eq
  unfold returnFromCall
  exact congrArg (fun bus => { m with toBus := bus, pc := m.toBus.pop.1 }) popped

theorem drawSprite_eq (m : Machine) (x y : Register) (n : Fin 16) :
    m.drawSprite x y n =
      { m with
        display := { m.display with planes := (m.drawSprite x y n).display.planes }
        v := (m.drawSprite x y n).v
        frameWait := (m.drawSprite x y n).frameWait } := by
  have drawn (pixels : List (Fin 2 × Nat × Nat)) := m.display.plotAll_eq pixels
  unfold drawSprite
  simp only [Display.draw]
  rw [drawn]

/-- A machine with the parts of another that instructions write. -/
def writing (m m' : Machine) : Machine :=
  { m with
    memory := { m.memory with
      ram := m'.memory.ram
      stack := m'.memory.stack
      pattern := m'.memory.pattern
      beep := m'.memory.beep }
    monitor := m'.monitor
    v := m'.v
    pc := m'.pc
    i := m'.i
    delay := m'.delay
    sound := m'.sound
    pitch := m'.pitch
    pitchDirty := m'.pitchDirty
    halted := m'.halted
    keyWait := m'.keyWait
    frameWait := m'.frameWait
    display := { m'.display with palette := m.display.palette }
    random := m'.random
    files := m'.files }

/-- No instruction writes any other part. -/
theorem execute_eq_writing (m : Machine) (i : Instruction) :
    m.execute i = m.writing (m.execute i) := by
  cases i with
  | ret =>
    simp only [execute]
    rw [returnFromCall_eq]
    rfl
  | sprite x y n =>
    simp only [execute, sprite]
    split
    · rfl
    · rw [drawSprite_eq]
      rfl
  | storeRange | decimal =>
    simp only [execute, storeRange]
    rw [Bus.writeBlock_eq]
    rfl
  | store =>
    simp only [execute, store]
    rw [advanceIndex_eq, Bus.writeBlock_eq]
    rfl
  | fetch =>
    simp only [execute, fetch]
    rw [advanceIndex_eq]
    rfl
  | addIndex =>
    simp only [execute]
    rw [addIndex_eq]
    rfl
  | saveFlags =>
    simp only [execute]
    rw [saveFlags_eq]
    rfl
  | loadFlags =>
    simp only [execute]
    rw [loadFlags_eq]
    rfl
  | skipEqual | skipNotEqual | skipSame | skipDifferent | skipPressed | skipReleased =>
    simp only [execute]
    rw [skipIf_eq]
    rfl
  | audio =>
    simp only [execute, fetchPattern]
    rfl
  | _ => rfl

/-- What no program can change stays: the settings of the host, and the program as it was loaded. -/
structure SameSettings (m m' : Machine) : Prop where
  dialect : m'.dialect = m.dialect
  breakpoints : m'.breakpoints = m.breakpoints
  keys : m'.keys = m.keys
  profile : m'.profile = m.profile
  frameLength : m'.frameLength = m.frameLength
  palette : m'.display.palette = m.display.palette
  stoppedAt : m'.stoppedAt = m.stoppedAt
  rom : m'.rom = m.rom
  romPath : m'.romPath = m.romPath
  romSize : m'.memory.romSize = m.memory.romSize

theorem SameSettings.refl (m : Machine) : m.SameSettings m :=
  ⟨rfl, rfl, rfl, rfl, rfl, rfl, rfl, rfl, rfl, rfl⟩

theorem SameSettings.trans {m₁ m₂ m₃ : Machine} (h : m₁.SameSettings m₂)
    (h' : m₂.SameSettings m₃) : m₁.SameSettings m₃ :=
  ⟨h'.dialect.trans h.dialect, h'.breakpoints.trans h.breakpoints, h'.keys.trans h.keys,
    h'.profile.trans h.profile, h'.frameLength.trans h.frameLength,
    h'.palette.trans h.palette, h'.stoppedAt.trans h.stoppedAt, h'.rom.trans h.rom,
    h'.romPath.trans h.romPath, h'.romSize.trans h.romSize⟩

theorem fetched_sameSettings (m : Machine) : m.SameSettings m.fetched := by
  rw [fetched_eq]
  constructor <;> rfl

theorem execute_sameSettings (m : Machine) (i : Instruction) : m.SameSettings (m.execute i) := by
  rw [execute_eq_writing]
  constructor <;> rfl

theorem step_sameSettings (m : Machine) : m.SameSettings m.step := by
  cases hw : m.waiting with
  | true =>
    rw [step_of_waiting hw]
    exact .refl m
  | false =>
    cases hi : m.next? with
    | none =>
      rw [step_of_none hw hi]
      exact { m.fetched_sameSettings with }
    | some i =>
      rw [step_of_some hw hi]
      exact { m.fetched_sameSettings.trans (m.fetched.execute_sameSettings i) with }

/-! ## Whether execution goes on -/

/-- Only an exit, a sprite and the wait for a key bear on whether execution goes on. -/
theorem execute_control (m : Machine) {i : Instruction} (h : i.controls = false) :
    (m.execute i).halted = m.halted ∧ (m.execute i).keyWait = m.keyWait ∧
    (m.execute i).frameWait = m.frameWait := by
  cases i with
  | exit | sprite | awaitKey => cases h
  | store | fetch =>
    simp only [execute, store, fetch]
    rw [advanceIndex_eq]
    exact ⟨rfl, rfl, rfl⟩
  | addIndex =>
    simp only [execute]
    rw [addIndex_eq]
    exact ⟨rfl, rfl, rfl⟩
  | saveFlags =>
    simp only [execute]
    rw [saveFlags_eq]
    exact ⟨rfl, rfl, rfl⟩
  | loadFlags =>
    simp only [execute]
    rw [loadFlags_eq]
    exact ⟨rfl, rfl, rfl⟩
  | skipEqual | skipNotEqual | skipSame | skipDifferent | skipPressed | skipReleased =>
    simp only [execute]
    rw [skipIf_eq]
    exact ⟨rfl, rfl, rfl⟩
  | _ => exact ⟨rfl, rfl, rfl⟩

theorem fetched_control (m : Machine) :
    m.fetched.halted = m.halted ∧ m.fetched.keyWait = m.keyWait ∧
    m.fetched.frameWait = m.frameWait := by
  rw [fetched_eq]
  exact ⟨rfl, rfl, rfl⟩

/-- Nothing but the log tells that an instruction was read. -/
theorem fetched_monitor {m : Machine} {i : Instruction} (h : m.next? = some i) :
    m.fetched.monitor = { m.monitor with log := m.fetched.monitor.log } := by
  have read : m.fetched.monitor =
      m.monitor.write (.executed m.pc (m.memory.word m.pc) i.form) := by
    simp only [fetched, h]
    rfl
  rw [read]
  exact Monitor.write_eq _ _

/-- What a step does to the course of execution. -/
inductive Course (m : Machine) : Prop
  /-- A key is awaited. -/
  | waits (waiting : m.waiting = true) (same : m.step = m)
  /-- Execution ends. -/
  | exits (next : m.next? = some .exit) (halted : m.step.halted = true)
      (idle : m.step.frameWait = .idle)
  /-- From now on a key is awaited. -/
  | asks (x : Register) (next : m.next? = some (.awaitKey x)) (halted : m.step.halted = m.halted)
      (waiting : m.step.waiting = true) (frameWait : m.step.frameWait = m.frameWait)
  /-- A sprite is held back, and execution stands where it stood. -/
  | holds (x y : Register) (n : Fin 16) (next : m.next? = some (.sprite x y n))
      (awaited : m.waiting = false) (hold : m.holdsSprites = true) (log : Array Notice)
      (same : m.step =
        { m with
          latch := m.memory.word m.pc
          cycles := m.cycles + 1
          frameWait := .pending
          disassembly := m.disassembly.visit m.memory m.pc
          monitor := { m.monitor with log := log } })
  /-- A sprite is drawn. -/
  | draws (x y : Register) (n : Fin 16) (next : m.next? = some (.sprite x y n))
      (awaited : m.waiting = false) (hold : m.holdsSprites = false) (pc : m.step.pc = m.pc + 2)
      (display : m.step.display = (m.drawSprite x y n).display)
      (v : m.step.v = (m.drawSprite x y n).v)
      (halted : m.step.halted = m.halted) (waiting : m.step.waiting = false)
      (frameWait : m.step.frameWait = if m.dialect.vblank then .idle else m.frameWait)
  /-- Any other instruction, or a word that is none. -/
  | goes (next : ∀ i, m.next? = some i → i.controls = false)
      (halted : m.step.halted = m.halted) (waiting : m.step.waiting = false)
      (frameWait : m.step.frameWait = m.frameWait)

theorem course_of_holds {m : Machine} {x y : Register} {n : Fin 16} (hw : m.waiting = false)
    (hi : m.next? = some (.sprite x y n)) (hold : m.holdsSprites = true) : m.Course := by
  refine .holds x y n hi hw hold m.fetched.monitor.log ?_
  have held : m.fetched.execute (.sprite x y n) = m.fetched.holdSprite := by
    have : m.fetched.holdsSprites = true := by
      rw [fetched_eq]
      exact hold
    simp only [execute, sprite, this, ↓reduceIte]
  rw [step_of_some hw hi, held, fetched_eq, fetched_monitor hi, hi]
  simp only [holdSprite, Instruction.formOf]
  have back : m.pc + UInt16.ofNat (Instruction.sprite x y n).form.size - 2 = m.pc :=
    UInt16.add_sub_cancel m.pc 2
  simp only [back]

/-- Reading the instruction has no bearing on what a sprite looks like. -/
theorem drawSprite_fetched (m : Machine) (x y : Register) (n : Fin 16) :
    m.fetched.drawSprite x y n =
      { m.fetched with
        display := (m.drawSprite x y n).display
        v := (m.drawSprite x y n).v
        frameWait := if m.dialect.vblank then .idle else m.frameWait } := by
  rw [fetched_eq]
  rfl

/-- A sprite that is not held back is drawn, and execution moves on. -/
theorem step_of_free {m : Machine} {x y : Register} {n : Fin 16} (hw : m.waiting = false)
    (hi : m.next? = some (.sprite x y n)) (hold : m.holdsSprites = false) :
    m.step =
      { m with
        display := (m.drawSprite x y n).display
        v := (m.drawSprite x y n).v
        pc := m.pc + 2
        latch := m.memory.word m.pc
        cycles := m.cycles + 1
        frameWait := if m.dialect.vblank then .idle else m.frameWait
        disassembly := m.disassembly.visit m.memory m.pc
        monitor := { m.monitor with log := m.fetched.monitor.log } } := by
  have drawn : m.fetched.execute (.sprite x y n) = m.fetched.drawSprite x y n := by
    have : m.fetched.holdsSprites = false := by
      rw [fetched_eq]
      exact hold
    simp only [execute, sprite, this, Bool.false_eq_true, ↓reduceIte]
  rw [step_of_some hw hi, drawn, drawSprite_fetched, fetched_eq, fetched_monitor hi, hi]
  rfl

theorem course_of_draws {m : Machine} {x y : Register} {n : Fin 16} (hw : m.waiting = false)
    (hi : m.next? = some (.sprite x y n)) (hold : m.holdsSprites = false) : m.Course := by
  have stepped := step_of_free hw hi hold
  apply Course.draws x y n hi hw hold <;> rw [stepped]
  exact hw

/-- Every step takes one of these courses. -/
theorem course (m : Machine) : m.Course := by
  cases hw : m.waiting with
  | true => exact .waits hw (step_of_waiting hw)
  | false =>
    obtain ⟨halted, keyWait, frameWait⟩ := m.fetched_control
    cases hi : m.next? with
    | none =>
      have stepped := step_of_none hw hi
      refine .goes (fun i h => by cases hi ▸ h) ?_ ?_ ?_ <;> rw [stepped]
      · exact halted
      · exact (congrArg Option.isSome keyWait).trans hw
      · exact frameWait
    | some i =>
      have stepped := step_of_some hw hi
      cases hc : i.controls with
      | false =>
        obtain ⟨halted', keyWait', frameWait'⟩ := m.fetched.execute_control hc
        refine .goes (fun j h => ?_) ?_ ?_ ?_
        · cases hi ▸ h
          exact hc
        · rw [stepped]
          exact halted'.trans halted
        · rw [stepped]
          exact (congrArg Option.isSome (keyWait'.trans keyWait)).trans hw
        · rw [stepped]
          exact frameWait'.trans frameWait
      | true =>
        cases i with
        | exit => exact .exits hi (by rw [stepped]; rfl) (by rw [stepped]; rfl)
        | awaitKey x =>
          refine .asks x hi ?_ (by rw [stepped]; rfl) ?_ <;> rw [stepped]
          · exact halted
          · exact frameWait
        | sprite x y n =>
          cases hold : m.holdsSprites with
          | true => exact course_of_holds hw hi hold
          | false => exact course_of_draws hw hi hold
        | _ => cases hc

end Machine

end XoChip
