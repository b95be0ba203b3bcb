import XoChip.Proofs.Step

/-!
Write sets: which parts of a machine the instructions change. Main statement: a step leaves what the
host has chosen as it is, changes a part only if it carries out one of the few instructions that
write it, and a register only if its instruction names it first, fetches a block or yields a flag
(`step_writes`).
-/

namespace XoChip

/-- The parts of a machine that some instructions write and all others leave alone. -/
inductive Part
  | ram
  | stack
  | pattern
  | beep
  | delay
  | sound
  | index
  | pitch
  | pitchDirty
  | halted
  | keyWait
  | frameWait
  | mask
  | resolution
  | cells
  | random
  | files
  deriving DecidableEq, Repr

namespace Part

/-- The instructions that may change a part. -/
def writtenBy : Part → Instruction → Bool
  | ram, .storeRange _ _ | ram, .decimal _ | ram, .store _ => true
  | stack, .call _ | stack, .ret => true
  | pattern, .audio => true
  | beep, .audio | beep, .setPitch _ => true
  | delay, .setDelay _ => true
  | sound, .setSound _ => true
  | index, .setIndex _ | index, .setIndexLong _ | index, .addIndex _ | index, .smallDigit _
  | index, .largeDigit _ | index, .store _ | index, .fetch _ => true
  | pitch, .setPitch _ | pitchDirty, .setPitch _ => true
  | halted, .exit => true
  | keyWait, .awaitKey _ => true
  | frameWait, .sprite _ _ _ | frameWait, .exit => true
  | mask, .selectPlanes _ => true
  | resolution, .lores | resolution, .hires => true
  | cells, .scrollDown _ | cells, .scrollUp _ | cells, .clear | cells, .scrollRight
  | cells, .scrollLeft | cells, .lores | cells, .hires | cells, .sprite _ _ _ => true
  | random, .random _ _ => true
  | files, .saveFlags _ => true
  | _, _ => false

/-- A part of one machine is that of another. -/
def Same (m m' : Machine) : Part → Prop
  | ram => m'.memory.ram = m.memory.ram
  | stack => m'.memory.stack = m.memory.stack
  | pattern => m'.memory.pattern = m.memory.pattern
  | beep => m'.memory.beep = m.memory.beep
  | delay => m'.delay = m.delay
  | sound => m'.sound = m.sound
  | index => m'.i = m.i
  | pitch => m'.pitch = m.pitch
  | pitchDirty => m'.pitchDirty = m.pitchDirty
  | halted => m'.halted = m.halted
  | keyWait => m'.keyWait = m.keyWait
  | frameWait => m'.frameWait = m.frameWait
  | mask => m'.display.mask = m.display.mask
  | resolution => m'.display.hires = m.display.hires
  | cells => m'.display.planes = m.display.planes
  | random => m'.random = m.random
  | files => m'.files = m.files

theorem Same.refl (m : Machine) (p : Part) : p.Same m m := by
  cases p <;> exact rfl

theorem Same.trans {m₁ m₂ m₃ : Machine} {p : Part} (h : p.Same m₁ m₂) (h' : p.Same m₂ m₃) :
    p.Same m₁ m₃ := by
  cases p <;> exact Eq.trans h' h

end Part

namespace Instruction

/-- The register an instruction names first. -/
def subject? (i : Instruction) : Option Register :=
  match i.operands with
  | .register x :: _ => some x
  | _ => none

/-- Whether an instruction fetches a block of registers. -/
def fetchesBlock : Instruction → Bool
  | .fetchRange _ _ | .fetch _ | .loadFlags _ => true
  | _ => false

/-- Whether an instruction yields a flag, or clears the flag in some dialects. -/
def yieldsFlag : Instruction → Bool
  | .or _ _ | .and _ _ | .xor _ _ | .addRegister _ _ | .subtract _ _ | .shiftRight _ _
  | .subtractFrom _ _ | .shiftLeft _ _ | .sprite _ _ _ | .addIndex _ => true
  | _ => false

/-- Whether an instruction may change a register. -/
def writesRegister (i : Instruction) (r : Register) : Prop :=
  i.fetchesBlock = true ∨ i.subject? = some r ∨ r = Register.flag ∧ i.yieldsFlag = true

end Instruction

/-! ## What the parts of a machine are written by -/

theorem Registers.get_put (v : Registers) (x r : Register) (b : UInt8) :
    (v.put x b).get r = if x = r then b else v.get r := by
  change (v.set x b)[r.val] = if x = r then b else v[r.val]
  rw [Vector.getElem_set]
  simp only [Fin.val_inj]

namespace Machine

/-- An instruction leaves every part alone that it is no writer of. An exit gives up a wait for a
key, but there is none while instructions are carried out. -/
theorem execute_same {m : Machine} {i : Instruction} {p : Part} (awaited : m.waiting = false)
    (other : p.writtenBy i = false) : p.Same m (m.execute i) := by
  cases i with
  | storeRange | decimal =>
    simp only [execute, storeRange]
    rw [Bus.writeBlock_eq]
    cases p <;> first | exact absurd other.symm Bool.false_ne_true | exact rfl
  | store x =>
    simp only [execute, store]
    rw [advanceIndex_eq, Bus.writeBlock_eq]
    cases p <;> first | exact absurd other.symm Bool.false_ne_true | exact rfl
  | fetch x =>
    simp only [execute, fetch]
    rw [advanceIndex_eq]
    cases p <;> first | exact absurd other.symm Bool.false_ne_true | exact rfl
  | addIndex x =>
    simp only [execute]
    rw [addIndex_eq]
    cases p <;> first | exact absurd other.symm Bool.false_ne_true | exact rfl
  | saveFlags x =>
    simp only [execute]
    rw [saveFlags_eq]
    cases p <;> first | exact absurd other.symm Bool.false_ne_true | exact rfl
  | loadFlags x =>
    simp only [execute]
    rw [loadFlags_eq]
    cases p <;> exact rfl
  | skipEqual | skipNotEqual | skipSame | skipDifferent | skipPressed | skipReleased =>
    simp only [execute]
    rw [skipIf_eq]
    cases p <;> exact rfl
  | ret =>
    simp only [execute]
    rw [returnFromCall_eq]
    cases p <;> first | exact absurd other.symm Bool.false_ne_true | exact rfl
  | sprite x y n =>
    simp only [execute, sprite]
    split
    · cases p <;> first | exact absurd other.symm Bool.false_ne_true | exact rfl
    · rw [drawSprite_eq]
      cases p <;> first | exact absurd other.symm Bool.false_ne_true | exact rfl
  | exit =>
    have free : m.keyWait = none := by simpa [Processor.waiting] using awaited
    cases p with
    | keyWait => exact free.symm
    | halted | frameWait => cases other
    | _ => exact rfl
  | audio =>
    simp only [execute, fetchPattern]
    cases p <;> first | exact absurd other.symm Bool.false_ne_true | exact rfl
  | _ => cases p <;> first | exact absurd other.symm Bool.false_ne_true | exact rfl

/-! ## Registers -/

theorem get_withFlag {v : Registers} {x r : Register} (result : UInt8) (flag : Bool)
    (subject : x ≠ r) (other : Register.flag ≠ r) :
    (v.withFlag x result flag).get r = v.get r := by
  rw [Registers.withFlag, Registers.get_put, if_neg other, Registers.get_put, if_neg subject]

theorem get_bitwise {v : Registers} {d : Dialect} {x y r : Register}
    (op : UInt8 → UInt8 → UInt8) (subject : x ≠ r) (other : Register.flag ≠ r) :
    (v.bitwise d x y op).get r = v.get r := by
  unfold Registers.bitwise
  split
  · rw [Registers.get_put, if_neg other, Registers.get_put, if_neg subject]
  · rw [Registers.get_put, if_neg subject]

theorem get_execute {m : Machine} {i : Instruction} {r : Register} (other : ¬i.writesRegister r) :
    (m.execute i).v.get r = m.v.get r := by
  obtain ⟨block, other⟩ := not_or.mp other
  obtain ⟨subject, flag⟩ := not_or.mp other
  have named {x : Register} (h : i.subject? = some x) : x ≠ r := by
    rintro rfl
    exact subject h
  have flagged (h : i.yieldsFlag = true) : Register.flag ≠ r := by
    rintro rfl
    exact flag ⟨rfl, h⟩
  cases i with
  | fetchRange | fetch | loadFlags => exact absurd rfl block
  | load | add | copy | random | readDelay =>
    exact (Registers.get_put ..).trans (if_neg (named rfl))
  | or | and | xor => exact get_bitwise _ (named rfl) (flagged rfl)
  | addRegister | subtract | subtractFrom | shiftRight | shiftLeft =>
    exact get_withFlag _ _ (named rfl) (flagged rfl)
  | sprite x y n =>
    simp only [execute, sprite]
    split
    · rfl
    · exact (Registers.get_put ..).trans (if_neg (flagged rfl))
  | addIndex x =>
    simp only [execute, addIndex]
    split
    · exact (Registers.get_put ..).trans (if_neg (flagged rfl))
    · rfl
  | store x =>
    simp only [execute, store]
    rw [advanceIndex_eq]
  | saveFlags x =>
    simp only [execute]
    rw [saveFlags_eq]
  | skipEqual | skipNotEqual | skipSame | skipDifferent | skipPressed | skipReleased =>
    simp only [execute]
    rw [skipIf_eq]
  | audio =>
    simp only [execute, fetchPattern]
  | _ => rfl

/-! ## Steps -/

/-- The instruction a step carries out: none while a key is awaited, and none where the word that
execution stands at is no instruction. -/
def executed? (m : Machine) : Option Instruction :=
  if m.waiting then none else m.next?

theorem executed?_eq_some {m : Machine} {i : Instruction} :
    m.executed? = some i ↔ m.waiting = false ∧ m.next? = some i := by
  unfold executed?
  cases m.waiting <;> simp

theorem step_of_executed? {m : Machine} {i : Instruction} (h : m.executed? = some i) :
    m.step = { m.fetched.execute i with cycles := (m.fetched.execute i).cycles + 1 } :=
  step_of_some (executed?_eq_some.mp h).1 (executed?_eq_some.mp h).2

/-- Where nothing is carried out, a word may have been read that is no instruction. -/
theorem step_of_not_executed {m : Machine} (h : m.executed? = none) :
    m.step = m ∨ m.step = { m.fetched with cycles := m.fetched.cycles + 1 } := by
  cases awaited : m.waiting with
  | true => exact .inl (step_of_waiting awaited)
  | false =>
    have next : m.next? = none := by simpa [executed?, awaited] using h
    exact .inr (step_of_none awaited next)

theorem fetched_same (m : Machine) (p : Part) : p.Same m m.fetched := by
  rw [fetched_eq]
  cases p <;> exact rfl

theorem counted_same (m : Machine) (p : Part) : p.Same m { m with cycles := m.cycles + 1 } := by
  cases p <;> exact rfl

/-- What a step leaves alone is what its instruction leaves alone. -/
theorem step_same (m : Machine) (p : Part) :
    p.Same m m.step ∨ ∃ i, m.executed? = some i ∧ p.writtenBy i = true := by
  cases executed : m.executed? with
  | none =>
    rcases step_of_not_executed executed with same | read
    · rw [same]
      exact .inl (.refl m p)
    · rw [read]
      exact .inl ((m.fetched_same p).trans (counted_same _ p))
  | some i =>
    cases writer : p.writtenBy i with
    | true => exact .inr ⟨i, rfl, writer⟩
    | false =>
      have awaited : m.fetched.waiting = false := by
        rw [fetched_eq]
        exact (executed?_eq_some.mp executed).1
      rw [step_of_executed? executed]
      exact .inl (((m.fetched_same p).trans (execute_same awaited writer)).trans
        (counted_same _ p))

theorem get_step (m : Machine) (r : Register) :
    m.step.v.get r = m.v.get r ∨ ∃ i, m.executed? = some i ∧ i.writesRegister r := by
  have read : m.fetched.v = m.v := by rw [fetched_eq]
  cases executed : m.executed? with
  | none =>
    rcases step_of_not_executed executed with same | counted
    · rw [same]
      exact .inl rfl
    · rw [counted]
      exact .inl (congrArg (Vector.get · r) read)
  | some i =>
    by_cases writer : i.writesRegister r
    · exact .inr ⟨i, rfl, writer⟩
    · rw [step_of_executed? executed]
      exact .inl ((get_execute writer).trans (congrArg (Vector.get · r) read))

/-- A machine with the parts of another that reading an instruction changes. -/
def reading (m m' : Machine) : Machine :=
  { m with
    monitor := { m.monitor with log := m'.monitor.log }
    pc := m'.pc
    latch := m'.latch
    disassembly := m'.disassembly }

theorem fetched_eq_reading {m : Machine} {i : Instruction} (next : m.next? = some i) :
    m.fetched = m.reading m.fetched := by
  have read := m.fetched_eq
  rw [fetched_monitor next] at read
  exact read.trans (by rw [read]; rfl)

/-- What an instruction makes of a machine: carried out by itself, or by a step that finds it. -/
inductive Yields (m : Machine) (i : Instruction) : Machine → Prop
  | execute : m.Yields i (m.execute i)
  | step (executed : m.executed? = some i) : m.Yields i m.step

/-- Either way the instruction meets the machine as it was, but for what reading it changes. -/
theorem Yields.exists_reading {m m' : Machine} {i : Instruction} (h : m.Yields i m') :
    ∃ (r : Machine) (cycles : Nat), m' = { (m.reading r).execute i with cycles := cycles } := by
  cases h with
  | execute => exact ⟨m, (m.execute i).cycles, rfl⟩
  | step executed =>
    have read := fetched_eq_reading (executed?_eq_some.mp executed).2
    exact ⟨m.fetched, _, read ▸ step_of_executed? executed⟩

/-- **What a step writes.** What the host has chosen stays; every part stays unless the instruction
carried out is a writer of it; every register stays unless that instruction fetches a block, names
the register first, or yields a flag and the register is the one for flags. -/
theorem step_writes (m : Machine) :
    m.SameSettings m.step ∧
    (∀ p : Part, p.Same m m.step ∨ ∃ i, m.executed? = some i ∧ p.writtenBy i = true) ∧
    (∀ r, m.step.v.get r = m.v.get r ∨ ∃ i, m.executed? = some i ∧ i.writesRegister r) :=
  ⟨m.step_sameSettings, m.step_same, m.get_step⟩

end Machine

end XoChip
