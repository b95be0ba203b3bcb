import XoChip.Proofs.HostMoves

/-!
Arithmetic of instructions, as arithmetic of numbers of any size. Main statement: what is added to
the index register wraps at sixteen bits, or in some dialects at twelve; these report the carry in
vF as long as the sum fits in sixteen bits (`step_addIndex`).
-/

namespace XoChip.Machine

/-- The sum of the index register and another one, whatever it takes to hold it. -/
def indexSum (m : Machine) (x : Register) : Nat :=
  m.i.toNat + (m.v.get x).toNat

section
variable {m : Machine} {x : Register}

/-- The sum as it is computed, in sixteen bits. -/
theorem toNat_index_add (m : Machine) (x : Register) :
    (m.i + (m.v.get x).toUInt16).toNat = m.indexSum x % 0x10000 := by
  rw [UInt16.toNat_add, UInt8.toNat_toUInt16]
  rfl

theorem toNat_low_twelve (w : Word) : (w &&& 0xFFF).toNat = w.toNat % 0x1000 := by
  rw [UInt16.toNat_and]
  exact Nat.and_two_pow_sub_one_eq_mod w.toNat 12

/-- A byte added to a word carries out of twelve bits unseen only if it carries out of sixteen. -/
theorem carries_iff (m : Machine) (x : Register) :
    0xFFF < m.i + (m.v.get x).toUInt16 ↔ 0xFFF < m.indexSum x ∧ m.indexSum x < 0x10000 := by
  have index := m.i.toNat_lt
  have byte := (m.v.get x).toNat_lt
  rw [UInt16.lt_iff_toNat_lt, toNat_index_add]
  change 0xFFF < m.indexSum x % 0x10000 ↔ _
  unfold indexSum
  omega

theorem addIndex_fetched (executed : m.executed? = some (.addIndex x)) :
    m.step.i = (m.addIndex x).i ∧ m.step.v = (m.addIndex x).v := by
  rw [step_of_executed? executed, fetched_eq]
  simp only [execute, addIndex]
  split <;> exact ⟨rfl, rfl⟩

/-- **Adding to the index register.** In a dialect that wraps it at twelve bits, the index register
takes the sum modulo 4096, and vF tells whether the sum is larger than 4095, unless it is too large
even for sixteen bits: then vF denies it. Every other register stays. In any other dialect the index
register takes the sum modulo 65536 and every register stays. -/
theorem step_addIndex (executed : m.executed? = some (.addIndex x)) :
    (m.dialect.indexCarry = true →
      m.step.i.toNat = m.indexSum x % 0x1000 ∧
      (m.step.v.get Register.flag =
        if 0xFFF < m.indexSum x ∧ m.indexSum x < 0x10000 then 1 else 0) ∧
      ∀ r, r ≠ Register.flag → m.step.v.get r = m.v.get r) ∧
    (m.dialect.indexCarry = false →
      m.step.i.toNat = m.indexSum x % 0x10000 ∧ m.step.v = m.v) := by
  obtain ⟨index, registers⟩ := addIndex_fetched executed
  rw [index, registers]
  constructor
  · intro carries
    simp only [addIndex, carries, ↓reduceIte]
    refine ⟨?_, ?_, fun r other => ?_⟩
    · rw [toNat_low_twelve, toNat_index_add]
      omega
    · rw [Registers.get_put, if_pos rfl]
      simp only [carries_iff]
      split
      · rename_i reported
        rw [decide_eq_true reported]
        rfl
      · rename_i unreported
        rw [decide_eq_false unreported]
        rfl
    · rw [Registers.get_put, if_neg other.symm]
  · intro plain
    simp only [addIndex, plain, Bool.false_eq_true, ↓reduceIte]
    exact ⟨toNat_index_add m x, trivial⟩

end

/-- `6101 F000 FFFF F11E`. -/
def carrying : Rom :=
  ⟨#[0x61, 0x01, 0xF0, 0x00, 0xFF, 0xFF, 0xF1, 0x1E], by decide⟩

theorem instruction?_carrying :
    (Memory.ofRom carrying).instruction? 0x200 = some (.load 1 1) ∧
    (Memory.ofRom carrying).instruction? 0x202 = some (.setIndexLong 0xFFFF) ∧
    (Memory.ofRom carrying).instruction? 0x206 = some (.addIndex 1) := by
  simp only [Memory.instruction?_ofRom]
  decide

/-- Two steps lead up to an addition that carries out of sixteen bits. -/
theorem carrying_run {m : Machine} (runs : Runs carrying m) (pc : m.pc = 0x200) :
    m.step.step.executed? = some (.addIndex 1) ∧ m.step.step.dialect = m.dialect ∧
    m.step.step.indexSum 1 = 0x10000 := by
  obtain ⟨load, long, sum⟩ := instruction?_carrying
  have loads : m.executed? = some (.load 1 1) := runs.executed? (pc ▸ load)
  have stepped : m.step.pc = 0x202 ∧ m.step.v.get 1 = 1 := by
    rw [step_of_executed? loads, fetched_eq, (executed?_eq_some.mp loads).2, pc]
    exact ⟨rfl, (Registers.get_put ..).trans (if_pos rfl)⟩
  have runs₁ := runs.step loads rfl rfl
  have sets : m.step.executed? = some (.setIndexLong 0xFFFF) :=
    runs₁.executed? (stepped.1 ▸ long)
  have stepped' : m.step.step.pc = 0x206 ∧ m.step.step.i = 0xFFFF ∧
      m.step.step.v = m.step.v := by
    rw [step_of_executed? sets, fetched_eq, (executed?_eq_some.mp sets).2, stepped.1]
    exact ⟨rfl, rfl, rfl⟩
  have runs₂ := runs₁.step sets rfl rfl
  refine ⟨runs₂.executed? (stepped'.1 ▸ sum), ?_, ?_⟩
  · exact m.step.step_sameSettings.dialect.trans m.step_sameSettings.dialect
  · rw [indexSum, stepped'.2.1, stepped'.2.2, stepped.2]
    rfl

/-- The program before its last step, in a dialect that wraps the index register at twelve bits. -/
def beforeCarry : Machine :=
  ((loaded carrying).apply (.switchAll [.indexCarry] true)).step.step

theorem beforeCarry_ready :
    beforeCarry.executed? = some (.addIndex 1) ∧ beforeCarry.dialect.indexCarry = true ∧
    beforeCarry.indexSum 1 = 0x10000 := by
  have start : (fresh default).JustLoaded carrying (loaded carrying) := justLoaded_load ..
  unfold beforeCarry
  generalize loaded carrying = m at *
  have dialect : m.dialect = .plain := congrArg Processor.dialect start.processor
  have switched : Runs carrying (m.apply (.switchAll [.indexCarry] true)) :=
    ⟨start.runs.awaited, start.runs.ram⟩
  obtain ⟨executed, kept, sum⟩ := carrying_run switched start.pc
  refine ⟨executed, ?_, sum⟩
  rw [kept]
  change (m.dialect.switchAll [.indexCarry] true).indexCarry = true
  rw [dialect]
  rfl

/-- The same addition in another dialect. -/
theorem addition_withDialect (m : Machine) (x : Register) (d : Dialect) :
    { m with dialect := d }.executed? = m.executed? ∧
    { m with dialect := d }.indexSum x = m.indexSum x :=
  ⟨rfl, rfl⟩

theorem step_addIndex_beforeCarry :
    let m := { beforeCarry with dialect := .plain }
    (beforeCarry.executed? = some (.addIndex 1) ∧ beforeCarry.dialect.indexCarry = true ∧
      beforeCarry.step.i = 0 ∧ beforeCarry.step.v.get Register.flag = 0) ∧
    (m.executed? = some (.addIndex 1) ∧ m.dialect.indexCarry = false ∧
      m.step.i = 0 ∧ m.step.v = m.v) := by
  intro m
  obtain ⟨executed, carries, sum⟩ := beforeCarry_ready
  obtain ⟨index, flag, -⟩ := (step_addIndex executed).1 carries
  rw [sum] at index flag
  obtain ⟨same, sameSum⟩ := addition_withDialect beforeCarry 1 .plain
  have executed' : m.executed? = some (.addIndex 1) := same.trans executed
  obtain ⟨index', kept⟩ := (step_addIndex executed').2 rfl
  rw [sameSum.trans sum] at index'
  exact ⟨⟨executed, carries, UInt16.toNat_inj.mp index, flag⟩,
    executed', rfl, UInt16.toNat_inj.mp index', kept⟩

/-- A carry need not be reported: 65535 and 1 carry out of twelve bits, and vF denies it. -/
theorem carry_unreported :
    ¬∀ (m : Machine) (x : Register), m.executed? = some (.addIndex x) →
      m.dialect.indexCarry = true →
      (m.step.v.get Register.flag = 1 ↔ 0xFFF < m.indexSum x) := by
  intro reports
  obtain ⟨executed, carries, sum⟩ := beforeCarry_ready
  have reported := (reports beforeCarry 1 executed carries).mpr (by rw [sum]; decide)
  generalize beforeCarry = m at *
  -- In sixteen bits the sum is zero.
  have denied : ¬0xFFF < m.i + (m.v.get 1).toUInt16 := by
    rw [carries_iff, sum]
    decide
  rw [(addIndex_fetched executed).2] at reported
  simp only [addIndex, carries, ↓reduceIte, Registers.get_put, decide_eq_false denied] at reported
  cases reported

end XoChip.Machine
