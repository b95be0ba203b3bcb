import XoChip.Proofs.HostMoves
import XoChip.Proofs.Lockstep
import XoChip.Proofs.Unseen

/-!
The source of random bytes. Only one instruction draws from it, and of the byte it draws it keeps
the bits of its mask. Main statement: machines that differ in their source alone stay alike as long
as every mask is empty, and whatever the source is, a byte that is drawn reaches one register,
within the mask (`random_within_masks`).
-/

namespace XoChip.Machine

/-- The machine with another source of random bytes. -/
def withRandom (m : Machine) (random : Random) : Machine :=
  { m with random := random }

/-- Two machines differ in their source of random bytes at most. -/
def EqualButRandom (m m' : Machine) : Prop :=
  ∃ random, m' = m.withRandom random

/-- If the next step draws a random byte, it keeps no bit of it. -/
def KeepsNoBit (m : Machine) : Prop :=
  ∀ x mask, m.executed? = some (.random x mask) → mask = 0

section
variable {m m' : Machine}

theorem EqualButRandom.abreast (same : EqualButRandom m m') : m.Abreast m' := by
  obtain ⟨random, rfl⟩ := same
  exact ⟨rfl, rfl, fun _ => rfl, rfl, rfl⟩

/-! ## Steps and moves -/

theorem fetched_withRandom (m : Machine) (random : Random) :
    (m.withRandom random).fetched = m.fetched.withRandom random :=
  m.fetched_onUnseen id id fun _ => random

theorem execute_withRandom {i : Instruction} (blind : i.sees = false) (random : Random) :
    (m.withRandom random).execute i = (m.execute i).withRandom random :=
  m.execute_onUnseen id id (fun _ => random) blind

theorem execute_equalButRandom (same : EqualButRandom m m') {i : Instruction}
    (empty : ∀ x mask, i = .random x mask → mask = 0) :
    EqualButRandom (m.execute i) (m'.execute i) := by
  obtain ⟨random, rfl⟩ := same
  cases blind : i.sees with
  | false => exact ⟨random, execute_withRandom blind random⟩
  | true =>
    cases i with
    | scrollDown | scrollUp | clear | scrollRight | scrollLeft | lores | hires | exit =>
      exact ⟨random, rfl⟩
    | sprite x y n =>
      have hold : (m.withRandom random).holdsSprites = m.holdsSprites := rfl
      simp only [execute, sprite, hold]
      split <;> exact ⟨random, rfl⟩
    | random x mask =>
      -- Both draw a byte and go on to the next one, but nothing is left of either byte.
      have masked (source : Random) : source.next.1 &&& mask = 0 := by
        rw [empty x mask rfl]
        exact UInt8.and_zero
      refine ⟨random.next.2, ?_⟩
      simp only [execute, drawRandom, withRandom, masked]
    | _ => cases blind

theorem step_equalButRandom (same : EqualButRandom m m') (empty : m.KeepsNoBit) :
    EqualButRandom m.step m'.step := by
  obtain ⟨random, rfl⟩ := same
  have fetched : EqualButRandom m.fetched (m.withRandom random).fetched :=
    ⟨random, fetched_withRandom m random⟩
  refine step_related rfl rfl ⟨random, rfl⟩ fetched (fun i executed => ?_) ?_
  · refine execute_equalButRandom fetched ?_
    rintro x mask rfl
    exact empty x mask executed
  · rintro s s' ⟨random, rfl⟩
    exact ⟨random, rfl⟩

/-- The host neither draws a random byte nor sets up the source anew, not even by loading. -/
theorem apply_withRandom {o : Operation} (quiet : o.runs = false) (random : Random) :
    (m.withRandom random).apply o = (m.apply o).withRandom random := by
  cases o with
  | step | tick | frame => cases quiet
  | load source =>
    simp only [apply, load]
    cases Rom.ofSource? source <;> rfl
  | loadFile path =>
    have files : (m.withRandom random).files = m.files := rfl
    simp only [apply, loadFile, files]
    cases m.files.read path with
    | error e => rfl
    | ok bytes =>
      dsimp only
      cases Rom.ofSource? ⟨bytes, none⟩ <;> rfl
  | findBreakpoint =>
    have breakpoint : (m.withRandom random).breakpoint? = m.breakpoint? := rfl
    simp only [apply, findBreakpoint, breakpoint]
    cases m.breakpoint? <;> rfl
  | _ => rfl

theorem move_equalButRandom {mv : Move} (same : EqualButRandom m m')
    (empty : mv = .step → m.KeepsNoBit) : EqualButRandom (m.move mv) (m'.move mv) := by
  cases mv with
  | step => exact step_equalButRandom same (empty rfl)
  | host o quiet =>
    obtain ⟨random, rfl⟩ := same
    exact ⟨random, apply_withRandom quiet random⟩
  | stop | files =>
    obtain ⟨random, rfl⟩ := same
    exact ⟨random, rfl⟩
  | endFrame =>
    obtain ⟨random, rfl⟩ := same
    have wait : (m.withRandom random).frameWait = m.frameWait := rfl
    simp only [move, Processor.endFrame, wait]
    split <;> exact ⟨random, rfl⟩

/-! ## What is kept of a byte -/

/-- A step that draws a random byte, in full. -/
theorem step_random {x : Register} {mask : UInt8} (executed : m.executed? = some (.random x mask)) :
    m.step =
      { m with
        v := m.v.put x (m.random.next.1 &&& mask)
        pc := m.pc + 2
        latch := m.memory.word m.pc
        cycles := m.cycles + 1
        disassembly := m.disassembly.visit m.memory m.pc
        monitor := { m.monitor with log := m.step.monitor.log }
        random := m.random.next.2 } := by
  have next := (executed?_eq_some.mp executed).2
  have stepped := step_of_executed? executed
  rw [fetched_eq, fetched_monitor next, next] at stepped
  have log : m.step.monitor.log = m.fetched.monitor.log := by
    rw [stepped]
    rfl
  rw [log]
  exact stepped

end

/-- **Random bytes stay within their masks.** Two machines that differ in the source of random bytes
at most, and on which the same turns are played, carry out the same moves and differ in nothing else
after any of the turns, as long as every byte is drawn under an empty mask. And whatever the source,
a step that draws a byte leaves no bit outside the mask in its register, and changes nothing but
that register, the source and what every instruction changes. -/
theorem random_within_masks :
    (∀ {m m' : Machine} {h : List Turn}, EqualButRandom m m' →
      AtSteps KeepsNoBit m (m.history h) →
      m'.history h = m.history h ∧
      ∀ past, past <+: h → EqualButRandom (m.after past) (m'.after past)) ∧
    (∀ {m : Machine} {x : Register} {mask : UInt8}, m.executed? = some (.random x mask) →
      (∀ k, (m.step.v.get x).toNat.testBit k = true → mask.toNat.testBit k = true) ∧
      m.step =
        { m with
          v := m.v.put x (m.random.next.1 &&& mask)
          pc := m.pc + 2
          latch := m.memory.word m.pc
          cycles := m.cycles + 1
          disassembly := m.disassembly.visit m.memory m.pc
          monitor := { m.monitor with log := m.step.monitor.log }
          random := m.random.next.2 }) := by
  constructor
  · intro m m' h same empty
    exact lockstep (fun same => same.abreast) (fun same empty => move_equalButRandom same empty)
      same empty
  · intro m x mask executed
    refine ⟨fun k bit => ?_, step_random executed⟩
    have drawn : m.step.v.get x = m.random.next.1 &&& mask := by
      rw [step_random executed]
      exact (Registers.get_put ..).trans (if_pos rfl)
    rw [drawn, UInt8.toNat_and, Nat.testBit_and] at bit
    exact (Bool.and_eq_true_iff.mp bit).2

/-- `C000 C1F0`. -/
def dicing : Rom :=
  ⟨#[0xC0, 0x00, 0xC1, 0xF0], by decide⟩

theorem instruction?_dicing :
    (Memory.ofRom dicing).instruction? 0x200 = some (.random 0 0) ∧
    (Memory.ofRom dicing).instruction? 0x202 = some (.random 1 0xF0) := by
  simp only [Memory.instruction?_ofRom]
  decide

theorem random_within_masks_dicing :
    let m := loaded dicing
    let m' := m.withRandom { byte := fun _ => 0xFF }
    let turns : List Turn := [.operation .step, .operation (.setKey 3 true)]
    m' ≠ m ∧ m.executed? = some (.random 0 0) ∧
    (EqualButRandom m m' ∧ AtSteps KeepsNoBit m (m.history turns) ∧
      m'.history turns = m.history turns ∧
      ∀ past, past <+: turns → EqualButRandom (m.after past) (m'.after past)) ∧
    (m'.step.executed? = some (.random 1 0xF0) ∧ m'.step.step.v.get 1 = 0xF0 ∧
      ∀ k, (m'.step.step.v.get 1).toNat.testBit k = true →
        (0xF0 : UInt8).toNat.testBit k = true) := by
  intro m m' turns
  have start : (fresh default).JustLoaded dicing m := justLoaded_load ..
  clear_value m
  have apart : m' ≠ m := by
    intro same
    have first : 0xFF = m.random.byte 0 := congrArg (fun s : Machine => s.random.byte 0) same
    rw [start.random] at first
    cases first
  have executed : m.executed? = some (.random 0 0) :=
    start.runs.executed? (start.pc ▸ instruction?_dicing.1)
  have same : EqualButRandom m m' := ⟨_, rfl⟩
  have empty : AtSteps KeepsNoBit m (m.history turns) := by
    refine ⟨fun _ x mask drawn => ?_, nofun, trivial⟩
    cases executed.symm.trans drawn
    rfl
  have runs' : Runs dicing m' := ⟨start.runs.awaited, start.runs.ram⟩
  have executed' : m'.executed? = some (.random 0 0) := executed
  have behind : m'.step.pc = 0x202 := by
    rw [step_random executed']
    exact congrArg (· + 2) start.pc
  have again : m'.step.executed? = some (.random 1 0xF0) :=
    (runs'.step executed' rfl rfl).executed? (behind ▸ instruction?_dicing.2)
  have drawn : m'.step.random.next.1 = 0xFF := by
    rw [step_random executed']
    rfl
  have kept : m'.step.step.v.get 1 = 0xF0 := by
    rw [step_random again, drawn]
    exact (Registers.get_put ..).trans (if_pos rfl)
  exact ⟨apart, executed, ⟨same, empty, random_within_masks.1 same empty⟩, again, kept,
    (random_within_masks.2 again).1⟩

end XoChip.Machine
