import XoChip.Proofs.HostMoves
import XoChip.Proofs.Skip

/-!
Waiting for a key. A machine that waits carries out nothing, and what a program has computed stays
as it is until a key is pressed, which writes one register, or until the host gives the wait up,
which writes none of them the key. Main statement: `key_wait`.
-/

namespace XoChip.Machine

/-- Whether a turn neither ends a wait for a key nor touches the listing: no key is pressed, the
machine is not halted or resumed, and the host does not start over. -/
def sparesWait (m : Machine) : Turn → Bool
  | .operation (.setHalted _) | .operation (.pressKey _) | .operation .renumber => false
  | .operation o => !m.startsOver o
  | .files _ => true

def SparesWait (m : Machine) : List Turn → Prop
  | [] => True
  | t :: ts => m.sparesWait t = true ∧ (m.turn t).SparesWait ts

/-- All that a program has computed, and the wait it is in. -/
structure StillWaits (m m' : Machine) : Prop where
  keyWait : m'.keyWait = m.keyWait
  pc : m'.pc = m.pc
  latch : m'.latch = m.latch
  v : m'.v = m.v
  i : m'.i = m.i
  memory : m'.memory = m.memory
  cycles : m'.cycles = m.cycles
  disassembly : m'.disassembly = m.disassembly

theorem StillWaits.refl (m : Machine) : m.StillWaits m :=
  ⟨rfl, rfl, rfl, rfl, rfl, rfl, rfl, rfl⟩

theorem StillWaits.trans {m₁ m₂ m₃ : Machine} (h : m₁.StillWaits m₂) (h' : m₂.StillWaits m₃) :
    m₁.StillWaits m₃ :=
  ⟨h'.keyWait.trans h.keyWait, h'.pc.trans h.pc, h'.latch.trans h.latch, h'.v.trans h.v,
    h'.i.trans h.i, h'.memory.trans h.memory, h'.cycles.trans h.cycles,
    h'.disassembly.trans h.disassembly⟩

/-! ## During the wait -/

section
variable {m : Machine}

theorem waiting_of_keyWait {x : Register} (waits : m.keyWait = some x) : m.waiting = true :=
  congrArg Option.isSome waits

theorem tick_of_waiting (waits : m.waiting = true) (n : Nat) : m.tick n = m := by
  have asleep : m.awake = false := by
    simp only [Processor.awake, waits, Bool.not_true, Bool.and_false]
  simp only [tick, asleep, Bool.false_eq_true, ↓reduceIte]

theorem stillWaits_turn {t : Turn} (waits : m.waiting = true) (spares : m.sparesWait t = true) :
    m.StillWaits (m.turn t) := by
  cases t with
  | files fs => exact ⟨rfl, rfl, rfl, rfl, rfl, rfl, rfl, rfl⟩
  | operation o =>
    cases o with
    | step =>
      rw [turn, apply, step_of_waiting waits]
      exact .refl m
    | tick n =>
      rw [turn, apply, tick_of_waiting waits]
      exact .refl m
    | frame =>
      rw [turn, apply, frame, tick_of_waiting waits]
      exact .refl m
    | load s =>
      have fails : m.startsOver (.load s) = false := (Bool.not_eq_true' _).mp spares
      rw [turn, apply, apply_of_not_isOk fails]
      exact .refl m
    | loadFile path =>
      have fails : m.startsOver (.loadFile path) = false := (Bool.not_eq_true' _).mp spares
      rw [turn, apply, apply_of_not_isOk fails]
      exact .refl m
    | findBreakpoint =>
      rw [turn, apply, findBreakpoint_eq]
      exact ⟨rfl, rfl, rfl, rfl, rfl, rfl, rfl, rfl⟩
    | reset | unload | setHalted | pressKey | renumber => cases spares
    | _ => exact ⟨rfl, rfl, rfl, rfl, rfl, rfl, rfl, rfl⟩

theorem stillWaits_after {h : List Turn} (waits : m.waiting = true) (spares : m.SparesWait h) :
    m.StillWaits (m.after h) := by
  induction h generalizing m with
  | nil => exact .refl m
  | cons t ts ih =>
    have first := stillWaits_turn waits spares.1
    exact first.trans (ih ((congrArg Option.isSome first.keyWait).trans waits) spares.2)

/-! ## The end of the wait -/

theorem apply_pressKey {x : Register} (waits : m.keyWait = some x) (key : UInt8) :
    m.apply (.pressKey key) = { m with v := m.v.put x key, keyWait := none } := by
  simp only [apply, Processor.pressKey, waits]

theorem apply_pressKey_of_none (awaited : m.keyWait = none) (key : UInt8) :
    m.apply (.pressKey key) = m := by
  simp only [apply, Processor.pressKey, awaited]

/-- A wait has been given up: the registers are as they are to be, and no key goes anywhere. -/
structure GivenUp (m : Machine) (v : Registers) : Prop where
  keyWait : m.keyWait = none
  v : m.v = v
  press : ∀ key, m.apply (.pressKey key) = m

theorem givenUp_setHalted (m : Machine) (on : Bool) : (m.apply (.setHalted on)).GivenUp m.v :=
  ⟨rfl, rfl, apply_pressKey_of_none rfl⟩

theorem givenUp_startsOver {o : Operation} (anew : m.startsOver o = true) :
    (m.apply o).GivenUp (Vector.replicate 16 0) := by
  have left := (startedOver anew).processor
  have keyWait : (m.apply o).keyWait = none := congrArg Processor.keyWait left
  exact ⟨keyWait, congrArg Processor.v left, apply_pressKey_of_none keyWait⟩

/-! ## Keys held down -/

/-- A move presses or lets go the key of a number, or starts over with all keys up. -/
def ChangesKey (number : Nat) (m : Machine) (mv : Move) : Prop :=
  m.Renews mv ∨ ∃ k pressed, mv = .host (.setKey k pressed) rfl ∧ k.toNat % 16 = number

/-- Whether the key is down that a byte stands for. -/
def holdsKey (m : Machine) (k : UInt8) : Bool :=
  m.keys.get (Processor.keyOf k)

theorem holdsKey_setKey {key k : UInt8} {pressed : Bool} :
    (m.apply (.setKey key pressed)).holdsKey k =
      if key.toNat % 16 = k.toNat % 16 then pressed else m.holdsKey k := by
  change (m.keys.set (Processor.keyOf key) pressed)[(Processor.keyOf k).val] = _
  rw [Vector.getElem_set]
  rfl

theorem holdsKey_apply {k : UInt8} {o : Operation} (quiet : o.runs = false)
    (other : ¬m.ChangesKey (k.toNat % 16) (.host o quiet)) :
    (m.apply o).holdsKey k = m.holdsKey k := by
  obtain ⟨goesOn, unset⟩ := not_or.mp other
  have goesOn : m.startsOver o = false := eq_false_of_ne_true goesOn
  cases o with
  | setKey key pressed =>
    have elsewhere : key.toNat % 16 ≠ k.toNat % 16 := fun same => unset ⟨key, pressed, rfl, same⟩
    rw [holdsKey_setKey, if_neg elsewhere]
  | load | loadFile => rw [apply, apply_of_not_isOk goesOn]
  | reset | unload => cases goesOn
  | step | tick | frame => cases quiet
  | pressKey =>
    rw [apply, pressKey_eq]
    rfl
  | findBreakpoint =>
    rw [apply, findBreakpoint_eq]
    rfl
  | _ => rfl

theorem holdsKey_move {k : UInt8} {mv : Move} (other : ¬m.ChangesKey (k.toNat % 16) mv) :
    (m.move mv).holdsKey k = m.holdsKey k := by
  cases mv with
  | step => exact congrArg (Vector.get · (Processor.keyOf k)) m.step_sameSettings.keys
  | endFrame =>
    simp only [move, Processor.endFrame]
    split <;> rfl
  | host o quiet => exact holdsKey_apply quiet other
  | stop | files => rfl

theorem holdsKey_run {k : UInt8} {ms : List Move}
    (others : m.Avoids (ChangesKey (k.toNat % 16)) ms) : (m.run ms).holdsKey k = m.holdsKey k :=
  (others.along (P := fun s => s.holdsKey k = m.holdsKey k)
    (fun _ _ other same => (holdsKey_move other).trans same) rfl).last

end

/-- How a wait for a key goes on: nothing is carried out, and there are two ways out of it. -/
structure AwaitsKey (m : Machine) (x : Register) : Prop where
  keyWait : m.keyWait = some x
  step : m.step = m
  tick : ∀ n, m.tick n = m
  frame : m.frame = m
  /-- A key that is pressed goes to the register, and nowhere else. -/
  press : ∀ key, m.apply (.pressKey key) = { m with v := m.v.put x key, keyWait := none }
  /-- The next one goes nowhere. -/
  pressAgain : ∀ key later,
    (m.apply (.pressKey key)).apply (.pressKey later) = m.apply (.pressKey key)
  setHalted : ∀ on, (m.apply (.setHalted on)).GivenUp m.v
  startsOver : ∀ o, m.startsOver o = true → (m.apply o).GivenUp (Vector.replicate 16 0)

theorem awaitsKey {m : Machine} {x : Register} (waits : m.keyWait = some x) : m.AwaitsKey x where
  keyWait := waits
  step := step_of_waiting (waiting_of_keyWait waits)
  tick := tick_of_waiting (waiting_of_keyWait waits)
  frame := tick_of_waiting (waiting_of_keyWait waits) _
  press := apply_pressKey waits
  pressAgain key later := by
    rw [apply_pressKey waits]
    exact apply_pressKey_of_none rfl later
  setHalted := m.givenUp_setHalted
  startsOver _ := givenUp_startsOver

theorem keyWait_step {m : Machine} {x : Register} (waits : m.executed? = some (.awaitKey x)) :
    m.step.keyWait = some x := by
  rw [step_of_executed? waits]
  rfl

/-- A key that is down is skipped for, whichever byte stands for it. -/
theorem pc_step_of_held {m : Machine} {x : Register}
    (skips : m.executed? = some (.skipPressed x)) (down : m.holdsKey (m.v.get x) = true) :
    m.step.pc = if m.memory.word (m.pc + 2) = 0xF000 then m.pc + 6 else m.pc + 4 := by
  obtain ⟨awaited, next⟩ := executed?_eq_some.mp skips
  have met : m.condition? (.skipPressed x) = some true := congrArg some down
  have landed := pc_step_of_condition? awaited next met
  rw [if_pos rfl, skipLength] at landed
  rw [landed]
  split
  · exact UInt16.add_assoc m.pc 2 4
  · exact UInt16.add_assoc m.pc 2 2

/-- **The key wait protocol.** An instruction that awaits a key leaves the machine waiting. Whatever
the host does then without pressing a key, halting or starting over, the machine waits on with all
that was computed as it was; a key that is pressed ends the wait and goes to the one register. A key
that was last put down passes for pressed, whichever of the bytes that stand for it is in the
register: the instruction behind the skip is passed over, four bytes of it if its word is `F000`. -/
theorem key_wait :
    (∀ {m : Machine} {x : Register}, m.executed? = some (.awaitKey x) →
      m.step.AwaitsKey x) ∧
    (∀ {m : Machine} {x : Register} {h : List Turn}, m.keyWait = some x → m.SparesWait h →
      m.StillWaits (m.after h) ∧ (m.after h).AwaitsKey x) ∧
    (∀ {m : Machine} {x : Register} {key k : UInt8} {past : List Move},
      key.toNat % 16 = k.toNat % 16 →
      (m.apply (.setKey key true)).Avoids (ChangesKey (k.toNat % 16)) past →
      let s := (m.apply (.setKey key true)).run past
      s.executed? = some (.skipPressed x) → s.v.get x = k →
      s.step.pc = if s.memory.word (s.pc + 2) = 0xF000 then s.pc + 6 else s.pc + 4) := by
  refine ⟨fun waits => awaitsKey (keyWait_step waits), fun {m x h} waits spares => ?_, ?_⟩
  · have still := stillWaits_after (waiting_of_keyWait waits) spares
    exact ⟨still, awaitsKey (still.keyWait.trans waits)⟩
  · intro m x key k past same others s skips stored
    refine pc_step_of_held skips ?_
    rw [stored, holdsKey_run others, holdsKey_setKey, if_pos same]

/-- `F00A E09E F000 1234`. -/
def prompting : Rom :=
  ⟨#[0xF0, 0x0A, 0xE0, 0x9E, 0xF0, 0x00, 0x12, 0x34], by decide⟩

theorem instruction?_prompting :
    (Memory.ofRom prompting).instruction? 0x200 = some (.awaitKey 0) ∧
    (Memory.ofRom prompting).instruction? 0x202 = some (.skipPressed 0) := by
  simp only [Memory.instruction?_ofRom]
  decide

section
variable {m : Machine}

theorem step_prompting (start : (fresh default).JustLoaded prompting m) :
    m.executed? = some (.awaitKey 0) ∧ m.step.pc = 0x202 ∧ m.step.memory = m.memory := by
  have asks : m.executed? = some (.awaitKey 0) :=
    start.runs.executed? (start.pc ▸ instruction?_prompting.1)
  refine ⟨asks, ?_⟩
  rw [step_of_executed? asks, fetched_eq, (executed?_eq_some.mp asks).2, start.pc]
  exact ⟨rfl, rfl⟩

/-- The key is held down and let go as `0x25`. -/
theorem pressed_prompting (start : (fresh default).JustLoaded prompting m) :
    let s := (m.step.apply (.setKey 0x25 true)).run [.host (.pressKey 0x25) rfl]
    s.executed? = some (.skipPressed 0) ∧ s.v.get 0 = 0x25 ∧ s.pc = 0x202 ∧
    s.memory.word 0x204 = 0xF000 := by
  obtain ⟨asks, behind, kept⟩ := step_prompting start
  intro s
  have pressed : s = { m.step.apply (.setKey 0x25 true) with
      v := m.step.v.put 0 0x25, keyWait := none } :=
    apply_pressKey (m := m.step.apply (.setKey 0x25 true)) (keyWait_step asks) 0x25
  have runs : Runs prompting s := by
    rw [pressed]
    exact ⟨rfl, (congrArg Memory.ram kept).trans start.runs.ram⟩
  have pc : s.pc = 0x202 := by
    rw [pressed]
    exact behind
  refine ⟨runs.executed? (pc ▸ instruction?_prompting.2), ?_, pc, ?_⟩
  · rw [pressed]
    exact (Registers.get_put ..).trans (if_pos rfl)
  · rw [runs.word, Memory.word_ofRom]
    decide

end

/-- The long load behind the skip is passed over. -/
theorem key_wait_prompting :
    let m := loaded prompting
    let turns : List Turn := [.operation (.tick 5), .operation (.setKey 0x25 true)]
    let past : List Move := [.host (.pressKey 0x25) rfl]
    let s := (m.step.apply (.setKey 0x25 true)).run past
    (m.executed? = some (.awaitKey 0) ∧ m.step.AwaitsKey 0) ∧
    (m.step.keyWait = some 0 ∧ m.step.SparesWait turns ∧
      m.step.StillWaits (m.step.after turns) ∧ (m.step.after turns).AwaitsKey 0) ∧
    ((m.step.apply (.setKey 0x25 true)).Avoids (ChangesKey 5) past ∧
      s.executed? = some (.skipPressed 0) ∧ s.v.get 0 = 0x25 ∧ s.pc = 0x202 ∧
      s.step.pc = 0x208) := by
  intro m turns past s
  have start : (fresh default).JustLoaded prompting m := justLoaded_load ..
  clear_value m
  obtain ⟨asks, -, -⟩ := step_prompting start
  obtain ⟨skips, stored, pc, long⟩ := pressed_prompting start
  have spares : m.step.SparesWait turns := ⟨rfl, rfl, trivial⟩
  have others : (m.step.apply (.setKey 0x25 true)).Avoids (ChangesKey 5) past := by
    refine ⟨?_, trivial⟩
    rintro (renews | ⟨k, pressed, set, -⟩)
    · cases renews
    · cases set
  have waits := keyWait_step asks
  have landed : s.step.pc = _ := key_wait.2.2 rfl others skips stored
  have there : s.memory.word (s.pc + 2) = 0xF000 := by
    rw [pc]
    exact long
  rw [if_pos there, pc] at landed
  exact ⟨⟨asks, key_wait.1 asks⟩, ⟨waits, spares, key_wait.2.1 waits spares⟩,
    ⟨others, skips, stored, pc, landed⟩⟩

end XoChip.Machine
