import XoChip.Proofs.Checked.Execute
import XoChip.Proofs.WellFormed

/-!
Steps, programs and the operations of a host, through checked places and checked numbers. Main
statement: in no history does a place lie outside or a number leave its range, as long as the
counter of instructions does not (`after_eq`).
-/

namespace XoChip.Checked
open Machine

/-! ## Steps -/

/-- A line of the listing, and the text shown for it. -/
def render (m : Memory) (a : Word) (index visit : Nat) : Option (Line × String) := do
  let word ← readWord m a
  let next ← readWord m (a + 2)
  let found := Instruction.decode? word next
  let os ← operands (Instruction.formOf found) word m (a + 2)
  let shown ← slice os 0 (Instruction.formOf found).kinds.length
  let bytes ← (List.range (Instruction.formOf found).size).mapM fun k => read m (a + UInt16.ofNat k)
  some (⟨a, index, visit, found, bytes⟩,
    String.ofList (Piece.fill (Instruction.formOf found).label shown))

/-- Adds a line for an address unless it has one. -/
def enter (d : Disassembly) (m : Memory) (a : Word) : Option Disassembly :=
  if d.listing.contains a then some d
  else do
    let (line, _) ← render m a d.listing.size d.visits
    let visits ← add 64 d.visits 1
    some { listing := d.listing.insert a line, visits := visits, stale := true }

def perform (m : Machine) (os : Vector Operand 3) : Option Instruction → Option Machine
  | some i => execute m os i
  | none => some m

/-- Counts an instruction. -/
def count (m : Machine) : Option Machine := do
  let cycles ← add 64 m.cycles 1
  some { m with cycles := cycles }

def step (m : Machine) : Option Machine :=
  if m.waiting then some m
  else do
    let disassembly ← enter m.disassembly m.memory m.pc
    let word ← readWord m.memory m.pc
    let next ← readWord m.memory (m.pc + 2)
    let found := Instruction.decode? word next
    let os ← operands (Instruction.formOf found) word m.memory (m.pc + 2)
    let entered := { m with disassembly := disassembly }
    let fetched := (entered.moveBehind word (Instruction.formOf found).size).report m.pc word found
    let done ← perform fetched os found
    count done

/-- The operands of what is decoded; a word that is no instruction has none. -/
def operandsOf (found : Option Instruction) : List Operand :=
  (found.map Instruction.operands).getD []

theorem operands_decode? (w : Word) (m : Memory) (next : Word) :
    operands (Instruction.formOf (Instruction.decode? w (m.word next))) w m next =
      some (Operand.slots (operandsOf (Instruction.decode? w (m.word next)))) := by
  cases found : Instruction.decode? w (m.word next) with
  | none => exact operands_none w m next rfl rfl
  | some i => exact operands_of_decode? w m next found

theorem slice_slots (found : Option Instruction) :
    slice (Operand.slots (operandsOf found)) 0 (Instruction.formOf found).kinds.length =
      some (operandsOf found) := by
  cases found with
  | none => rfl
  | some i => cases i <;> rfl

theorem render_eq (m : Memory) (a : Word) (index visit : Nat) :
    render m a index visit =
      some (.ofMemory m a index visit, (Line.ofMemory m a index visit).text) := by
  have bytes (count : Nat) :
      ((List.range count).mapM fun k => read m (a + UInt16.ofNat k)) =
        some (m.readBlock a count) := by
    simp only [read_eq]
    exact List.mapM_pure
  rw [render, readWord_eq, some_bind, readWord_eq, some_bind]
  simp only [operands_decode?, some_bind, slice_slots, bytes]
  unfold Line.ofMemory Line.text Memory.instruction?
  cases Instruction.decode? (m.word a) (m.word (a + 2)) <;> rfl

theorem enter_eq (d : Disassembly) (m : Memory) (a : Word) (few : d.visits < 2 ^ 32) :
    enter d m a = some (d.visit m a) := by
  unfold enter Disassembly.visit
  split
  · rfl
  · rw [render_eq, some_bind]
    dsimp only
    rw [add_eq (by omega), some_bind]

theorem perform_eq (m : Machine) (found : Option Instruction) :
    perform m (Operand.slots (operandsOf found)) found = some (m.perform found) := by
  cases found with
  | none => rfl
  | some i => exact execute_eq m i

theorem count_eq {m : Machine} (bound : m.cycles + 1 < 2 ^ 64) :
    count m = some { m with cycles := m.cycles + 1 } := by
  rw [count, add_eq bound, some_bind]

theorem step_eq {m : Machine} (few : m.disassembly.visits < 2 ^ 32)
    (bound : m.step.cycles < 2 ^ 64) : step m = some m.step := by
  unfold step Machine.step at *
  split
  · rfl
  · rw [if_neg ‹_›] at bound
    rw [enter_eq _ _ _ few, some_bind, readWord_eq, some_bind, readWord_eq, some_bind]
    dsimp only
    rw [operands_decode?, some_bind, perform_eq, some_bind]
    exact count_eq bound

/-! ## Programs -/

/-- Places a program, keeps a copy of it as it lies in memory, and sets it running. -/
def start (m : Machine) (rom : Rom) : Option Machine := do
  let bus ← place m.toBus rom
  let last ← add 64 0x200 bus.memory.romSize
  let copy ← slice bus.memory.ram 0x200 last
  if fits : copy.toArray.size ≤ Rom.capacity then
    let placed := { m with toBus := bus, rom := ⟨copy.toArray, fits⟩ }.restart
    some { placed with toProcessor := placed.toProcessor.setHalted false }
  else none

/-- Loads a program that has no file; one that cannot be loaded changes nothing. -/
def load (m : Machine) (s : Source) : Option Machine :=
  match Rom.ofSource? s with
  | .error _ => some m
  | .ok rom => (start m rom).map fun m => { m with romPath := none }

/-- Loads a program from a file; one that cannot be loaded changes nothing. -/
def loadFile (m : Machine) (path : String) : Option Machine :=
  match m.files.read path with
  | .error _ => some m
  | .ok bytes =>
    match Rom.ofSource? ⟨bytes, none⟩ with
    | .error _ => some m
    | .ok rom => (start m rom).map fun m => { m with romPath := some path }.notify (.running path)

/-- Goes back to the stored program; nothing is placed if it does not fit. -/
def reset (m : Machine) : Option Machine := do
  let bus ← if m.rom.size ≤ Rom.capacity then place m.toBus m.rom else erase m.toBus
  some { m with toBus := bus }.restart

def unload (m : Machine) : Option Machine := do
  let bus ← erase m.toBus
  some { m with toBus := bus, rom := .empty, romPath := none }.restart

theorem slice_placed (rom : Rom) :
    slice (Memory.ofRom rom).ram 0x200 (0x200 + rom.size) = some rom.bytes.toList := by
  have fits : rom.size ≤ 0xFE00 := rom.size_le
  have front : (Font.small.toList ++ Font.large.toList ++
      List.replicate (0x200 - 240) (0 : UInt8)).length = 0x200 := by
    simp only [List.length_append, Vector.length_toList, List.length_replicate]
  have upTo : (Font.small.toList ++ Font.large.toList ++ List.replicate (0x200 - 240) 0 ++
      rom.bytes.toList).length = 0x200 + rom.size := by
    rw [List.length_append, front]
    rfl
  rw [slice_eq _ (by omega) (by omega), Memory.ram_ofRom, Memory.layout, List.take_left' upTo,
    List.drop_left' front]

theorem start_eq (m : Machine) (rom : Rom) : start m rom = some (m.start rom) := by
  have fits : rom.size ≤ 0xFE00 := rom.size_le
  rw [start, place_eq, some_bind, Machine.start, Machine.place]
  have size : (m.toBus.place rom).memory.romSize = rom.size := rfl
  have ram : (m.toBus.place rom).memory.ram = (Memory.ofRom rom).ram := rfl
  rw [size, ram, add_eq (by omega), some_bind, slice_placed, some_bind, dif_pos rom.size_le]

theorem load_eq (m : Machine) (s : Source) :
    load m s = some ((m.load s).toOption.getD m) := by
  unfold load Machine.load
  cases Rom.ofSource? s with
  | error e => rfl
  | ok rom =>
    dsimp only
    rw [start_eq]
    rfl

theorem loadFile_eq (m : Machine) (path : String) :
    loadFile m path = some ((m.loadFile path).toOption.getD m) := by
  unfold loadFile Machine.loadFile
  cases m.files.read path with
  | error e => rfl
  | ok bytes =>
    dsimp only
    cases Rom.ofSource? ⟨bytes, none⟩ with
    | error e => rfl
    | ok rom =>
      dsimp only
      rw [start_eq]
      rfl

theorem reset_eq (m : Machine) : reset m = some m.reset := by
  have fits : m.rom.size ≤ Rom.capacity := m.rom.size_le
  rw [reset, if_pos fits, place_eq, some_bind, Machine.reset, Machine.place]

theorem unload_eq (m : Machine) : unload m = some m.unload := by
  rw [unload, erase_eq, some_bind, Machine.unload]

/-! ## The operations of a host -/

def batch (m : Machine) : Nat → Option Machine
  | 0 => some m
  | n + 1 => do
    let address := m.pc
    let m ← step m
    if !m.awake then some m
    else if m.heldAt address then batch m n
    else
      match m.findBreakpoint with
      | (some b, m) => some (m.stopAt b)
      | (none, m) => batch m n

def tick (m : Machine) (n : Nat) : Option Machine :=
  if m.awake then do
    let m ← batch m n
    some { m with toProcessor := m.toProcessor.endFrame }
  else some m

/-- Counts a timer down to zero. -/
def countDown (b : UInt8) : Option UInt8 :=
  if 0 < b then (sub b.toNat 1).map UInt8.ofNat else some b

def tickTimers (m : Machine) : Option Machine := do
  let sound ← countDown m.sound
  let delay ← countDown m.delay
  some { m with sound := sound, delay := delay }

def setKey (m : Machine) (key : UInt8) (pressed : Bool) : Option Machine := do
  let keys ← put m.keys (key.toNat % 16) pressed
  some { m with keys := keys }

def pressKey (m : Machine) (key : UInt8) : Option Machine :=
  match m.keyWait with
  | none => some m
  | some r => do
    let v ← put m.v r.val key
    some { m with v := v, keyWait := none }

/-- Carries out an operation. Those at the end only pass settings on. -/
def apply (m : Machine) : Operation → Option Machine
  | .load s => load m s
  | .loadFile path => loadFile m path
  | .reset => reset m
  | .unload => unload m
  | .step => step m
  | .tick n => tick m n
  | .frame => tick m m.frameLength
  | .tickTimers => tickTimers m
  | .setHires on => setHires m on
  | .setKey key pressed => setKey m key pressed
  | .pressKey key => pressKey m key
  | o => some (m.apply o)

def turn (m : Machine) : Turn → Option Machine
  | .operation o => apply m o
  | .files fs => some { m with files := fs }

/-- The machine after some turns, if none of them goes wrong. -/
def after (m : Machine) (h : List Turn) : Option Machine :=
  h.foldlM turn m

theorem countDown_eq (b : UInt8) : countDown b = some (if 0 < b then b - 1 else 0) := by
  unfold countDown
  split
  case isTrue positive =>
    have one : 1 ≤ b.toNat := UInt8.lt_iff_toNat_lt.mp positive
    rw [sub_eq one, Option.map_some, UInt8.ofNat_sub one, UInt8.ofNat_toNat]
    rfl
  case isFalse zero =>
    rw [UInt8.not_lt] at zero
    rw [UInt8.le_antisymm zero (UInt8.zero_le)]

theorem tickTimers_eq (m : Machine) : tickTimers m = some m.tickTimers := by
  rw [tickTimers, countDown_eq, some_bind, countDown_eq, some_bind]
  rfl

theorem setKey_eq (m : Machine) (key : UInt8) (pressed : Bool) :
    setKey m key pressed = some { m with toProcessor := m.toProcessor.setKey key pressed } := by
  have place : key.toNat % 16 = (Processor.keyOf key).val := rfl
  rw [setKey, place, put_fin, some_bind]
  rfl

theorem pressKey_eq (m : Machine) (key : UInt8) :
    pressKey m key = some { m with toProcessor := m.toProcessor.pressKey key } := by
  unfold pressKey Processor.pressKey
  cases m.keyWait with
  | none => rfl
  | some r =>
    dsimp only
    rw [put_fin, some_bind]
    rfl

/-- The counters of a machine are far from the end of their range. -/
def Countable (m : Machine) : Prop :=
  m.disassembly.visits ≤ 0x10000 ∧ m.cycles < 2 ^ 64

theorem step_countable {m : Machine} (h : Countable m) (h' : Countable m.step) :
    step m = some m.step :=
  step_eq (Nat.lt_of_le_of_lt h.1 (by decide)) h'.2

theorem batch_eq {m : Machine} {n : Nat} (h : Along Countable m (m.batchMoves n)) :
    batch m n = some (m.batch n) := by
  induction n generalizing m with
  | zero => rfl
  | succ n ih =>
    rw [batchMoves] at h
    rw [batch, Machine.batch, step_countable h.1 h.2.start, some_bind]
    have later := h.2
    change Along Countable m.step _ at later
    split
    · rfl
    · rw [if_neg ‹_›] at later
      split
      · rw [if_pos ‹_›] at later
        exact ih later
      · rw [if_neg ‹_›] at later
        unfold findBreakpoint
        cases found : m.step.breakpoint? with
        | some b => rfl
        | none =>
          rw [found] at later
          exact ih later

theorem tick_eq {m : Machine} {n : Nat} (h : Along Countable m (m.tickMoves n)) :
    tick m n = some (m.tick n) := by
  unfold tick Machine.tick
  split
  · rw [tickMoves, if_pos ‹_›, along_append] at h
    rw [batch_eq h.1, some_bind]
  · rfl

theorem turn_eq {m : Machine} {t : Turn} (h : Along Countable m (m.turnMoves t)) :
    turn m t = some (m.turn t) := by
  cases t with
  | files fs => rfl
  | operation o =>
    cases o with
    | load s => exact load_eq m s
    | loadFile path => exact loadFile_eq m path
    | reset => exact reset_eq m
    | unload => exact unload_eq m
    | step => exact step_countable h.1 h.2
    | tick n => exact tick_eq h
    | frame => exact tick_eq h
    | tickTimers => exact tickTimers_eq m
    | setHires on => exact setHires_eq m on
    | setKey key pressed => exact setKey_eq m key pressed
    | pressKey key => exact pressKey_eq m key
    | _ => rfl

theorem after_eq {m : Machine} {h : List Turn} (along : Along Countable m (m.history h)) :
    after m h = some (m.after h) := by
  induction h generalizing m with
  | nil => rfl
  | cons t ts ih =>
    rw [history, along_append, run_turnMoves] at along
    rw [after, List.foldlM_cons, turn_eq along.1, some_bind]
    exact ih along.2

/-- Whatever a host does with a machine just switched on, everything is well-formed at every move,
and as long as the counter of instructions is in its range, no place is missed and no number leaves
its range. -/
theorem never_fails (random : Random) (h : List Turn) :
    Along WellFormed (fresh random) ((fresh random).history h) ∧
    (Along (fun m => m.cycles < 2 ^ 64) (fresh random) ((fresh random).history h) →
      after (fresh random) h = some ((fresh random).after h)) := by
  have wellFormed := wellFormed_history random h
  refine ⟨wellFormed, fun inRange => after_eq ((wellFormed.and inRange).mono ?_)⟩
  rintro m ⟨sound, cycles⟩
  exact ⟨sound.visits ▸ sound.lines, cycles⟩

/-- A program that counts a register up is loaded and carried out for two instructions. -/
theorem never_fails_counting :
    let rom : Rom := ⟨#[0x70, 0x01, 0x12, 0x00], by decide⟩
    let h : List Turn :=
      [.operation (.load ⟨rom.bytes.toList, none⟩), .operation .step, .operation .step]
    Along (fun m => m.cycles < 2 ^ 64) (fresh default) ((fresh default).history h) ∧
    after (fresh default) h = some ((fresh default).after h) := by
  intro rom h
  have inRange :
      Along (fun m => m.cycles < 2 ^ 64) (fresh default) ((fresh default).history h) := by
    let m := (fresh default).apply (.load ⟨rom.bytes.toList, none⟩)
    have before : m.cycles = 0 := by
      have loaded : m = _ := apply_load_bytes (fresh default) rom
      rw [loaded]
      exact congrArg Processor.cycles ((fresh default).start_justLoaded rom).processor
    have first := m.cycles_step_le
    have second := m.step.cycles_step_le
    have start : (fresh default).cycles = 0 := rfl
    refine ⟨?_, ?_, ?_, ?_⟩
    · omega
    · change m.cycles < 2 ^ 64
      omega
    · change m.step.cycles < 2 ^ 64
      omega
    · change m.step.step.cycles < 2 ^ 64
      omega
  exact ⟨inRange, (never_fails default h).2 inRange⟩

end XoChip.Checked
