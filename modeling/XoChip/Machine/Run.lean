import XoChip.Machine.Execute

/-!
Running: single steps, batches that breakpoints and waits cut short, and frames.
-/

namespace XoChip.Machine

/-- Enters where execution stands into the disassembly. -/
def enter (m : Machine) : Machine :=
  { m with disassembly := m.disassembly.visit m.memory m.pc }

/-- Moves behind an instruction of the given length, keeping its first word. -/
def moveBehind (m : Machine) (word : Word) (length : Nat) : Machine :=
  { m with latch := word, pc := m.pc + UInt16.ofNat length }

def report (m : Machine) (address word : Word) (found : Option Instruction) : Machine :=
  let m := if found.isNone then m.notify (.invalid address word) else m
  m.notify (.executed address word (Instruction.formOf found))

/-- Carries out what stands at the program counter; a word that is no instruction does nothing. -/
def perform (m : Machine) (found : Option Instruction) : Machine :=
  match found with
  | some i => m.execute i
  | none => m

/-- One instruction, halted or not; nothing while a key is awaited. -/
def step (m : Machine) : Machine :=
  if m.waiting then m
  else
    let address := m.pc
    let word := m.memory.word address
    let found := m.memory.instruction? address
    let m := (m.enter.moveBehind word (Instruction.formOf found).size).report address word found
    let m := m.perform found
    { m with cycles := m.cycles + 1 }

/-- A sprite waits and execution has not left its address. -/
def heldAt (m : Machine) (address : Word) : Bool :=
  m.frameWait != .idle && m.pc == address

/-- Halts on account of a breakpoint. -/
def stopAt (m : Machine) (b : Breakpoint) : Machine :=
  { m.setHalted true with stoppedAt := some b }

/-- Up to so many instructions, until the machine halts, awaits a key or comes to a breakpoint.
A sprite that is held back does not come to its own address again. -/
def batch (m : Machine) : Nat → Machine
  | 0 => m
  | n + 1 =>
    let address := m.pc
    let m := m.step
    if !m.awake then m
    else if m.heldAt address then m.batch n
    else
      match m.findBreakpoint with
      | (some b, m) => m.stopAt b
      | (none, m) => m.batch n

/-- A batch after which the frame ends; nothing unless the machine is awake. -/
def tick (m : Machine) (n : Nat) : Machine :=
  if m.awake then
    let m := m.batch n
    { m with toProcessor := m.toProcessor.endFrame }
  else m

def frame (m : Machine) : Machine :=
  m.tick m.frameLength

def tickTimers (m : Machine) : Machine :=
  { m with toProcessor := m.toProcessor.tickTimers }

end XoChip.Machine
