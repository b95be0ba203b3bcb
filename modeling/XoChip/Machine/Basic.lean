import XoChip.Bus
import XoChip.Disassembly
import XoChip.Display.Sprite
import XoChip.FileSystem.Basic
import XoChip.Random
import XoChip.Registers

/-!
The whole machine: bus, processor, display and disassembly, with the program it runs and the files
it can reach.
-/

namespace XoChip

structure Machine extends Bus, Processor where
  display : Display
  disassembly : Disassembly
  random : Random
  /-- The program to go back to on reset. -/
  rom : Rom
  /-- The file the program came from. -/
  romPath : Option String
  profile : Profile
  /-- Instructions in a frame. -/
  frameLength : Nat
  /-- The breakpoint that halted the machine last, until it resumes. -/
  stoppedAt : Option Breakpoint
  files : FileSystem

namespace Machine

/-- A machine just switched on, without a program. -/
def fresh (random : Random) : Machine where
  toBus := .blank
  toProcessor := .fresh
  display := .blank
  disassembly := .empty
  random := random
  rom := .empty
  romPath := none
  profile := default
  frameLength := 100
  stoppedAt := none
  files := .empty

instance : Inhabited Machine := ⟨fresh default⟩

def notify (m : Machine) (n : Notice) : Machine :=
  { m with toBus := m.toBus.notify n }

/-- A program is loaded and not halted. -/
def running (m : Machine) : Bool :=
  m.rom.size != 0 && !m.halted

def setHalted (m : Machine) (on : Bool) : Machine :=
  let m := m.notify (if on then .halted else .resumed)
  { m with
    toProcessor := m.toProcessor.setHalted on
    stoppedAt := if on then m.stoppedAt else none }

/-- Changes the resolution and blanks both planes. -/
def setHires (m : Machine) (on : Bool) : Machine :=
  { m with display := m.display.switchTo on }

/-- The dialect of a profile replaces the one in force. -/
def setProfile (m : Machine) (p : Profile) : Machine :=
  { m.notify (.adopted p) with profile := p, dialect := p.dialect }

/-- Asks for the breakpoint where execution stands; one that is found is reported. -/
def findBreakpoint (m : Machine) : Option Breakpoint × Machine :=
  match m.breakpoint? with
  | some b => (some b, m.notify (.reached b.label m.pc))
  | none => (none, m)

/-- The name of the file the program came from. -/
def romName? (m : Machine) : Option String :=
  m.romPath.bind Path.name?

/-- Where the flags of the program are kept. -/
def flagsPath (m : Machine) : Option String :=
  m.romPath.map (· ++ ".flags")

end Machine

end XoChip
