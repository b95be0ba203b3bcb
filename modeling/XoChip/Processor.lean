import XoChip.Dialect
import XoChip.Word

/-!
The register file, the timers and keys, and what decides whether execution goes on: halting, the
wait for a key, the wait of a sprite for the end of the frame, and breakpoints.
-/

namespace XoChip

structure Breakpoint where
  label : String
  address : Word
  enabled : Bool
  deriving DecidableEq, Repr

/-- How far a sprite has come that waits for the end of the frame. -/
inductive FrameWait
  /-- No sprite waits. -/
  | idle
  /-- A sprite waits. -/
  | pending
  /-- The frame in which it waited has ended. -/
  | ready
  deriving DecidableEq, Repr

abbrev Registers := Vector UInt8 16

/-- Writes a byte to a register. -/
def Registers.put (v : Registers) (x : Register) (b : UInt8) : Registers :=
  v.set x b

/-- The register that carries, borrows and collisions are written to. -/
def Register.flag : Register := 0xF

structure Processor where
  v : Registers
  pc : Word
  /-- The word fetched last. -/
  latch : Word
  /-- The index register. -/
  i : Word
  delay : UInt8
  sound : UInt8
  /-- The pitch of the audio pattern, in steps of a forty-eighth of an octave. -/
  pitch : UInt8
  keys : Vector Bool 16
  dialect : Dialect
  breakpoints : List Breakpoint
  halted : Bool
  /-- The register that awaits a key. -/
  keyWait : Option Register
  frameWait : FrameWait
  /-- Whether the pitch was set since it was last asked for. -/
  pitchDirty : Bool
  /-- Instructions executed since the last reset. -/
  cycles : Nat

namespace Processor

def fresh : Processor where
  v := Vector.replicate 16 0
  pc := 0x200
  latch := 0
  i := 0
  delay := 0
  sound := 0
  pitch := 64
  keys := Vector.replicate 16 false
  dialect := .plain
  breakpoints := []
  halted := true
  keyWait := none
  frameWait := .idle
  pitchDirty := false
  cycles := 0

instance : Inhabited Processor := ⟨fresh⟩

/-- The state at power on; breakpoints stay. -/
def reset (p : Processor) : Processor :=
  { fresh with breakpoints := p.breakpoints }

def waiting (p : Processor) : Bool :=
  p.keyWait.isSome

/-- Neither halted nor waiting for a key. -/
def awake (p : Processor) : Bool :=
  !p.halted && !p.waiting

/-- Halting and resuming give up every wait. -/
def setHalted (p : Processor) (on : Bool) : Processor :=
  { p with halted := on, keyWait := none, frameWait := .idle }

def tickTimers (p : Processor) : Processor :=
  { p with
    delay := if 0 < p.delay then p.delay - 1 else 0
    sound := if 0 < p.sound then p.sound - 1 else 0 }

/-- The key a byte stands for. -/
def keyOf (b : UInt8) : Fin 16 :=
  Fin.ofNat 16 b.toNat

def setKey (p : Processor) (key : UInt8) (pressed : Bool) : Processor :=
  { p with keys := p.keys.set (keyOf key) pressed }

/-- A key pressed and released ends the wait for one. -/
def pressKey (p : Processor) (key : UInt8) : Processor :=
  match p.keyWait with
  | some r => { p with v := p.v.put r key, keyWait := none }
  | none => p

def switchAll (p : Processor) (vs : List Variation) (on : Bool) : Processor :=
  { p with dialect := p.dialect.switchAll vs on }

/-- Whether a sprite drawn now has to wait. -/
def holdsSprites (p : Processor) : Bool :=
  p.dialect.vblank && p.frameWait != .ready

/-- The frame ends for a sprite that waits. -/
def endFrame (p : Processor) : Processor :=
  if p.frameWait = .pending then { p with frameWait := .ready } else p

/-- The frequency at which the audio pattern is played, in hertz. -/
def hertz (p : Processor) : Float :=
  4000 * Float.pow 2 ((p.pitch.toFloat - 64) / 48)

def addBreakpoint (p : Processor) (b : Breakpoint) : Processor :=
  { p with breakpoints := p.breakpoints ++ [b] }

/-- Enables or disables the first breakpoint with the label. -/
def toggleBreakpoint (p : Processor) (label : String) : Processor :=
  { p with breakpoints := toggle p.breakpoints }
where
  toggle : List Breakpoint → List Breakpoint
    | [] => []
    | b :: rest =>
      if b.label = label then { b with enabled := !b.enabled } :: rest else b :: toggle rest

def removeBreakpoint (p : Processor) (label : String) : Processor :=
  { p with breakpoints := p.breakpoints.filter fun b => b.label ≠ label }

def clearBreakpoints (p : Processor) : Processor :=
  { p with breakpoints := [] }

/-- The first enabled breakpoint where execution stands. -/
def breakpoint? (p : Processor) : Option Breakpoint :=
  p.breakpoints.find? fun b => b.enabled && b.address == p.pc

end Processor

end XoChip
