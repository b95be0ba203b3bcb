import XoChip.Dialect
import XoChip.Instruction.Form

/-!
What the machine reports while it runs: notices for a log, kept down to a level of detail, and
events for whoever listens.
-/

namespace XoChip

inductive Level
  | error
  | warn
  | info
  | debug
  | trace
  deriving DecidableEq, Repr

namespace Level

/-- How detailed a level is. -/
def rank : Level → Nat
  | error => 1
  | warn => 2
  | info => 3
  | debug => 4
  | trace => 5

def name : Level → String
  | error => "error"
  | warn => "warn"
  | info => "info"
  | debug => "debug"
  | trace => "trace"

def ofName? (s : String) : Option Level :=
  [error, warn, info, debug, trace].find? fun l => l.name == s

end Level

/-- The two faults a program can commit that the machine repairs and reports. -/
inductive Event
  | stackUnderflow
  | rejectedWrite (address : Word)
  deriving DecidableEq, Repr

inductive Notice
  | loaded (size : Nat)
  | running (path : String)
  | adopted (profile : Profile)
  | halted
  | resumed
  | reached (label : String) (address : Word)
  | invalid (address word : Word)
  | executed (address word : Word) (form : Form)
  | rejectedWrite (address : Word) (byte : UInt8)
  | stackUnderflow
  | noFlagsToSave
  | noFlagsToLoad
  | flagsNotSaved (path reason : String)
  | flagsNotLoaded (path reason : String)
  deriving DecidableEq, Repr

namespace Notice

def level : Notice → Level
  | loaded _ | running _ | adopted _ | halted | resumed | reached _ _ => .debug
  | executed _ _ _ => .trace
  | invalid _ _ | rejectedWrite _ _ | stackUnderflow | noFlagsToSave | noFlagsToLoad
  | flagsNotSaved _ _ | flagsNotLoaded _ _ => .warn

def message : Notice → String
  | loaded size => s!"loaded {size} byte ROM at 0x0200"
  | running path => s!"running {path}"
  | adopted profile => s!"profile {profile.title}"
  | halted => "halted"
  | resumed => "resumed"
  | reached label address => s!"breakpoint {label} hit at 0x{Hex.field 4 address.toNat}"
  | invalid address word =>
    s!"Invalid opcode at 0x{Hex.field 4 address.toNat}: 0x{Hex.field 4 word.toNat}"
  | executed address word form =>
    s!"{Hex.field 4 address.toNat}: {Hex.field 4 word.toNat} {form.encodingText}"
  | rejectedWrite address byte =>
    s!"rejected write of 0x{Hex.field 2 byte.toNat} to 0x{Hex.field 4 address.toNat}"
  | stackUnderflow => "stack underflow"
  | noFlagsToSave => "no rom path to save flags against"
  | noFlagsToLoad => "no rom path to load flags from"
  | flagsNotSaved path reason => s!"unable to save flags to {path}: {reason}"
  | flagsNotLoaded path reason => s!"unable to load flags from {path}: {reason}"

/-- The event a listener hears with the notice. -/
def event? : Notice → Option Event
  | rejectedWrite address _ => some (.rejectedWrite address)
  | stackUnderflow => some .stackUnderflow
  | _ => none

end Notice

structure Monitor where
  /-- The most detailed level kept. -/
  detail : Option Level
  log : Array Notice
  listening : Bool
  events : Array Event

namespace Monitor

def silent : Monitor := ⟨none, #[], false, #[]⟩

instance : Inhabited Monitor := ⟨silent⟩

def keeps (m : Monitor) (n : Notice) : Bool :=
  match m.detail with
  | none => false
  | some level => n.level.rank ≤ level.rank

def write (m : Monitor) (n : Notice) : Monitor :=
  if m.keeps n then { m with log := m.log.push n } else m

def hear (m : Monitor) : Option Event → Monitor
  | none => m
  | some e => if m.listening then { m with events := m.events.push e } else m

def notify (m : Monitor) (n : Notice) : Monitor :=
  (m.write n).hear n.event?

end Monitor

end XoChip
