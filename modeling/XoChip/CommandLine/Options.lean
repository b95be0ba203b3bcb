import XoChip.CommandLine.Address
import XoChip.Dialect

/-!
The options of a run, and what is said of arguments that do not give them.
-/

namespace XoChip.CommandLine

structure Options where
  rom : String
  profile : Profile := default
  cycles : Nat := 100
  frames : Nat := 60
  variations : List Variation := []
  breakpoints : List Word := []
  disassemble : Bool := false
  deriving DecidableEq, Repr

/-- The options that take a value. -/
inductive Setting
  | profile
  | cycles
  | frames
  | variation
  | breakpoint
  deriving DecidableEq, Repr

namespace Setting

def all : List Setting := [profile, cycles, frames, variation, breakpoint]

def name : Setting → String
  | profile => "profile"
  | cycles => "cycles"
  | frames => "frames"
  | variation => "quirk"
  | breakpoint => "break"

def ofName? (s : String) : Option Setting :=
  all.find? fun o => o.name == s

end Setting

inductive UsageError
  | unknownArgument (argument : String)
  | surplusArgument (argument : String)
  | surplusValue (option : String)
  | missingValue (setting : Setting)
  | repeated (option : String)
  | badValue (setting : Setting) (value : String)
  | unknownVariation (name : String)
  | badAddress (text : String) (reason : AddressError)
  | emptyPath
  | missingRom
  deriving DecidableEq, Repr

def UsageError.message : UsageError → String
  | unknownArgument argument => s!"unexpected argument '{argument}'"
  | surplusArgument argument => s!"unexpected argument '{argument}'"
  | surplusValue option => s!"option '--{option}' takes no value"
  | missingValue setting => s!"option '--{setting.name}' needs a value"
  | repeated option => s!"option '--{option}' given twice"
  | badValue setting value => s!"invalid value '{value}' for '--{setting.name}'"
  | unknownVariation name => s!"unknown quirk '{name}'"
  | badAddress text reason => s!"bad address '{text}': {reason.message}"
  | emptyPath => "the path of the ROM is empty"
  | missingRom => "the path of a ROM is required"

end XoChip.CommandLine
