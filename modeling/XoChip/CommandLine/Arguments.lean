import XoChip.CommandLine.Session

/-!
The outer layer of the command line: how arguments are read into the options of a run. A value that
stands in an argument of its own is looked at when the next argument is taken up, so a fault in how
that argument is written is found first.
-/

namespace XoChip.CommandLine

/-- What is printed when help is asked for. -/
def usage : String :=
  "Runs a CHIP-8, SCHIP or XO-CHIP ROM and prints the final screen.

usage: xochip [options] ROM

  --profile vip|schip|xo-chip  the interpreter to follow (xo-chip)
  --cycles N                   instructions in a frame (100)
  --frames N                   frames to run (60)
  --quirk NAME                 one more point to follow an interpreter on (can repeat):
                               shift, load-store, clip, jump, logic, lores-sprites,
                               vblank, i-reg-carry
  --break ADDR                 halt at a hexadecimal address (can repeat)
  --disassemble                list every instruction reached
  -h, --help                   print this text"

/-- A decimal number from 0 to 4294967295; a sign may stand before it. -/
def count? (s : String) : Option Nat :=
  let (negative, digits) :=
    match s.toList with
    | '-' :: ds => (true, ds)
    | '+' :: ds => (false, ds)
    | ds => (false, ds)
  if digits.isEmpty || !digits.all Char.isDigit then none
  else
    let n := digits.foldl (fun acc c => 10 * acc + (c.toNat - 48)) 0
    if n < 0x100000000 && !(negative && n != 0) then some n else none

/-- Options given so far. -/
structure Draft where
  rom : Option String := none
  profile : Option Profile := none
  cycles : Option Nat := none
  frames : Option Nat := none
  variations : List Variation := []
  breakpoints : List Word := []
  disassemble : Bool := false
  deriving DecidableEq, Repr

namespace Draft

def repeats (d : Draft) : Setting → Bool
  | .profile => d.profile.isSome
  | .cycles => d.cycles.isSome
  | .frames => d.frames.isSome
  | .variation | .breakpoint => false

def assignFresh (d : Draft) (s : Setting) (value : String) : Except UsageError Draft :=
  match s with
  | .profile =>
    match Profile.ofName? value with
    | some p => .ok { d with profile := some p }
    | none => .error (.badValue s value)
  | .cycles =>
    match count? value with
    | some n => .ok { d with cycles := some n }
    | none => .error (.badValue s value)
  | .frames =>
    match count? value with
    | some n => .ok { d with frames := some n }
    | none => .error (.badValue s value)
  | .variation =>
    match Variation.ofName? value with
    | some v => .ok { d with variations := d.variations ++ [v] }
    | none => .error (.unknownVariation value)
  | .breakpoint =>
    match Address.parse value with
    | .ok a => .ok { d with breakpoints := d.breakpoints ++ [a] }
    | .error e => .error (.badAddress value e)

/-- Gives a setting its value; that a setting is repeated comes before what its value is. -/
def assign (d : Draft) (s : Setting) (value : String) : Except UsageError Draft :=
  if d.repeats s then .error (.repeated s.name) else d.assignFresh s value

def setDisassemble (d : Draft) : Except UsageError Draft :=
  if d.disassemble then .error (.repeated "disassemble") else .ok { d with disassemble := true }

def setRom (d : Draft) (path : String) : Except UsageError Draft :=
  if path.isEmpty then .error .emptyPath else .ok { d with rom := some path }

/-- What was not given takes its default; a program has none. -/
def complete (d : Draft) : Except UsageError Options :=
  match d.rom with
  | none => .error .missingRom
  | some rom =>
    .ok {
      rom := rom
      profile := d.profile.getD default
      cycles := d.cycles.getD 100
      frames := d.frames.getD 60
      variations := d.variations
      breakpoints := d.breakpoints
      disassemble := d.disassemble }

end Draft

/-- What the argument before left open. -/
inductive Open
  | nothing
  /-- An option stands without its value. -/
  | wants (setting : Setting)
  /-- A value stands that has not been looked at. -/
  | holds (setting : Setting) (value : String)
  | path (path : String)
  deriving DecidableEq, Repr

namespace Open

/-- Takes what is open into the draft. -/
def settle (o : Open) (d : Draft) : Except UsageError Draft :=
  match o with
  | nothing => .ok d
  | wants s => .error (.missingValue s)
  | holds s value => d.assign s value
  | path p => d.setRom p

def isPath : Open → Bool
  | path _ => true
  | _ => false

end Open

/-- An argument by the way it is written. -/
inductive Argument
  /-- What follows is not read as options. -/
  | divider
  | long (name : String) (value : Option String)
  | short (letters : String)
  | plain (text : String)
  deriving DecidableEq, Repr

/-- A lone hyphen is plain. -/
def Argument.ofString (s : String) : Argument :=
  match s.toList with
  | ['-', '-'] => .divider
  | '-' :: '-' :: cs =>
    match cs.dropWhile (· != '=') with
    | [] => .long (String.ofList cs) none
    | _ :: value => .long (String.ofList (cs.takeWhile (· != '='))) (some (String.ofList value))
  | '-' :: c :: cs => .short (String.ofList (c :: cs))
  | _ => .plain s

/-- What the arguments ask for. -/
inductive Request
  | help
  | run (options : Options)
  deriving DecidableEq, Repr

/-- Reads arguments one by one; after a divider all of them are plain. -/
def read (divided : Bool) (o : Open) (d : Draft) : List String → Except UsageError Request
  | [] => do return .run (← (← o.settle d).complete)
  | arg :: rest =>
    let path (text : String) : Except UsageError Request :=
      if d.rom.isSome || o.isPath then .error (.surplusArgument text)
      else do read divided (.path text) (← o.settle d) rest
    if divided then path arg
    else
      match Argument.ofString arg with
      | .divider => read true o d rest
      | .long "help" none => do let _ ← o.settle d; return .help
      | .long "disassemble" none => do
        read divided .nothing (← (← o.settle d).setDisassemble) rest
      | .long "disassemble" (some _) => .error (.surplusValue "disassemble")
      | .long name value =>
        match Setting.ofName? name, value with
        | none, _ => .error (.unknownArgument arg)
        | some s, none => do read divided (.wants s) (← o.settle d) rest
        | some s, some text => do read divided .nothing (← (← o.settle d).assign s text) rest
      | .short letters =>
        if letters.startsWith "h" then do let _ ← o.settle d; return .help
        else .error (.unknownArgument arg)
      | .plain text =>
        match o with
        | .wants s => read divided (.holds s text) d rest
        | _ => path text

def parse (args : List String) : Except UsageError Request :=
  read false .nothing {} args

/-- The files a call may touch. -/
def touched (args : List String) : List String :=
  match parse args with
  | .ok (.run o) => [o.rom, o.rom ++ ".flags"]
  | _ => []

def run (args : List String) (files : FileSystem) (random : Random) : Outcome :=
  match parse args with
  | .error e => .misused e
  | .ok .help => .help
  | .ok (.run o) => conclude o files random

end XoChip.CommandLine
