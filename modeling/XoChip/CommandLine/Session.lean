import XoChip.CommandLine.Options
import XoChip.Machine.Operation

/-!
A run from the command line: a program played for some frames without a screen, and the report
printed at its end.
-/

namespace XoChip

/-- Plays up to so many frames while a program runs, and adds their number to `played`. -/
def Machine.play (m : Machine) (played : Nat) : Nat → Nat × Machine
  | 0 => (played, m)
  | n + 1 => if m.running then m.frame.tickTimers.play (played + 1) n else (played, m)

namespace CommandLine

/-- The machine with the program loaded, ready to be played. -/
def prepare (o : Options) (files : FileSystem) (random : Random) : Except LoadError Machine := do
  let m := { Machine.fresh random with files := files }
  let m := { m.setProfile o.profile with frameLength := o.cycles }
  let m ← m.loadFile o.rom
  let m := m.apply (.switchAll o.variations true)
  return o.breakpoints.zipIdx.foldl
    (fun m (address, n) => m.apply (.addBreakpoint s!"break{n}" address)) m

/-- A run played to its end. -/
structure Session where
  frames : Nat
  machine : Machine

def play (o : Options) (files : FileSystem) (random : Random) : Except LoadError Session := do
  let (frames, m) := (← prepare o files random).play 0 o.frames
  return ⟨frames, m⟩

namespace Session

/-- How a pixel is printed. -/
def mark (first second : Bool) : Char :=
  match first, second with
  | false, false => ' '
  | true, false => '1'
  | false, true => '2'
  | true, true => '#'

/-- Every other stored row of both planes, a line each. -/
def screen (d : Display) : String :=
  let lines := (List.range 32).map fun y =>
    let first := d.planes[0][Fin.ofNat 64 (2 * y)]
    let second := d.planes[1][Fin.ofNat 64 (2 * y)]
    String.ofList ((first.zipWith mark second).toList ++ ['\n'])
  String.join lines

/-- Address, bytes in a column of eleven characters, and text. -/
def listed (l : Line) : String :=
  let hex := String.ofList (l.hex.toList.rightpad 11 ' ')
  s!"{Hex.field 4 l.address.toNat}  {hex}  {l.text}\n"

def report (s : Session) (o : Options) : String :=
  let stopped := match s.machine.stoppedAt with
    | some b => s!"stopped at {b.label} (0x{Hex.field 4 b.address.toNat})\n"
    | none => ""
  let waiting := if s.machine.waiting then "waiting for a key press\n" else ""
  let count := s!"ran {s.frames} frames, {s.machine.cycles} instructions\n"
  let listing :=
    if o.disassemble then String.join (s.machine.disassembly.renumber.lines.map listed) else ""
  stopped ++ waiting ++ count ++ screen s.machine.display ++ listing

end Session

/-- How a call of the program ends. -/
inductive Outcome
  | help
  | misused (error : UsageError)
  | notLoaded (error : LoadError)
  | finished (report : String) (files : FileSystem)

def Outcome.exitCode : Outcome → UInt32
  | help | finished _ _ => 0
  | notLoaded _ => 1
  | misused _ => 2

/-- Plays what the options ask for. -/
def conclude (o : Options) (files : FileSystem) (random : Random) : Outcome :=
  match play o files random with
  | .error e => .notLoaded e
  | .ok s => .finished (s.report o) s.machine.files

end CommandLine

end XoChip
