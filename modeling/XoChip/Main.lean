import XoChip.CommandLine.Arguments

/-!
The program: fetches the files a call may touch, plays the run, and puts back what it changed.
-/

namespace XoChip.CommandLine

/-- What stands at a path; what cannot be read counts as a directory. -/
def look (path : String) : IO (Option FileEntry) := do
  match ← (IO.FS.readBinFile path).toBaseIO with
  | .ok bytes => return some (.file bytes.toList)
  | .error (.noFileOrDirectory ..) => return none
  | .error _ => return some .directory

def snapshot (paths : List String) : IO FileSystem :=
  paths.foldlM (fun files path => do
    match ← look path with
    | some entry => return files.plant path entry
    | none => return files) .empty

/-- Writes the files of which `after` differs from `before`. -/
def writeBack (paths : List String) (before after : FileSystem) : IO Unit :=
  for path in paths do
    match after.read path with
    | .ok bytes =>
      if (before.read path).toOption != some bytes then IO.FS.writeBinFile path ⟨bytes.toArray⟩
    | .error _ => pure ()

def seed : IO UInt64 := do
  return (← IO.getRandomBytes 8).toList.foldl (fun s b => s <<< 8 ||| b.toUInt64) 0

/-- Spreads the bits of a counter over the whole word. -/
def scramble (z : UInt64) : UInt64 :=
  let z := (z ^^^ (z >>> 30)) * 0xBF58476D1CE4E5B9
  let z := (z ^^^ (z >>> 27)) * 0x94D049BB133111EB
  z ^^^ (z >>> 31)

/-- The random bytes of a run: those of a counter of odd step, scrambled. -/
def generator (seed : UInt64) : Random where
  byte n := (scramble (seed + UInt64.ofNat (n + 1) * 0x9E3779B97F4A7C15) >>> 56).toUInt8

def program (args : List String) : IO UInt32 := do
  let paths := touched args
  let before ← snapshot paths
  let outcome := run args before (generator (← seed))
  match outcome with
  | .help => IO.println usage
  | .misused e => IO.eprintln s!"error: {e.message}"
  | .notLoaded e => IO.eprintln s!"error: {e.message}"
  | .finished report after =>
    writeBack paths before after
    IO.print report
  return outcome.exitCode

end XoChip.CommandLine

def main (args : List String) : IO UInt32 :=
  XoChip.CommandLine.program args
