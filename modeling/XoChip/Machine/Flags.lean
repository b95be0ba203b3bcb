import XoChip.Machine.Basic

/-!
The flag file beside a program's own file, in which registers outlive a run.
-/

namespace XoChip.Machine

/-- Sixteen bytes: the registers from v0 to `x`, then zeros. -/
def flags (v : Registers) (x : Register) : List UInt8 :=
  v.upTo x ++ List.replicate (15 - x.val) 0

def saveFlags (m : Machine) (x : Register) : Machine :=
  match m.flagsPath with
  | none => m.notify .noFlagsToSave
  | some path =>
    match m.files.write path (flags m.v x) with
    | .ok files => { m with files := files }
    | .error e => m.notify (.flagsNotSaved path e.message)

/-- Where there is nothing to read, every register becomes zero. -/
def loadFlags (m : Machine) (x : Register) : Machine :=
  match m.flagsPath with
  | none => { m.notify .noFlagsToLoad with v := Vector.replicate 16 0 }
  | some path =>
    match m.files.read path with
    | .ok bytes => { m with v := m.v.overwrite x bytes }
    | .error e => { m.notify (.flagsNotLoaded path e.message) with v := Vector.replicate 16 0 }

end XoChip.Machine
