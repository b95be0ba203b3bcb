import XoChip.Machine.Basic

/-!
Placing a program in the machine, going back to it and taking it out.
-/

namespace XoChip.Machine

/-- Everything but breakpoints, palette and settings goes back to its state at power on, in the
dialect of the profile. -/
def restart (m : Machine) : Machine :=
  { m with
    toProcessor := { m.toProcessor.reset with dialect := m.profile.dialect }
    display := m.display.reset
    disassembly := .empty
    stoppedAt := none }

/-- Places a program and leaves the machine halted at its start. -/
def place (m : Machine) (rom : Rom) : Machine :=
  { m with toBus := m.toBus.place rom, rom := rom }.restart

/-- Places a program and sets it running. -/
def start (m : Machine) (rom : Rom) : Machine :=
  let m := m.place rom
  { m with toProcessor := m.toProcessor.setHalted false }

/-- Loads a program that has no file. -/
def load (m : Machine) (s : Source) : Except LoadError Machine :=
  (Rom.ofSource? s).map fun rom => { m.start rom with romPath := none }

/-- Loads a program from a file, beside which its flags are kept. -/
def loadFile (m : Machine) (path : String) : Except LoadError Machine :=
  match m.files.read path with
  | .error e => .error (.unreadable e.message)
  | .ok bytes =>
    (Rom.ofSource? ⟨bytes, none⟩).map fun rom =>
      { m.start rom with romPath := some path }.notify (.running path)

/-- Goes back to the program as it was loaded, halted. -/
def reset (m : Machine) : Machine :=
  m.place m.rom

/-- Takes the program out. -/
def unload (m : Machine) : Machine :=
  { m with toBus := m.toBus.erase, rom := .empty, romPath := none }.restart

end XoChip.Machine
