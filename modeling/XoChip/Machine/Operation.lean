import XoChip.Machine.Load
import XoChip.Machine.Run

/-!
The operations a host can carry out on a machine, as values, and histories of them.
-/

namespace XoChip

inductive Operation
  | load (source : Source)
  | loadFile (path : String)
  | reset
  | unload
  | step
  | tick (cycles : Nat)
  | frame
  | tickTimers
  | setHalted (on : Bool)
  | setFrameLength (cycles : Nat)
  | setHires (on : Bool)
  | setKey (key : UInt8) (pressed : Bool)
  | pressKey (key : UInt8)
  | setProfile (profile : Profile)
  | switchAll (variations : List Variation) (on : Bool)
  | addBreakpoint (label : String) (address : Word)
  | toggleBreakpoint (label : String)
  | removeBreakpoint (label : String)
  | clearBreakpoints
  | findBreakpoint
  | setColor (index : Nat) (color : Color)
  | setPalette (palette : Palette)
  /-- Forget that the pitch was set. -/
  | settlePitch
  | renumber
  /-- Start or stop listening for events. -/
  | listen (on : Bool)

namespace Machine

/-- Carries out an operation; a program that cannot be loaded changes nothing. -/
def apply (m : Machine) : Operation → Machine
  | .load source => (m.load source).toOption.getD m
  | .loadFile path => (m.loadFile path).toOption.getD m
  | .reset => m.reset
  | .unload => m.unload
  | .step => m.step
  | .tick n => m.tick n
  | .frame => m.frame
  | .tickTimers => m.tickTimers
  | .setHalted on => m.setHalted on
  | .setFrameLength n => { m with frameLength := n }
  | .setHires on => m.setHires on
  | .setKey key pressed => { m with toProcessor := m.toProcessor.setKey key pressed }
  | .pressKey key => { m with toProcessor := m.toProcessor.pressKey key }
  | .setProfile p => m.setProfile p
  | .switchAll vs on => { m with toProcessor := m.toProcessor.switchAll vs on }
  | .addBreakpoint label address =>
    { m with toProcessor := m.toProcessor.addBreakpoint ⟨label, address, true⟩ }
  | .toggleBreakpoint label => { m with toProcessor := m.toProcessor.toggleBreakpoint label }
  | .removeBreakpoint label => { m with toProcessor := m.toProcessor.removeBreakpoint label }
  | .clearBreakpoints => { m with toProcessor := m.toProcessor.clearBreakpoints }
  | .findBreakpoint => m.findBreakpoint.2
  | .setColor index color => { m with display := m.display.setColor index color }
  | .setPalette palette => { m with display := m.display.setPalette palette }
  | .settlePitch => { m with pitchDirty := false }
  | .renumber => { m with disassembly := m.disassembly.renumber }
  | .listen on => { m with monitor := { m.monitor with listening := on } }

end Machine

end XoChip
