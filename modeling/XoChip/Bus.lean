import XoChip.Memory
import XoChip.Monitor

/-!
Memory as programs reach it: writes below the start of the program and pops of an empty stack are
repaired and reported.
-/

namespace XoChip

structure Bus where
  memory : Memory
  monitor : Monitor

namespace Bus

def blank : Bus := ⟨.blank, .silent⟩

instance : Inhabited Bus := ⟨blank⟩

def notify (bus : Bus) (n : Notice) : Bus :=
  { bus with monitor := bus.monitor.notify n }

def write (bus : Bus) (a : Word) (b : UInt8) : Bus :=
  if a < Memory.start then bus.notify (.rejectedWrite a b)
  else { bus with memory := bus.memory.put a b }

/-- Writes bytes at the addresses from `a` on, each accepted or rejected by itself. -/
def writeBlock (bus : Bus) (a : Word) : List UInt8 → Bus
  | [] => bus
  | b :: bs => (bus.write a b).writeBlock (a + 1) bs

def push (bus : Bus) (a : Word) : Bus :=
  { bus with memory := { bus.memory with stack := a :: bus.memory.stack } }

/-- Takes the last return address; an empty stack yields zero. -/
def pop (bus : Bus) : Word × Bus :=
  match bus.memory.stack with
  | a :: rest => (a, { bus with memory := { bus.memory with stack := rest } })
  | [] => (0, bus.notify .stackUnderflow)

/-- Forgets everything and places `rom`. -/
def place (bus : Bus) (rom : Rom) : Bus :=
  { bus with memory := .ofRom rom }.notify (.loaded rom.size)

/-- Forgets everything and places nothing. -/
def erase (bus : Bus) : Bus :=
  { bus with memory := .blank }

/-- A program that cannot be read whole, or does not fit, leaves the bus as it was. -/
def load (bus : Bus) (s : Source) : Except LoadError Bus :=
  (Rom.ofSource? s).map bus.place

end Bus

end XoChip
