import XoChip.Machine.Flags

/-!
What each instruction does. The program counter already stands behind the instruction.
-/

namespace XoChip.Machine

/-- Columns moved by a scroll to the side. -/
def sideStep : Nat := 4

/-- Bytes a skip passes over: the word before a long address takes it along. -/
def skipLength (next : Word) : Word :=
  if next = 0xF000 then 4 else 2

def skipIf (m : Machine) (condition : Bool) : Machine :=
  if condition then { m with pc := m.pc + skipLength (m.memory.word m.pc) } else m

def setRegister (m : Machine) (x : Register) (b : UInt8) : Machine :=
  { m with v := m.v.put x b }

def returnFromCall (m : Machine) : Machine :=
  let (target, bus) := m.toBus.pop
  { m with toBus := bus, pc := target }

def call (m : Machine) (target : Word) : Machine :=
  { m with toBus := m.toBus.push m.pc, pc := target }

def storeRange (m : Machine) (x y : Register) : Machine :=
  { m with toBus := m.toBus.writeBlock m.i (m.v.gather (Registers.span x y)) }

def fetchRange (m : Machine) (x y : Register) : Machine :=
  let range := Registers.span x y
  { m with v := m.v.scatter range (m.memory.readBlock m.i range.length) }

def jumpPlus (m : Machine) (base : ShortAddress) : Machine :=
  let r : Register := if m.dialect.jump then Fin.ofNat 16 (base.val / 0x100) else 0
  { m with pc := Word.ofShort base + (m.v.get r).toUInt16 }

def drawRandom (m : Machine) (x : Register) (mask : UInt8) : Machine :=
  let (byte, random) := m.random.next
  { m with v := m.v.put x (byte &&& mask), random := random }

/-- A sprite that has to wait leaves execution standing before it. -/
def holdSprite (m : Machine) : Machine :=
  { m with pc := m.pc - 2, frameWait := .pending }

def drawSprite (m : Machine) (x y : Register) (n : Fin 16) : Machine :=
  let narrow := m.dialect.loresSprites && !m.display.hires
  let (hit, display) :=
    m.display.draw (.ofRows n narrow) m.memory m.i (m.v.get x).toNat (m.v.get y).toNat
      m.dialect.clip
  { m with
    display := display
    v := m.v.put Register.flag hit.toUInt8
    frameWait := if m.dialect.vblank then .idle else m.frameWait }

def sprite (m : Machine) (x y : Register) (n : Fin 16) : Machine :=
  if m.holdsSprites then m.holdSprite else m.drawSprite x y n

/-- Whether the key named by a register is held down. -/
def pressed (m : Machine) (x : Register) : Bool :=
  m.keys.get (Processor.keyOf (m.v.get x))

def fetchPattern (m : Machine) : Machine :=
  { m with
    memory := { m.memory with
      pattern := Vector.ofFn fun k => m.memory.read (m.i + UInt16.ofNat k.val)
      beep := false } }

/-- In some dialects the sum wraps at twelve bits after it has wrapped at sixteen. -/
def addIndex (m : Machine) (x : Register) : Machine :=
  let sum := m.i + (m.v.get x).toUInt16
  if m.dialect.indexCarry then
    { m with i := sum &&& 0xFFF, v := m.v.put Register.flag (decide (0xFFF < sum)).toUInt8 }
  else { m with i := sum }

def setPitch (m : Machine) (x : Register) : Machine :=
  { m with pitch := m.v.get x, pitchDirty := true, memory := { m.memory with beep := false } }

/-- Moves the index register past the registers up to `x`, unless the dialect leaves it alone. -/
def advanceIndex (m : Machine) (x : Register) : Machine :=
  if m.dialect.loadStore then m else { m with i := m.i + UInt16.ofNat (x.val + 1) }

def store (m : Machine) (x : Register) : Machine :=
  { m with toBus := m.toBus.writeBlock m.i (m.v.upTo x) }.advanceIndex x

def fetch (m : Machine) (x : Register) : Machine :=
  { m with v := m.v.overwrite x (m.memory.readBlock m.i (x.val + 1)) }.advanceIndex x

def execute (m : Machine) : Instruction → Machine
  | .scrollDown n => { m with display := m.display.scrollDown n }
  | .scrollUp n => { m with display := m.display.scrollUp n }
  | .clear => { m with display := m.display.clear }
  | .ret => m.returnFromCall
  | .scrollRight => { m with display := m.display.scrollRight sideStep }
  | .scrollLeft => { m with display := m.display.scrollLeft sideStep }
  | .exit => m.setHalted true
  | .lores => m.setHires false
  | .hires => m.setHires true
  | .jump a => { m with pc := Word.ofShort a }
  | .call a => m.call (Word.ofShort a)
  | .skipEqual x b => m.skipIf (m.v.get x == b)
  | .skipNotEqual x b => m.skipIf (m.v.get x != b)
  | .skipSame x y => m.skipIf (m.v.get x == m.v.get y)
  | .storeRange x y => m.storeRange x y
  | .fetchRange x y => m.fetchRange x y
  | .load x b => m.setRegister x b
  | .add x b => m.setRegister x (m.v.get x + b)
  | .copy x y => m.setRegister x (m.v.get y)
  | .or x y => { m with v := m.v.bitwise m.dialect x y (· ||| ·) }
  | .and x y => { m with v := m.v.bitwise m.dialect x y (· &&& ·) }
  | .xor x y => { m with v := m.v.bitwise m.dialect x y (· ^^^ ·) }
  | .addRegister x y => { m with v := m.v.add x y }
  | .subtract x y => { m with v := m.v.subtract x y }
  | .shiftRight x y => { m with v := m.v.shiftRight m.dialect x y }
  | .subtractFrom x y => { m with v := m.v.subtractFrom x y }
  | .shiftLeft x y => { m with v := m.v.shiftLeft m.dialect x y }
  | .skipDifferent x y => m.skipIf (m.v.get x != m.v.get y)
  | .setIndex a => { m with i := Word.ofShort a }
  | .jumpPlus a => m.jumpPlus a
  | .random x mask => m.drawRandom x mask
  | .sprite x y n => m.sprite x y n
  | .skipPressed x => m.skipIf (m.pressed x)
  | .skipReleased x => m.skipIf !(m.pressed x)
  | .setIndexLong w => { m with i := w }
  | .selectPlanes n => { m with display := m.display.setMask n }
  | .audio => m.fetchPattern
  | .readDelay x => m.setRegister x m.delay
  | .awaitKey x => { m with keyWait := some x }
  | .setDelay x => { m with delay := m.v.get x }
  | .setSound x => { m with sound := m.v.get x }
  | .addIndex x => m.addIndex x
  | .smallDigit x => { m with i := Memory.smallDigit (m.v.get x) }
  | .largeDigit x => { m with i := Memory.largeDigit (m.v.get x &&& 0xF) }
  | .decimal x => { m with toBus := m.toBus.writeBlock m.i (Registers.decimal (m.v.get x)) }
  | .setPitch x => m.setPitch x
  | .store x => m.store x
  | .fetch x => m.fetch x
  | .saveFlags x => m.saveFlags x
  | .loadFlags x => m.loadFlags x

end XoChip.Machine
