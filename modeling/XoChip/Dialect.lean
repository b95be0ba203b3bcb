/-!
Dialects: the points on which interpreters of the same instruction set differ, and the named
bundles of them.
-/

namespace XoChip

/-- One point on which interpreters differ. -/
inductive Variation
  /-- `8XY6` and `8XYE` shift vX in place instead of shifting vY into vX. -/
  | shift
  /-- `FX55` and `FX65` leave the index register alone. -/
  | loadStore
  /-- Sprite pixels past the edge are dropped instead of wrapped. -/
  | clip
  /-- `BNNN` adds the register named by the high nibble of `NNN`. -/
  | jump
  /-- `8XY1`, `8XY2` and `8XY3` clear vF. -/
  | logic
  /-- Big sprites are eight pixels wide in low resolution. -/
  | loresSprites
  /-- A sprite waits for the end of the frame. -/
  | vblank
  /-- `FX1E` wraps the index register at twelve bits and sets vF. -/
  | indexCarry
  deriving DecidableEq, Repr

namespace Variation

/-- Every variation, in the order of their bits. -/
def all : List Variation :=
  [shift, loadStore, clip, jump, logic, loresSprites, vblank, indexCarry]

def bit : Variation → Nat
  | shift => 1
  | loadStore => 2
  | clip => 4
  | jump => 8
  | logic => 16
  | loresSprites => 32
  | vblank => 64
  | indexCarry => 128

def name : Variation → String
  | shift => "shift"
  | loadStore => "load-store"
  | clip => "clip"
  | jump => "jump"
  | logic => "logic"
  | loresSprites => "lores-sprites"
  | vblank => "vblank"
  | indexCarry => "i-reg-carry"

def ofName? (s : String) : Option Variation :=
  all.find? fun v => v.name == s

end Variation

/-- The set of variations an interpreter follows. -/
structure Dialect where
  shift : Bool := false
  loadStore : Bool := false
  clip : Bool := false
  jump : Bool := false
  logic : Bool := false
  loresSprites : Bool := false
  vblank : Bool := false
  indexCarry : Bool := false
  deriving DecidableEq, Repr, Inhabited

namespace Dialect

def plain : Dialect := {}

def follows (d : Dialect) : Variation → Bool
  | .shift => d.shift
  | .loadStore => d.loadStore
  | .clip => d.clip
  | .jump => d.jump
  | .logic => d.logic
  | .loresSprites => d.loresSprites
  | .vblank => d.vblank
  | .indexCarry => d.indexCarry

/-- The dialect with one variation switched. -/
def switch (d : Dialect) (v : Variation) (on : Bool) : Dialect :=
  match v with
  | .shift => { d with shift := on }
  | .loadStore => { d with loadStore := on }
  | .clip => { d with clip := on }
  | .jump => { d with jump := on }
  | .logic => { d with logic := on }
  | .loresSprites => { d with loresSprites := on }
  | .vblank => { d with vblank := on }
  | .indexCarry => { d with indexCarry := on }

def switchAll (d : Dialect) (vs : List Variation) (on : Bool) : Dialect :=
  vs.foldl (fun d v => d.switch v on) d

/-- The variations followed, each standing for its bit. -/
def bits (d : Dialect) : Nat :=
  ((Variation.all.filter d.follows).map Variation.bit).foldl (· + ·) 0

theorem follows_switch (d : Dialect) (v w : Variation) (on : Bool) :
    (d.switch v on).follows w = if v = w then on else d.follows w := by
  cases v <;> cases w <;> rfl

end Dialect

/-- A named interpreter whose dialect can be adopted as a whole. -/
inductive Profile
  | vip
  | schip
  | xoChip
  deriving DecidableEq, Repr

namespace Profile

instance : Inhabited Profile := ⟨xoChip⟩

def all : List Profile := [vip, schip, xoChip]

/-- The name as the command line spells it. -/
def name : Profile → String
  | vip => "vip"
  | schip => "schip"
  | xoChip => "xo-chip"

/-- The name as messages spell it. -/
def title : Profile → String
  | vip => "Vip"
  | schip => "Schip"
  | xoChip => "XoChip"

def ofName? (s : String) : Option Profile :=
  all.find? fun p => p.name == s

def dialect : Profile → Dialect
  | vip => { logic := true, clip := true, vblank := true }
  | schip => { shift := true, loadStore := true, jump := true, clip := true }
  | xoChip => .plain

end Profile

end XoChip
