import XoChip.Proofs.Checked.Registers
import XoChip.Proofs.HostMoves

/-!
Arithmetic and logic on registers, as arithmetic of numbers of any size. Main statement: each of
these instructions writes its result and then its flag, if it has one, both computed of what the
registers held before, and changes nothing else, whichever of its registers are the same one
(`computes`).
-/

namespace XoChip

/-- A register to write a result to, the result, and what goes to vF after it, if anything does. -/
structure Computation where
  target : Register
  result : Int
  flag? : Option Nat
  deriving DecidableEq, Repr

namespace Instruction

/-- What an instruction on registers computes where `n` tells the numbers that they hold. -/
def computation? (d : Dialect) (n : Register → Nat) : Instruction → Option Computation
  | add x b => some ⟨x, (n x + b.toNat) % 256, none⟩
  | copy x y => some ⟨x, n y, none⟩
  | or x y => some ⟨x, (n x ||| n y : Nat), cleared⟩
  | and x y => some ⟨x, (n x &&& n y : Nat), cleared⟩
  | xor x y => some ⟨x, (n x ^^^ n y : Nat), cleared⟩
  | addRegister x y => some ⟨x, (n x + n y) % 256, some (if 255 < n x + n y then 1 else 0)⟩
  | subtract x y => some ⟨x, (n x - n y) % 256, some (if n x ≥ n y then 1 else 0)⟩
  | subtractFrom x y => some ⟨x, (n y - n x) % 256, some (if n y ≥ n x then 1 else 0)⟩
  | shiftRight x y => some ⟨x, source x y / 2, some (source x y % 2)⟩
  | shiftLeft x y => some ⟨x, 2 * source x y % 256, some (source x y / 128)⟩
  | _ => none
where
  cleared : Option Nat := if d.logic then some 0 else none
  source (x y : Register) : Nat := if d.shift then n x else n y

end Instruction

namespace Registers

/-- The numbers that the registers hold. -/
def numbers (v : Registers) (r : Register) : Nat :=
  (v.get r).toNat

/-- A computation has been written: the result to its register, then the flag to vF, where it takes
the place of a result. -/
structure Takes (v : Registers) (c : Computation) (v' : Registers) : Prop where
  flag : ∀ f, c.flag? = some f → v'.numbers Register.flag = f
  result : c.target ≠ Register.flag ∨ c.flag? = none → v'.numbers c.target = c.result
  others : ∀ r, r ≠ c.target → r ≠ Register.flag ∨ c.flag? = none → v'.get r = v.get r

section
variable (v : Registers) (d : Dialect) (x y : Register)

theorem takes_put {b : UInt8} {result : Int} (same : b.toNat = result) :
    v.Takes ⟨x, result, none⟩ (v.put x b) := by
  constructor
  case flag =>
    intro f none
    cases none
  case result =>
    intro _
    rw [numbers, get_put, if_pos rfl]
    exact same
  case others =>
    intro r other _
    rw [get_put, if_neg other.symm]

theorem takes_flag {b f : UInt8} {result : Int} {flag : Nat} (same : b.toNat = result)
    (sameFlag : f.toNat = flag) :
    v.Takes ⟨x, result, some flag⟩ ((v.put x b).put Register.flag f) := by
  constructor
  case flag =>
    rintro _ ⟨⟩
    rw [numbers, get_put, if_pos rfl]
    exact sameFlag
  case result =>
    rintro (apart | none)
    · rw [numbers, get_put, if_neg apart.symm, get_put, if_pos rfl]
      exact same
    · cases none
  case others =>
    rintro r other (apart | none)
    · rw [get_put, if_neg apart.symm, get_put, if_neg other.symm]
    · cases none

theorem takes_bitwise (op : UInt8 → UInt8 → UInt8) {result : Int}
    (same : (op (v.get x) (v.get y)).toNat = result) :
    v.Takes ⟨x, result, Instruction.computation?.cleared d⟩ (v.bitwise d x y op) := by
  unfold bitwise Instruction.computation?.cleared
  cases d.logic with
  | true => exact v.takes_flag x same rfl
  | false => exact v.takes_put x same

end

section
variable (a b : UInt8)

theorem toNat_sum : ((a + b).toNat : Int) = (a.toNat + b.toNat) % 256 := by
  rw [UInt8.toNat_add]
  omega

theorem toNat_difference : ((a - b).toNat : Int) = (a.toNat - b.toNat) % 256 := by
  have := b.toNat_lt
  rw [UInt8.toNat_sub]
  omega

theorem toNat_half : (a >>> 1).toNat = a.toNat / 2 := by
  rw [UInt8.toNat_shiftRight, Nat.shiftRight_eq_div_pow]
  rfl

theorem toNat_double : (a <<< 1).toNat = 2 * a.toNat % 256 := by
  rw [UInt8.toNat_shiftLeft, Nat.shiftLeft_eq, Nat.mul_comm]
  rfl

theorem toNat_lowest : (a.toNat.testBit 0).toUInt8.toNat = a.toNat % 2 := by
  rw [← Checked.lowBit, UInt8.toNat_and]
  exact Nat.and_one_is_mod a.toNat

theorem toNat_highest : (a.toNat.testBit 7).toUInt8.toNat = a.toNat / 128 := by
  rw [← Checked.highBit, UInt8.toNat_shiftRight, Nat.shiftRight_eq_div_pow]
  rfl

theorem toNat_decide (p : Prop) [Decidable p] :
    (decide p).toUInt8.toNat = if p then 1 else 0 := by
  by_cases h : p
  · rw [decide_eq_true h, if_pos h]
    rfl
  · rw [decide_eq_false h, if_neg h]
    rfl

end

theorem shifted_toNat (v : Registers) (d : Dialect) (x y : Register) :
    (v.shifted d x y).toNat = Instruction.computation?.source d v.numbers x y := by
  unfold shifted Instruction.computation?.source
  split <;> rfl

end Registers

namespace Machine
open Registers

/-- What is carried out writes what it computes, and that alone. -/
theorem takes_execute {m : Machine} {i : Instruction} {c : Computation}
    (computes : i.computation? m.dialect m.v.numbers = some c) :
    m.v.Takes c (m.execute i).v := by
  cases i with
  | add x b =>
    obtain rfl := Option.some.inj computes
    exact m.v.takes_put x (toNat_sum _ b)
  | copy x y =>
    obtain rfl := Option.some.inj computes
    exact m.v.takes_put x rfl
  | or x y =>
    obtain rfl := Option.some.inj computes
    exact m.v.takes_bitwise m.dialect x y _ (congrArg _ (UInt8.toNat_or ..))
  | and x y =>
    obtain rfl := Option.some.inj computes
    exact m.v.takes_bitwise m.dialect x y _ (congrArg _ (UInt8.toNat_and ..))
  | xor x y =>
    obtain rfl := Option.some.inj computes
    exact m.v.takes_bitwise m.dialect x y _ (congrArg _ (UInt8.toNat_xor ..))
  | addRegister x y =>
    obtain rfl := Option.some.inj computes
    exact m.v.takes_flag x (toNat_sum ..) (toNat_decide _)
  | subtract x y =>
    obtain rfl := Option.some.inj computes
    exact m.v.takes_flag x (toNat_difference ..) (toNat_decide _)
  | subtractFrom x y =>
    obtain rfl := Option.some.inj computes
    exact m.v.takes_flag x (toNat_difference ..) (toNat_decide _)
  | shiftRight x y =>
    obtain rfl := Option.some.inj computes
    rw [← shifted_toNat]
    exact m.v.takes_flag x (congrArg _ (toNat_half _)) (toNat_lowest _)
  | shiftLeft x y =>
    obtain rfl := Option.some.inj computes
    rw [← shifted_toNat]
    exact m.v.takes_flag x (congrArg _ (toNat_double _)) (toNat_highest _)
  | _ => cases computes

theorem execute_registers {m : Machine} {i : Instruction} {c : Computation}
    (computes : i.computation? m.dialect m.v.numbers = some c) :
    m.execute i = { m with v := (m.execute i).v } := by
  cases i with
  | add | copy | or | and | xor | addRegister | subtract | subtractFrom | shiftRight | shiftLeft =>
    rfl
  | _ => cases computes

/-- **What instructions compute.** Every instruction on registers writes the result that its
operands give as numbers, and then the flag if it has one, so that the flag wins where both go to
vF. The operands are what the registers held before, also if a result or a flag goes to one of them.
No other register, neither the index register nor memory nor a timer, changes. -/
theorem computes {m m' : Machine} {i : Instruction} {c : Computation} (h : m.Yields i m')
    (computation : i.computation? m.dialect m.v.numbers = some c) :
    m.v.Takes c m'.v ∧
    m'.i = m.i ∧ m'.memory = m.memory ∧ m'.delay = m.delay ∧ m'.sound = m.sound := by
  obtain ⟨r, cycles, rfl⟩ := h.exists_reading
  have same : i.computation? (m.reading r).dialect (m.reading r).v.numbers = some c := computation
  have taken := takes_execute same
  rw [execute_registers same]
  exact ⟨taken, rfl, rfl, rfl, rfl⟩

/-- `8FE4 80F6 8FE1`. -/
def aliasing : Rom :=
  ⟨#[0x8F, 0xE4, 0x80, 0xF6, 0x8F, 0xE1], by decide⟩

theorem instruction?_aliasing :
    (Memory.ofRom aliasing).instruction? 0x200 = some (.addRegister 0xF 0xE) ∧
    (Memory.ofRom aliasing).instruction? 0x202 = some (.shiftRight 0 0xF) ∧
    (Memory.ofRom aliasing).instruction? 0x204 = some (.or 0xF 0xE) := by
  simp only [Memory.instruction?_ofRom]
  decide

/-- In vE and vF there are 100 and 200. -/
def aliased (pc : Word) (d : Dialect) : Machine :=
  { loaded aliasing with
    pc := pc
    dialect := d
    v := #v[0, 0, 0, 0, 0, 0, 0, 0, 0, 0, 0, 0, 0, 0, 100, 200] }

theorem yields_aliased {pc : Word} {d : Dialect} {i : Instruction}
    (found : (Memory.ofRom aliasing).instruction? pc = some i) :
    (aliased pc d).Yields i (aliased pc d).step := by
  have runs : Runs aliasing (aliased pc d) :=
    ⟨(runs_loaded aliasing).awaited, (runs_loaded aliasing).ram⟩
  exact .step (runs.executed? found)

/-- A sum in vF gives way to its carry; half of vF is what it held before the bit shifted out went
there; and vF keeps a bitwise result only in dialects that do not clear it. -/
theorem computes_aliased :
    let sum := aliased 0x200 .plain
    let half := aliased 0x202 .plain
    let kept := aliased 0x204 .plain
    let cleared := aliased 0x204 { Dialect.plain with logic := true }
    (sum.Yields (.addRegister 0xF 0xE) sum.step ∧ sum.step.v.numbers 0xF = 1) ∧
    (half.Yields (.shiftRight 0 0xF) half.step ∧
      half.step.v.numbers 0 = 100 ∧ half.step.v.numbers 0xF = 0) ∧
    (kept.Yields (.or 0xF 0xE) kept.step ∧ kept.step.v.numbers 0xF = 236) ∧
    (cleared.Yields (.or 0xF 0xE) cleared.step ∧ cleared.step.v.numbers 0xF = 0) := by
  intro sum half kept cleared
  obtain ⟨atSum, atHalf, atJoin⟩ := instruction?_aliasing
  have sums : sum.Yields (.addRegister 0xF 0xE) sum.step := yields_aliased atSum
  have halves : half.Yields (.shiftRight 0 0xF) half.step := yields_aliased atHalf
  have joins : kept.Yields (.or 0xF 0xE) kept.step := yields_aliased atJoin
  have clears : cleared.Yields (.or 0xF 0xE) cleared.step := yields_aliased atJoin
  have summed := (computes (c := ⟨0xF, 44, some 1⟩) sums (by decide +kernel)).1
  have halved := (computes (c := ⟨0, 100, some 0⟩) halves (by decide +kernel)).1
  have joined := (computes (c := ⟨0xF, 236, none⟩) joins (by decide +kernel)).1
  have emptied := (computes (c := ⟨0xF, 236, some 0⟩) clears (by decide +kernel)).1
  exact ⟨⟨sums, summed.flag 1 rfl⟩,
    ⟨halves, Int.ofNat.inj (halved.result (.inl (by decide))), halved.flag 0 rfl⟩,
    ⟨joins, Int.ofNat.inj (joined.result (.inr rfl))⟩,
    ⟨clears, emptied.flag 0 rfl⟩⟩

end Machine

end XoChip
