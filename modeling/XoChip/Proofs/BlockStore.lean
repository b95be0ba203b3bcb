import XoChip.Proofs.CallReturn
import XoChip.Proofs.Checked.Execute
import XoChip.Proofs.FontArea

/-!
Blocks stored in memory, byte by byte. Addresses wrap at 65536, so a block may run into what lies
below the start of programs, where every byte is rejected by itself. Main statement: each byte of a
block goes to its own address or is heard to be rejected there, whatever becomes of the others
(`stores_block`).
-/

namespace XoChip

namespace Memory

/-- The addresses of a block. -/
def addresses (a : Word) (count : Nat) : List Word :=
  (List.range count).map fun k => a + UInt16.ofNat k

/-- Those of them that no program can write to. -/
def rejected (a : Word) (count : Nat) : List Word :=
  (addresses a count).filter (· < start)

theorem addresses_succ (a : Word) (count : Nat) :
    addresses a (count + 1) = a :: addresses (a + 1) count := by
  have first : a + UInt16.ofNat 0 = a := UInt16.add_zero a
  simp only [addresses, List.range_succ_eq_map, List.map_cons, List.map_map, first]
  exact congrArg _ (List.map_congr_left fun k _ => Checked.add_one_add_ofNat a k)

theorem rejected_succ (a : Word) (count : Nat) :
    rejected a (count + 1) = (if a < start then [a] else []) ++ rejected (a + 1) count := by
  rw [rejected, addresses_succ, List.filter_cons]
  by_cases below : a < start <;> simp [below, rejected]

/-- No address comes twice before all have come once. -/
theorem nodup_addresses (a : Word) {count : Nat} (few : count ≤ 0x10000) :
    (addresses a count).Nodup := by
  have small {n : Nat} (h : n ∈ List.range count) : (UInt16.ofNat n).toNat = n :=
    UInt16.toNat_ofNat_of_lt (Nat.lt_of_lt_of_le (List.mem_range.mp h) few)
  refine List.pairwise_map.mpr (List.nodup_range.imp_of_mem fun hj hk apart same => apart ?_)
  have offset := congrArg UInt16.toNat ((UInt16.add_right_inj a).mp same)
  rwa [small hj, small hk] at offset

end Memory

namespace Monitor

/-- Some events took place, and whoever listens has heard them in their order. -/
structure Heard (m : Monitor) (es : List Event) (m' : Monitor) : Prop where
  listening : m'.listening = m.listening
  events : m'.events.toList = m.events.toList ++ if m.listening then es else []

section
variable {m m' m'' : Monitor} {es es' : List Event}

theorem Heard.refl (m : Monitor) : m.Heard [] m :=
  ⟨rfl, by simp⟩

theorem Heard.trans (h : m.Heard es m') (h' : m'.Heard es' m'') : m.Heard (es ++ es') m'' := by
  refine ⟨h'.listening.trans h.listening, ?_⟩
  rw [h'.events, h.events, h.listening, List.append_assoc]
  cases m.listening <;> rfl

theorem heard_notify (m : Monitor) (n : Notice) : m.Heard n.event?.toList (m.notify n) := by
  have kept : (m.notify n).listening = m.listening := by
    rw [notify, write_eq]
    unfold hear
    split
    · rfl
    · split <;> rfl
  refine ⟨kept, ?_⟩
  rw [events_notify]
  cases n.event? with
  | none => simp [hear]
  | some e =>
    rw [events_hear]
    cases m.listening <;> simp

end

end Monitor

namespace Bus

/-- A block of bytes has been stored from an address on: a byte is in its place where programs can
write, every other place is as it was, and the addresses of all other bytes have been heard, each
once and in their order. -/
structure Stores (bus : Bus) (a : Word) (bs : List UInt8) (bus' : Bus) : Prop where
  accepted : ∀ (k : Nat) (h : k < bs.length), Memory.start ≤ a + UInt16.ofNat k →
    bus'.memory.read (a + UInt16.ofNat k) = bs[k]
  elsewhere : ∀ c, c < Memory.start ∨ c ∉ Memory.addresses a bs.length →
    bus'.memory.read c = bus.memory.read c
  heard : bus.monitor.Heard ((Memory.rejected a bs.length).map .rejectedWrite) bus'.monitor
  once : (Memory.rejected a bs.length).Nodup

section
variable (bus : Bus) (a : Word) (bs : List UInt8)

theorem read_write (b : UInt8) (c : Word) :
    (bus.write a b).memory.read c =
      if a = c ∧ Memory.start ≤ a then b else bus.memory.read c := by
  unfold write
  by_cases below : a < Memory.start
  · rw [if_pos below, if_neg fun h => absurd below (UInt16.not_lt.mpr h.2)]
    rfl
  · rw [if_neg below, Memory.read_put]
    simp [UInt16.not_lt.mp below]

theorem read_writeBlock_of_notMem {c : Word} (outside : c ∉ Memory.addresses a bs.length) :
    (bus.writeBlock a bs).memory.read c = bus.memory.read c := by
  induction bs generalizing bus a with
  | nil => rfl
  | cons b bs ih =>
    rw [List.length_cons, Memory.addresses_succ, List.mem_cons, not_or] at outside
    rw [writeBlock, ih _ _ outside.2, read_write, if_neg fun h => outside.1 h.1.symm]

theorem read_writeBlock (few : bs.length ≤ 0x10000) {k : Nat} (h : k < bs.length)
    (above : Memory.start ≤ a + UInt16.ofNat k) :
    (bus.writeBlock a bs).memory.read (a + UInt16.ofNat k) = bs[k] := by
  induction bs generalizing bus a k with
  | nil => cases h
  | cons b bs ih =>
    rw [writeBlock]
    cases k with
    | zero =>
      have first : a + UInt16.ofNat 0 = a := UInt16.add_zero a
      -- The bytes behind the first one do not come back to its place.
      have apart : a ∉ Memory.addresses (a + 1) bs.length := by
        have distinct := Memory.nodup_addresses a few
        rw [List.length_cons, Memory.addresses_succ] at distinct
        exact (List.nodup_cons.mp distinct).1
      rw [first] at above ⊢
      rw [read_writeBlock_of_notMem _ _ _ apart, read_write, if_pos ⟨rfl, above⟩]
      rfl
    | succ k =>
      rw [Checked.add_one_add_ofNat] at above ⊢
      exact ih (bus.write a b) (a + 1) (Nat.le_of_succ_le few) (Nat.lt_of_succ_lt_succ h) above

theorem heard_write (b : UInt8) :
    bus.monitor.Heard (if a < Memory.start then [.rejectedWrite a] else [])
      (bus.write a b).monitor := by
  unfold write
  split
  · exact bus.monitor.heard_notify (.rejectedWrite a b)
  · exact .refl _

theorem heard_writeBlock :
    bus.monitor.Heard ((Memory.rejected a bs.length).map .rejectedWrite)
      (bus.writeBlock a bs).monitor := by
  induction bs generalizing bus a with
  | nil => exact .refl _
  | cons b bs ih =>
    have both := (bus.heard_write a b).trans (ih (bus.write a b) (a + 1))
    rw [writeBlock, List.length_cons, Memory.rejected_succ, List.map_append]
    by_cases below : a < Memory.start <;> simpa [below] using both

theorem stores_writeBlock (few : bs.length ≤ 16) : bus.Stores a bs (bus.writeBlock a bs) := by
  have short : bs.length ≤ 0x10000 := Nat.le_trans few (by decide)
  constructor
  case accepted =>
    intro k h above
    exact bus.read_writeBlock a bs short h above
  case elsewhere =>
    rintro c (below | outside)
    · exact Memory.sameBelow_writeBlock bus a bs c below
    · exact bus.read_writeBlock_of_notMem a bs outside
  case heard => exact bus.heard_writeBlock a bs
  case once => exact (Memory.nodup_addresses a short).filter _

end

end Bus

namespace Registers

/-- The registers from `x` to `y`, each so many steps up or down from `x`. -/
def way (x y : Register) : List Register :=
  (List.range (y.val - x.val + (x.val - y.val) + 1)).map fun k =>
    Fin.ofNat 16 (if x ≤ y then x.val + k else x.val - k)

theorem span_eq_way (x y : Register) : span x y = way x y := by
  revert x y
  decide +kernel

theorem length_way (x y : Register) : (way x y).length ≤ 16 := by
  simp only [way, List.length_map, List.length_range]
  omega

theorem upTo_eq (v : Registers) (x : Register) :
    v.upTo x = (List.range (x.val + 1)).map fun k => v.get (Fin.ofNat 16 k) := by
  refine List.ext_getElem (by simp [Checked.length_upTo]) fun k h _ => ?_
  have small : k < 16 := by
    rw [Checked.length_upTo] at h
    omega
  have place : Fin.ofNat 16 k = ⟨k, small⟩ := Fin.ext (Nat.mod_eq_of_lt small)
  simp only [upTo, List.getElem_take, Vector.getElem_toList, List.getElem_map, List.getElem_range,
    place]
  rfl

/-- The digits of a byte make the byte again. -/
theorem exists_decimal (byte : UInt8) :
    ∃ a b c : UInt8, decimal byte = [a, b, c] ∧ a ≤ 9 ∧ b ≤ 9 ∧ c ≤ 9 ∧
      100 * a.toNat + 10 * b.toNat + c.toNat = byte.toNat := by
  have bound := byte.toNat_lt
  refine ⟨_, _, _, rfl, ?_, ?_, ?_, ?_⟩
  all_goals
    simp only [UInt8.le_iff_toNat_le, UInt8.toNat_div, UInt8.toNat_mod, UInt8.reduceToNat]
    omega

end Registers

namespace Machine

theorem stores_reading {m r : Machine} {a : Word} {bs : List UInt8} {bus : Bus}
    (h : (m.reading r).toBus.Stores a bs bus) : m.toBus.Stores a bs bus :=
  ⟨h.accepted, h.elsewhere, ⟨h.heard.listening, h.heard.events⟩, h.once⟩

theorem i_advanceIndex (m : Machine) (x : Register) :
    (m.advanceIndex x).i =
      if m.dialect.loadStore then m.i else m.i + UInt16.ofNat (x.val + 1) := by
  unfold advanceIndex
  split <;> rfl

section
variable {m m' : Machine} {x y : Register}

theorem store_yields (h : m.Yields (.store x) m') :
    m.toBus.Stores m.i ((List.range (x.val + 1)).map fun k => m.v.get (Fin.ofNat 16 k)) m'.toBus ∧
    m'.v = m.v ∧
    m'.i = if m.dialect.loadStore then m.i else m.i + UInt16.ofNat (x.val + 1) := by
  obtain ⟨r, cycles, rfl⟩ := h.exists_reading
  have few : (m.v.upTo x).length ≤ 16 := by
    rw [Checked.length_upTo]
    omega
  have stored := stores_reading ((m.reading r).toBus.stores_writeBlock m.i (m.v.upTo x) few)
  rw [← Registers.upTo_eq]
  simp only [execute, store]
  rw [advanceIndex_eq]
  exact ⟨stored, rfl, i_advanceIndex _ x⟩

theorem storeRange_yields (h : m.Yields (.storeRange x y) m') :
    m.toBus.Stores m.i ((Registers.way x y).map fun r => m.v.get r) m'.toBus ∧
    m'.v = m.v ∧ m'.i = m.i := by
  obtain ⟨r, cycles, rfl⟩ := h.exists_reading
  have few : ((Registers.way x y).map fun r => m.v.get r).length ≤ 16 := by
    rw [List.length_map]
    exact Registers.length_way x y
  have stored := stores_reading ((m.reading r).toBus.stores_writeBlock m.i _ few)
  rw [← Registers.span_eq_way] at stored ⊢
  exact ⟨stored, rfl, rfl⟩

theorem decimal_yields (h : m.Yields (.decimal x) m') :
    m.toBus.Stores m.i (Registers.decimal (m.v.get x)) m'.toBus ∧ m'.v = m.v ∧ m'.i = m.i := by
  obtain ⟨r, cycles, rfl⟩ := h.exists_reading
  have few : (Registers.decimal (m.v.get x)).length ≤ 16 := Nat.le_add_left 3 13
  exact ⟨stores_reading ((m.reading r).toBus.stores_writeBlock m.i _ few), rfl, rfl⟩

end

/-- **Blocks are stored byte by byte.** Storing registers puts them in their order, upwards or
downwards, from the index register on, and storing a number its three decimal digits. Whatever part
of the block falls below the start of programs, each byte is accepted or rejected by its own address
alone. No register changes, and the index register moves only behind the registers from v0 on, in
dialects that let it, also if every byte was rejected. -/
theorem stores_block (m m' : Machine) (x y : Register) :
    (m.Yields (.store x) m' →
      m.toBus.Stores m.i ((List.range (x.val + 1)).map fun k => m.v.get (Fin.ofNat 16 k)) m'.toBus ∧
      m'.v = m.v ∧
      m'.i = if m.dialect.loadStore then m.i else m.i + UInt16.ofNat (x.val + 1)) ∧
    (m.Yields (.storeRange x y) m' →
      m.toBus.Stores m.i ((Registers.way x y).map fun r => m.v.get r) m'.toBus ∧
      m'.v = m.v ∧ m'.i = m.i) ∧
    (m.Yields (.decimal x) m' →
      ∃ a b c : UInt8, (a ≤ 9 ∧ b ≤ 9 ∧ c ≤ 9 ∧
          100 * a.toNat + 10 * b.toNat + c.toNat = (m.v.get x).toNat) ∧
        m.toBus.Stores m.i [a, b, c] m'.toBus ∧ m'.v = m.v ∧ m'.i = m.i) := by
  refine ⟨store_yields, storeRange_yields, fun h => ?_⟩
  obtain ⟨stored, registers, index⟩ := decimal_yields h
  obtain ⟨a, b, c, digits, small⟩ := Registers.exists_decimal (m.v.get x)
  rw [digits] at stored
  exact ⟨a, b, c, small, stored, registers, index⟩

/-- `F255 5202 F033`. -/
def storing : Rom :=
  ⟨#[0xF2, 0x55, 0x52, 0x02, 0xF0, 0x33], by decide⟩

theorem instruction?_storing :
    (Memory.ofRom storing).instruction? 0x200 = some (.store 2) ∧
    (Memory.ofRom storing).instruction? 0x202 = some (.storeRange 2 0) ∧
    (Memory.ofRom storing).instruction? 0x204 = some (.decimal 0) := by
  simp only [Memory.instruction?_ofRom]
  decide

/-- One byte of the block goes to the end of memory, the others go to the fonts. -/
def atEnd (pc : Word) : Machine :=
  { loaded storing with
    pc := pc
    i := 0xFFFF
    v := #v[123, 45, 67, 0, 0, 0, 0, 0, 0, 0, 0, 0, 0, 0, 0, 0] }

theorem yields_atEnd {pc : Word} {i : Instruction}
    (found : (Memory.ofRom storing).instruction? pc = some i) :
    (atEnd pc).Yields i (atEnd pc).step := by
  have runs : Runs storing (atEnd pc) :=
    ⟨(runs_loaded storing).awaited, (runs_loaded storing).ram⟩
  exact .step (runs.executed? found)

theorem stores_block_atEnd :
    Memory.rejected 0xFFFF 3 = [0, 1] ∧
    ((atEnd 0x200).Yields (.store 2) (atEnd 0x200).step ∧
      (atEnd 0x200).toBus.Stores 0xFFFF [123, 45, 67] (atEnd 0x200).step.toBus) ∧
    ((atEnd 0x202).Yields (.storeRange 2 0) (atEnd 0x202).step ∧
      (atEnd 0x202).toBus.Stores 0xFFFF [67, 45, 123] (atEnd 0x202).step.toBus) ∧
    ((atEnd 0x204).Yields (.decimal 0) (atEnd 0x204).step ∧
      (atEnd 0x204).toBus.Stores 0xFFFF [1, 2, 3] (atEnd 0x204).step.toBus) := by
  obtain ⟨first, range, number⟩ := instruction?_storing
  refine ⟨by decide, ⟨yields_atEnd first, ?_⟩, ⟨yields_atEnd range, ?_⟩,
    ⟨yields_atEnd number, ?_⟩⟩
  · exact ((stores_block _ _ 2 0).1 (yields_atEnd first)).1
  · exact ((stores_block _ _ 2 0).2.1 (yields_atEnd range)).1
  · obtain ⟨a, b, c, ⟨-, hb, hc, digits⟩, stored, -⟩ :=
      (stores_block _ _ 0 0).2.2 (yields_atEnd number)
    have value : ((atEnd 0x204).v.get 0).toNat = 123 := rfl
    rw [value] at digits
    rw [UInt8.le_iff_toNat_le] at hb hc
    change b.toNat ≤ 9 at hb
    change c.toNat ≤ 9 at hc
    obtain rfl : a = 1 := UInt8.toNat_inj.mp (show a.toNat = 1 by omega)
    obtain rfl : b = 2 := UInt8.toNat_inj.mp (show b.toNat = 2 by omega)
    obtain rfl : c = 3 := UInt8.toNat_inj.mp (show c.toNat = 3 by omega)
    exact stored

end Machine

end XoChip
