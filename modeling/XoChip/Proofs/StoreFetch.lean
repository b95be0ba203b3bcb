import XoChip.Proofs.BlockStore

/-!
Blocks of registers stored in memory and fetched again. Main statement: what is fetched from where
registers were stored is what they held, but for the bytes that were rejected; and where the index
register stays, storing and fetching up to a register is storing and fetching from v0 to it
(`fetch_stored`).
-/

namespace XoChip

namespace Registers

theorem get_scatter_of_notMem (v : Registers) {rs : List Register} (bs : List UInt8)
    {r : Register} (other : r ∉ rs) : (v.scatter rs bs).get r = v.get r := by
  induction rs generalizing v bs with
  | nil => rfl
  | cons s rs ih =>
    rw [List.mem_cons, not_or] at other
    cases bs with
    | nil => rfl
    | cons b bs => rw [scatter, ih _ _ other.2, get_put, if_neg fun h => other.1 h.symm]

theorem get_scatter (v : Registers) {rs : List Register} (distinct : rs.Nodup) {bs : List UInt8}
    {k : Nat} (h : k < rs.length) (h' : k < bs.length) :
    (v.scatter rs bs).get rs[k] = bs[k] := by
  induction rs generalizing v bs k with
  | nil => cases h
  | cons r rs ih =>
    obtain ⟨apart, distinct⟩ := List.nodup_cons.mp distinct
    cases bs with
    | nil => cases h'
    | cons b bs =>
      rw [scatter]
      cases k with
      | zero =>
        -- No register behind the first one is the first one again.
        exact (get_scatter_of_notMem _ bs apart).trans ((get_put ..).trans (if_pos rfl))
      | succ k => exact ih _ distinct (Nat.lt_of_succ_lt_succ h) (Nat.lt_of_succ_lt_succ h')

section
variable (x y : Register)

theorem nodup_way : (way x y).Nodup := by
  revert x y
  decide +kernel

theorem way_mirrored : way y x = (way x y).reverse := by
  revert x y
  decide +kernel

/-- From v0 on, the registers are passed in the order of their numbers. -/
theorem way_zero : way 0 x = (List.range (x.val + 1)).map fun k => Fin.ofNat 16 k := by
  revert x
  decide +kernel

theorem length_way_zero : (way 0 x).length = x.val + 1 := by
  rw [way_zero, List.length_map, List.length_range]

theorem mem_way_zero (r : Register) : r ∈ way 0 x ↔ r ≤ x := by
  revert x r
  decide +kernel

theorem upTo_eq_gather (v : Registers) : v.upTo x = v.gather (way 0 x) := by
  rw [upTo_eq, way_zero, gather, List.map_map]
  rfl

theorem overwrite_eq_scatter (v : Registers) {bytes : List UInt8}
    (whole : bytes.length = x.val + 1) :
    v.overwrite x bytes = v.scatter (way 0 x) bytes := by
  refine Vector.ext fun k hk => ?_
  have left : (v.overwrite x bytes)[k] =
      if (⟨k, hk⟩ : Register) ≤ x then bytes.getD k 0 else v.get ⟨k, hk⟩ := by
    rw [overwrite, Vector.getElem_ofFn]
  rw [left]
  change _ = (v.scatter (way 0 x) bytes).get ⟨k, hk⟩
  by_cases passed : (⟨k, hk⟩ : Register) ≤ x
  · have few : k < x.val + 1 := Nat.lt_succ_of_le passed
    have inside : k < (way 0 x).length := by rwa [length_way_zero]
    have given : k < bytes.length := by rwa [whole]
    have place : (way 0 x)[k] = ⟨k, hk⟩ := by
      simp only [way_zero, List.getElem_map, List.getElem_range]
      exact Fin.ext (Nat.mod_eq_of_lt hk)
    have found := v.get_scatter (nodup_way 0 x) inside given
    rw [place] at found
    simp only [passed, found, ↓reduceIte, List.getD_eq_getElem?_getD,
      List.getElem?_eq_getElem given, Option.getD_some]
  · have outside : (⟨k, hk⟩ : Register) ∉ way 0 x := by rwa [mem_way_zero]
    rw [if_neg passed, get_scatter_of_notMem _ _ outside]

end

end Registers

namespace Machine

/-- Registers have been fetched late from where others were stored before: each takes the byte
stored for it, or the one that lies there where no program can write; all others stay. -/
structure Fetches (m : Machine) (stored fetched : List Register) (late m' : Machine) : Prop where
  taken : ∀ (k : Nat) (h : k < stored.length) (h' : k < fetched.length),
    m'.v.get fetched[k] =
      if Memory.start ≤ m.i + UInt16.ofNat k then m.v.get stored[k]
      else m.memory.read (m.i + UInt16.ofNat k)
  others : ∀ r ∉ fetched, m'.v.get r = late.v.get r

section
variable {m m' late : Machine} {x y : Register}

theorem fetchRange_yields (h : late.Yields (.fetchRange x y) m') :
    m'.v = late.v.scatter (Registers.way x y)
      (late.memory.readBlock late.i (Registers.way x y).length) := by
  obtain ⟨r, cycles, rfl⟩ := h.exists_reading
  rw [← Registers.span_eq_way]
  rfl

theorem fetch_yields (h : late.Yields (.fetch x) m') :
    m'.v = late.v.scatter (Registers.way 0 x)
      (late.memory.readBlock late.i (Registers.way 0 x).length) := by
  obtain ⟨r, cycles, rfl⟩ := h.exists_reading
  rw [Registers.length_way_zero,
    ← Registers.overwrite_eq_scatter x late.v (Memory.length_readBlock ..)]
  simp only [execute, fetch]
  rw [advanceIndex_eq]
  rfl

/-- A block that was stored and is still in memory comes back, whatever has happened meanwhile. -/
theorem fetches_of_stores {stored fetched : List Register} {bus : Bus}
    (kept : m.toBus.Stores m.i (stored.map fun r => m.v.get r) bus)
    (index : late.i = m.i) (ram : late.memory.ram = bus.memory.ram) (distinct : fetched.Nodup)
    (registers : m'.v = late.v.scatter fetched (late.memory.readBlock late.i fetched.length)) :
    m.Fetches stored fetched late m' := by
  constructor
  case taken =>
    intro k h h'
    have still (a : Word) : late.memory.read a = bus.memory.read a := by
      simp only [Memory.read, ram]
    have given : k < (late.memory.readBlock late.i fetched.length).length := by
      rwa [Memory.length_readBlock]
    rw [registers, late.v.get_scatter distinct h' given]
    simp only [Memory.readBlock, List.getElem_map, List.getElem_range, still, index]
    by_cases above : Memory.start ≤ m.i + UInt16.ofNat k
    · rw [if_pos above, kept.accepted k (by rwa [List.length_map]) above, List.getElem_map]
    · rw [if_neg above, kept.elsewhere _ (.inl (UInt16.not_le.mp above))]
  case others =>
    intro r other
    rw [registers, Registers.get_scatter_of_notMem _ _ other]

end

/-- **What was stored is fetched again.** If the index register and memory are as they were left,
fetching registers from where they were stored gives each what it held then, and the other way round
mirrors them; where bytes were rejected it gives the bytes of the fonts instead. The same holds of
the registers from v0 on. In dialects that leave the index register alone, storing and fetching
these is the same as storing and fetching the registers from v0 to the last of them. -/
theorem fetch_stored (x y : Register) :
    (∀ {m stored late m' : Machine}, late.i = m.i → late.memory.ram = stored.memory.ram →
      (m.Yields (.storeRange x y) stored → late.Yields (.fetchRange x y) m' →
        m.Fetches (Registers.way x y) (Registers.way x y) late m') ∧
      (m.Yields (.storeRange x y) stored → late.Yields (.fetchRange y x) m' →
        m.Fetches (Registers.way x y) (Registers.way x y).reverse late m') ∧
      (m.Yields (.store x) stored → late.Yields (.fetch x) m' →
        m.Fetches (Registers.way 0 x) (Registers.way 0 x) late m')) ∧
    (∀ m : Machine, m.dialect.loadStore = true →
      m.execute (.store x) = m.execute (.storeRange 0 x) ∧
      m.execute (.fetch x) = m.execute (.fetchRange 0 x)) := by
  constructor
  · intro m stored late m' index ram
    refine ⟨fun stores fetches => ?_, fun stores fetches => ?_, fun stores fetches => ?_⟩
    · exact fetches_of_stores (storeRange_yields stores).1 index ram (Registers.nodup_way x y)
        (fetchRange_yields fetches)
    · rw [← Registers.way_mirrored]
      exact fetches_of_stores (storeRange_yields stores).1 index ram (Registers.nodup_way y x)
        (fetchRange_yields fetches)
    · have kept := (store_yields stores).1
      rw [← Registers.upTo_eq, Registers.upTo_eq_gather] at kept
      exact fetches_of_stores kept index ram (Registers.nodup_way 0 x) (fetch_yields fetches)
  · intro m stays
    constructor
    · simp only [execute, store, storeRange, advanceIndex, stays, ↓reduceIte,
        Registers.upTo_eq_gather, Registers.span_eq_way]
    · simp only [execute, fetch, fetchRange, advanceIndex, stays, ↓reduceIte,
        Registers.span_eq_way, Registers.length_way_zero]
      rw [Registers.overwrite_eq_scatter x m.v (Memory.length_readBlock ..)]

/-- Behind the end of memory lies the first digit of the small font. -/
theorem read_atEnd (pc : Word) :
    (atEnd pc).memory.read ((atEnd pc).i + UInt16.ofNat 1) = 0xF0 ∧
    (atEnd pc).memory.read ((atEnd pc).i + UInt16.ofNat 2) = 0x90 := by
  have placed : (atEnd pc).memory = .ofRom storing := by
    change (loaded storing).memory = _
    rw [loaded_eq]
    exact memory_start _ storing
  have index : (atEnd pc).i = 0xFFFF := rfl
  rw [placed, index, Memory.read_ofRom, Memory.read_ofRom]
  decide

/-- A machine with its index register back at an address, and nines in its registers. -/
def rewound (m : Machine) (i : Word) : Machine :=
  { m with i := i, v := Vector.replicate 16 9 }

-- Of any machine, so that no proof looks into one that has stored its registers.
theorem rewound_eq (m : Machine) (i : Word) :
    (rewound m i).i = i ∧ (rewound m i).memory.ram = m.memory.ram ∧
    (rewound m i).v = Vector.replicate 16 9 :=
  ⟨rfl, rfl, rfl⟩

/-- The byte at the end of memory comes back, the bytes of the fonts come instead of the others. -/
theorem fetch_stored_atEnd :
    let m := atEnd 0x202
    let late := rewound m.step m.i
    let back := late.execute (.fetchRange 2 0)
    let mirrored := late.execute (.fetchRange 0 2)
    let m' := atEnd 0x200
    let late' := rewound m'.step m'.i
    let first := late'.execute (.fetch 2)
    let plain := { m with dialect := Profile.schip.dialect }
    (late.i = m.i ∧ late.memory.ram = m.step.memory.ram ∧ m.Yields (.storeRange 2 0) m.step ∧
      late.Yields (.fetchRange 2 0) back ∧ late.Yields (.fetchRange 0 2) mirrored ∧
      (back.v.get 2 = 67 ∧ back.v.get 1 = 0xF0 ∧ back.v.get 0 = 0x90 ∧ back.v.get 3 = 9) ∧
      (mirrored.v.get 0 = 67 ∧ mirrored.v.get 1 = 0xF0 ∧ mirrored.v.get 2 = 0x90)) ∧
    (late'.i = m'.i ∧ late'.memory.ram = m'.step.memory.ram ∧ m'.Yields (.store 2) m'.step ∧
      late'.Yields (.fetch 2) first ∧
      (first.v.get 0 = 123 ∧ first.v.get 1 = 0xF0 ∧ first.v.get 2 = 0x90)) ∧
    (plain.dialect.loadStore = true ∧
      plain.execute (.store 2) = plain.execute (.storeRange 0 2)) := by
  intro m late back mirrored m' late' first plain
  obtain ⟨store, range, -⟩ := instruction?_storing
  have stores : m.Yields (.storeRange 2 0) m.step := yields_atEnd range
  have stores' : m'.Yields (.store 2) m'.step := yields_atEnd store
  obtain ⟨high, low⟩ := read_atEnd 0x202
  obtain ⟨high', low'⟩ := read_atEnd 0x200
  obtain ⟨index, ram, nines⟩ := rewound_eq m.step m.i
  obtain ⟨index', ram', -⟩ := rewound_eq m'.step m'.i
  have same : m.Fetches (Registers.way 2 0) (Registers.way 2 0) late back :=
    ((fetch_stored 2 0).1 index ram).1 stores .execute
  have turned : m.Fetches (Registers.way 2 0) (Registers.way 2 0).reverse late mirrored :=
    ((fetch_stored 2 0).1 index ram).2.1 stores .execute
  have forth : m'.Fetches (Registers.way 0 2) (Registers.way 0 2) late' first :=
    ((fetch_stored 2 0).1 index' ram').2.2 stores' .execute
  refine ⟨⟨index, ram, stores, .execute, .execute, ⟨?_, ?_, ?_, ?_⟩, ?_, ?_, ?_⟩,
    ⟨index', ram', stores', .execute, ?_, ?_, ?_⟩, rfl, ((fetch_stored 2 0).2 plain rfl).1⟩
  · exact (same.taken 0 (by decide) (by decide)).trans (if_pos (by decide))
  · exact ((same.taken 1 (by decide) (by decide)).trans (if_neg (by decide))).trans high
  · exact ((same.taken 2 (by decide) (by decide)).trans (if_neg (by decide))).trans low
  · exact (same.others 3 (by decide)).trans (congrArg (Vector.get · 3) nines)
  · exact (turned.taken 0 (by decide) (by decide)).trans (if_pos (by decide))
  · exact ((turned.taken 1 (by decide) (by decide)).trans (if_neg (by decide))).trans high
  · exact ((turned.taken 2 (by decide) (by decide)).trans (if_neg (by decide))).trans low
  · exact (forth.taken 0 (by decide) (by decide)).trans (if_pos (by decide))
  · exact ((forth.taken 1 (by decide) (by decide)).trans (if_neg (by decide))).trans high'
  · exact ((forth.taken 2 (by decide) (by decide)).trans (if_neg (by decide))).trans low'

end Machine

end XoChip
