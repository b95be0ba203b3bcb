import Mathlib.Data.Fintype.Card
import XoChip.Proofs.Checked.Display
import XoChip.Proofs.Reload

/-!
What holds of every machine a host can bring about: sizes, ranges, and that the stored program and
the listing agree with their counters. Main statement: it holds before and after every move of every
history (`wellFormed_history`).
-/

namespace XoChip

namespace Disassembly

/-- There is a line for each visit and an address for each line. -/
def Counted (d : Disassembly) : Prop :=
  d.visits = d.size

theorem size_le (d : Disassembly) : d.size ≤ 0x10000 := by
  have distinct : (d.listing.keys.map UInt16.toFin).Nodup := by
    refine List.Nodup.map (fun a b h => UInt16.toFin_inj.mp h) ?_
    refine d.listing.distinct_keys.imp fun {a b} h equal => h ?_
    rw [equal]
    exact Std.compare_self
  have small := distinct.length_le_card
  rwa [List.length_map, Std.TreeMap.length_keys, Fintype.card_fin] at small

theorem Counted.visit {d : Disassembly} (h : d.Counted) (m : Memory) (a : Word) :
    (d.visit m a).Counted := by
  unfold Disassembly.visit
  split
  · exact h
  · unfold Counted size at *
    rw [Std.TreeMap.size_insert, if_neg ‹_›, h]

theorem Counted.renumber {d : Disassembly} (h : d.Counted) : d.renumber.Counted := by
  unfold Disassembly.renumber
  split
  · unfold Counted size at *
    rw [Std.TreeMap.size_ofList]
    · rw [List.length_map, List.length_zipIdx, Std.TreeMap.length_toList]
      exact h
    · have distinct := d.listing.distinct_keys_toList
      rw [← List.zipIdx_map_fst 0 d.listing.toList, List.pairwise_map] at distinct
      exact List.pairwise_map.mpr distinct
  · exact h

end Disassembly

namespace Machine

/-- Sizes and ranges of what a machine stores, of the program it goes back to and of its
listing. -/
structure WellFormed (m : Machine) : Prop where
  ram : m.memory.ram.toList.length = 0x10000
  cells : ∀ p : Fin 2, m.display.planes[p].cells.toList.length = 0x2000 ∧
    ∀ cell ∈ m.display.planes[p].cells, cell = 0 ∨ cell = 1
  mask : m.display.mask.val ≤ 3
  keyWait : ∀ r, m.keyWait = some r → r.val ≤ 15
  rom : m.rom.size ≤ 65024
  romSize : m.rom.size = m.memory.romSize
  visits : m.disassembly.visits = m.disassembly.size
  lines : m.disassembly.size ≤ 0x10000

/-- What a machine cannot but have, or keeps by what it does. -/
theorem wellFormed_iff (m : Machine) :
    m.WellFormed ↔ m.rom.size = m.memory.romSize ∧ m.disassembly.Counted := by
  refine ⟨fun h => ⟨h.romSize, h.visits⟩, fun ⟨romSize, visits⟩ => ?_⟩
  exact
    { ram := Vector.length_toList
      cells := fun p => ⟨Vector.length_toList, fun cell h => by
        obtain ⟨k, hk, rfl⟩ := Vector.mem_iff_getElem.mp h
        rw [Plane.getElem_cells]
        cases m.display.planes[p][k / 128][k % 128]
        · exact .inl rfl
        · exact .inr rfl⟩
      mask := Nat.le_of_lt_succ m.display.mask.isLt
      keyWait := fun r _ => Nat.le_of_lt_succ r.isLt
      rom := m.rom.size_le
      romSize := romSize
      visits := visits
      lines := m.disassembly.size_le }

theorem WellFormed.congr {m m' : Machine} (h : m.WellFormed) (rom : m'.rom = m.rom)
    (romSize : m'.memory.romSize = m.memory.romSize)
    (listing : m'.disassembly = m.disassembly) : m'.WellFormed := by
  obtain ⟨size, counted⟩ := m.wellFormed_iff.mp h
  exact m'.wellFormed_iff.mpr ⟨rom ▸ romSize ▸ size, listing ▸ counted⟩

/-! ## The listing and the program -/

/-- The listing and the count of instructions are not the instruction's to change. -/
theorem execute_counts (m : Machine) (i : Instruction) :
    (m.execute i).disassembly = m.disassembly ∧ (m.execute i).cycles = m.cycles := by
  rw [execute_eq_writing]
  exact ⟨rfl, rfl⟩

/-- The listing is not the instruction's to change, so a step adds the line and no other. -/
theorem disassembly_step {m : Machine} (awaited : m.waiting = false) :
    m.step.disassembly = m.disassembly.visit m.memory m.pc := by
  have entered : m.fetched.disassembly = m.disassembly.visit m.memory m.pc := by rw [fetched_eq]
  cases next : m.next? with
  | none =>
    rw [step_of_none awaited next]
    exact entered
  | some i =>
    rw [step_of_some awaited next]
    exact (m.fetched.execute_counts i).1.trans entered

/-- A step is counted unless a key is awaited. -/
theorem cycles_step (m : Machine) :
    m.step.cycles = if m.waiting then m.cycles else m.cycles + 1 := by
  cases waiting : m.waiting with
  | true =>
    rw [step_of_waiting waiting]
    rfl
  | false =>
    have fetched : m.fetched.cycles = m.cycles := by rw [fetched_eq]
    cases next : m.next? with
    | none =>
      rw [step_of_none waiting next]
      exact congrArg (· + 1) fetched
    | some i =>
      rw [step_of_some waiting next]
      exact congrArg (· + 1) ((m.fetched.execute_counts i).2.trans fetched)

theorem cycles_step_le (m : Machine) : m.step.cycles ≤ m.cycles + 1 := by
  rw [cycles_step]
  split <;> omega

theorem WellFormed.step {m : Machine} (h : m.WellFormed) : m.step.WellFormed := by
  obtain ⟨romSize, counted⟩ := m.wellFormed_iff.mp h
  refine (wellFormed_iff _).mpr ⟨?_, ?_⟩
  · rw [m.step_sameSettings.rom, m.step_sameSettings.romSize, romSize]
  · cases waiting : m.waiting with
    | true => rwa [step_of_waiting waiting]
    | false =>
      rw [disassembly_step waiting]
      exact counted.visit m.memory m.pc

theorem WellFormed.own {m : Machine} (h : m.WellFormed) {mv : Move} (own : mv.own = true) :
    (m.move mv).WellFormed := by
  cases mv with
  | step => exact h.step
  | stop | endFrame => exact h.congr rfl rfl rfl
  | host | files => cases own

theorem wellFormed_fresh (random : Random) : (fresh random).WellFormed :=
  (wellFormed_iff _).mpr ⟨rfl, rfl⟩

theorem wellFormed_place (m : Machine) (rom : Rom) : (m.place rom).WellFormed := by
  obtain ⟨bus, memory, -, placed⟩ := m.exists_bus rom
  rw [placed]
  refine (wellFormed_iff _).mpr ⟨?_, rfl⟩
  change rom.size = bus.memory.romSize
  rw [memory]
  rfl

theorem wellFormed_start (m : Machine) (rom : Rom) : (m.start rom).WellFormed := by
  rw [start_eq]
  exact (m.wellFormed_place rom).congr rfl rfl rfl

theorem WellFormed.apply_runs {m : Machine} (h : m.WellFormed) {o : Operation}
    (runs : o.runs = true) : (m.apply o).WellFormed := by
  rw [← run_operationMoves]
  exact (along_of_own (fun s mv own h => h.own own) (fun mv => own_operationMoves runs) h).last

theorem WellFormed.turn {m : Machine} (h : m.WellFormed) (t : Turn) : (m.turn t).WellFormed := by
  cases t with
  | files fs => exact h.congr rfl rfl rfl
  | operation o =>
    cases o with
    | load s =>
      rw [Machine.turn, apply, load]
      cases Rom.ofSource? s with
      | error e => exact h
      | ok rom => exact (m.wellFormed_start rom).congr rfl rfl rfl
    | loadFile path =>
      rw [Machine.turn, apply, loadFile]
      cases m.files.read path with
      | error e => exact h
      | ok bytes =>
        dsimp only
        cases Rom.ofSource? ⟨bytes, none⟩ with
        | error e => exact h
        | ok rom => exact (m.wellFormed_start rom).congr rfl rfl rfl
    | reset => exact m.wellFormed_place m.rom
    | unload => exact (wellFormed_iff _).mpr ⟨rfl, rfl⟩
    | step => exact h.step
    | tick n => exact h.apply_runs (o := .tick n) rfl
    | frame => exact h.apply_runs (o := .frame) rfl
    | findBreakpoint =>
      simp only [Machine.turn, apply, findBreakpoint]
      split <;> exact h.congr rfl rfl rfl
    | renumber =>
      obtain ⟨romSize, counted⟩ := m.wellFormed_iff.mp h
      exact (wellFormed_iff _).mpr ⟨romSize, counted.renumber⟩
    | _ => exact h.congr rfl rfl rfl

theorem WellFormed.after {m : Machine} (h : m.WellFormed) (turns : List Turn) :
    (m.after turns).WellFormed := by
  induction turns generalizing m with
  | nil => exact h
  | cons t ts ih => exact ih (h.turn t)

/-- From a machine just switched on, whatever a host does, at every move. -/
theorem wellFormed_history (random : Random) (h : List Turn) :
    Along WellFormed (fresh random) ((fresh random).history h) :=
  along_history (fun _ _ own h => h.own own) fun past _ =>
    (wellFormed_fresh random).after past

end Machine

end XoChip
