import XoChip.Proofs.Reload
import XoChip.Proofs.SpriteWait
import XoChip.Proofs.WriteSet

/-!
What a host does to a machine between the machine's own moves. Either it starts over, and nothing is
left of what ran (`startedOver`), or it leaves alone all that it has no say in
(`apply_eq_hosting`).
-/

namespace XoChip.Machine

/-- Whether an operation starts over: a load that succeeds, a reset, or taking the program out. -/
def startsOver (m : Machine) : Operation → Bool
  | .load s => (m.load s).isOk
  | .loadFile path => (m.loadFile path).isOk
  | .reset | .unload => true
  | _ => false

/-- A machine with the parts of another that a host changes without starting over. -/
def hosting (m m' : Machine) : Machine :=
  { m with
    monitor := m'.monitor
    v := m'.v
    delay := m'.delay
    sound := m'.sound
    keys := m'.keys
    dialect := m'.dialect
    breakpoints := m'.breakpoints
    halted := m'.halted
    keyWait := m'.keyWait
    frameWait := m'.frameWait
    pitchDirty := m'.pitchDirty
    display := m'.display
    disassembly := m'.disassembly
    profile := m'.profile
    frameLength := m'.frameLength
    stoppedAt := m'.stoppedAt }

/-- A program that cannot be loaded changes nothing. -/
theorem apply_of_not_isOk {m : Machine} {result : Except LoadError Machine}
    (fails : result.isOk = false) : result.toOption.getD m = m := by
  cases result with
  | error e => rfl
  | ok l => cases fails

theorem apply_eq_hosting {m : Machine} {o : Operation} (quiet : o.runs = false)
    (goesOn : m.startsOver o = false) : m.apply o = m.hosting (m.apply o) := by
  cases o with
  | load | loadFile =>
    rw [apply, apply_of_not_isOk goesOn]
    rfl
  | reset | unload => cases goesOn
  | step | tick | frame => cases quiet
  | pressKey key =>
    rw [apply, pressKey_eq]
    rfl
  | findBreakpoint =>
    rw [apply, findBreakpoint_eq]
    rfl
  | _ => rfl

/-- What starting over leaves of a machine: the settings of the host and the files. -/
structure StartedOver (m m' : Machine) : Prop where
  memory : ∃ rom, m'.memory = .ofRom rom
  processor : m'.toProcessor =
    { Processor.fresh with
      breakpoints := m.breakpoints
      dialect := m.profile.dialect
      halted := m'.halted }
  disassembly : m'.disassembly = .empty
  stoppedAt : m'.stoppedAt = none
  profile : m'.profile = m.profile
  files : m'.files = m.files

theorem startedOver_place (m : Machine) (rom : Rom) : m.StartedOver (m.place rom) := by
  obtain ⟨bus, memory, -, placed⟩ := m.exists_bus rom
  rw [placed]
  exact ⟨⟨rom, memory⟩, rfl, rfl, rfl, rfl, rfl⟩

/-- Taking the program out leaves a bus without it, of which no proof has to see the bytes. -/
theorem exists_bus_unload (m : Machine) :
    ∃ bus : Bus, bus.memory = .ofRom .empty ∧ bus.monitor = m.monitor ∧
      m.unload = { m with toBus := bus, rom := .empty, romPath := none }.restart := by
  have kept (memory : Memory) : (Bus.mk memory m.monitor).monitor = m.monitor := rfl
  exact ⟨⟨.ofRom .empty, m.monitor⟩, rfl, kept _, rfl⟩

theorem startedOver_unload (m : Machine) : m.StartedOver m.unload := by
  obtain ⟨bus, memory, -, taken⟩ := m.exists_bus_unload
  rw [taken]
  exact ⟨⟨.empty, memory⟩, rfl, rfl, rfl, rfl, rfl⟩

theorem startedOver_start (m : Machine) (rom : Rom) : m.StartedOver (m.start rom) := by
  obtain ⟨memory, processor, disassembly, stoppedAt, profile, files⟩ := m.startedOver_place rom
  rw [start_eq]
  exact ⟨memory, congrArg (fun p : Processor => { p with halted := false }) processor, disassembly,
    stoppedAt, profile, files⟩

/-- Neither the name of a file nor a notice bears on what is left. -/
theorem StartedOver.named {m m' : Machine} (h : m.StartedOver m') (romPath : Option String)
    (monitor : Monitor) : m.StartedOver { m' with romPath := romPath, monitor := monitor } :=
  ⟨h.memory, h.processor, h.disassembly, h.stoppedAt, h.profile, h.files⟩

theorem load_of_isOk {m : Machine} {s : Source} (loads : (m.load s).isOk = true) :
    ∃ rom, m.apply (.load s) = { m.start rom with romPath := none } := by
  rw [load] at loads
  rw [apply, load]
  cases fits : Rom.ofSource? s with
  | error e =>
    rw [fits] at loads
    cases loads
  | ok rom => exact ⟨rom, rfl⟩

theorem loadFile_of_isOk {m : Machine} {path : String} (loads : (m.loadFile path).isOk = true) :
    ∃ rom, m.apply (.loadFile path) =
      { m.start rom with romPath := some path }.notify (.running path) := by
  rw [loadFile] at loads
  rw [apply, loadFile]
  cases found : m.files.read path with
  | error e =>
    rw [found] at loads
    cases loads
  | ok bytes =>
    rw [found] at loads
    dsimp only at loads ⊢
    cases fits : Rom.ofSource? ⟨bytes, none⟩ with
    | error e =>
      rw [fits] at loads
      cases loads
    | ok rom => exact ⟨rom, rfl⟩

theorem startedOver {m : Machine} {o : Operation} (anew : m.startsOver o = true) :
    m.StartedOver (m.apply o) := by
  cases o with
  | load s =>
    obtain ⟨rom, loaded⟩ := load_of_isOk anew
    rw [loaded]
    exact (m.startedOver_start rom).named none (m.start rom).monitor
  | loadFile path =>
    obtain ⟨rom, loaded⟩ := loadFile_of_isOk anew
    rw [loaded]
    exact (m.startedOver_start rom).named (some path) _
  | reset => exact m.startedOver_place m.rom
  | unload => exact m.startedOver_unload
  | _ => cases anew

/-! ## Moves -/

/-- The host starts over with a move. -/
def Renews (m : Machine) : Move → Prop
  | .host o _ => m.startsOver o = true
  | _ => False

/-- None of some moves is of a kind to be avoided. -/
def Avoids (bad : Machine → Move → Prop) (m : Machine) : List Move → Prop
  | [] => True
  | mv :: ms => ¬bad m mv ∧ Avoids bad (m.move mv) ms

section
variable {bad : Machine → Move → Prop} {m : Machine}

theorem avoids_append {ms ns : List Move} :
    Avoids bad m (ms ++ ns) ↔ Avoids bad m ms ∧ Avoids bad (m.run ms) ns := by
  induction ms generalizing m with
  | nil => exact ⟨fun h => ⟨trivial, h⟩, fun h => h.2⟩
  | cons mv ms ih => exact (and_congr_right fun _ => ih).trans and_assoc.symm

/-- What every move keeps that is not to be avoided holds all along. -/
theorem Avoids.along {P : Machine → Prop} {ms : List Move} (h : Avoids bad m ms)
    (keeps : ∀ s mv, ¬bad s mv → P s → P (s.move mv)) (start : P m) : Along P m ms := by
  induction ms generalizing m with
  | nil => exact start
  | cons mv ms ih => exact ⟨start, ih h.2 (keeps m mv h.1 start)⟩

end

/-- Some moves end with one of a kind, or there are none: from here on, what is of that kind lies
ahead. -/
def EndsWith (m : Machine) (kind : Machine → Move → Prop) (past : List Move) : Prop :=
  past = [] ∨ ∃ before mv, past = before ++ [mv] ∧ kind (m.run before) mv

/-- Moves are cut behind the last one of a kind. -/
theorem exists_latest (kind : Machine → Move → Prop) (m : Machine) (ms : List Move) :
    ∃ past later, ms = past ++ later ∧ m.EndsWith kind past ∧ (m.run past).Avoids kind later := by
  induction ms using List.reverseRecOn with
  | nil => exact ⟨[], [], rfl, .inl rfl, trivial⟩
  | append_singleton ms mv ih =>
    by_cases last : kind (m.run ms) mv
    · exact ⟨ms ++ [mv], [], (List.append_nil _).symm, .inr ⟨ms, mv, rfl, last⟩, trivial⟩
    · obtain ⟨past, later, rfl, ends, avoids⟩ := ih
      rw [run_append] at last
      exact ⟨past, later ++ [mv], List.append_assoc .., ends,
        avoids_append.mpr ⟨avoids, last, trivial⟩⟩

/-! ## Programs left as they were loaded -/

/-- A program is in memory as it was loaded, and no key is awaited. -/
structure Runs (rom : Rom) (m : Machine) : Prop where
  awaited : m.waiting = false
  ram : m.memory.ram = (Memory.ofRom rom).ram

section
variable {rom : Rom} {m : Machine} {i : Instruction}

theorem JustLoaded.runs {before : Machine} (h : before.JustLoaded rom m) : Runs rom m where
  awaited := congrArg Processor.waiting h.processor
  ram := Vector.toList_inj.mp (h.ram.trans (Memory.ram_ofRom rom).symm)

theorem runs_loaded (rom : Rom) : Runs rom (loaded rom) :=
  ((fresh default).justLoaded_load rom).runs

theorem Runs.word (h : Runs rom m) (a : Word) : m.memory.word a = (Memory.ofRom rom).word a := by
  simp only [Memory.word, Memory.read, h.ram]

theorem Runs.next? (h : Runs rom m) : m.next? = (Memory.ofRom rom).instruction? m.pc := by
  simp only [Machine.next?, Memory.instruction?, h.word]

theorem Runs.executed? (h : Runs rom m) (found : (Memory.ofRom rom).instruction? m.pc = some i) :
    m.executed? = some i :=
  executed?_eq_some.mpr ⟨h.awaited, h.next?.trans found⟩

theorem Runs.step (h : Runs rom m) (executed : m.executed? = some i)
    (ram : Part.ram.writtenBy i = false) (keyWait : Part.keyWait.writtenBy i = false) :
    Runs rom m.step := by
  have kept {p : Part} (other : p.writtenBy i = false) : p.Same m m.step := by
    rcases m.step_same p with same | ⟨j, executed', writer⟩
    · exact same
    · cases executed.symm.trans executed'
      cases other.symm.trans writer
  have sameWait : m.step.keyWait = m.keyWait := kept keyWait
  have sameRam : m.step.memory.ram = m.memory.ram := kept ram
  exact ⟨(congrArg Option.isSome sameWait).trans h.awaited, sameRam.trans h.ram⟩

end

end XoChip.Machine
