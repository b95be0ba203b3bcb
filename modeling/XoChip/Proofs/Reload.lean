import XoChip.Proofs.History

/-!
Loading a program and going back to it. Main statement: a program just loaded finds nothing of what
ran before it, and going back to it is loading it once more (`load_reset`).
-/

namespace XoChip

namespace Memory

/-- Memory from end to end: the fonts, zeros up to the start of programs, the program, zeros. -/
def layout (rom : Rom) : List UInt8 :=
  Font.small.toList ++ Font.large.toList ++ List.replicate (0x200 - 240) 0 ++
    rom.bytes.toList ++ List.replicate (Rom.capacity - rom.size) 0

theorem length_layout (rom : Rom) : (layout rom).length = 0x10000 := by
  have fits : rom.bytes.size ≤ 0xFE00 := rom.size_le
  simp only [layout, List.length_append, List.length_replicate, Vector.length_toList,
    Array.length_toList, Rom.size, Rom.capacity]
  omega

theorem placed_eq (rom : Rom) (a : Nat) (h : a < (layout rom).length) :
    placed rom a = (layout rom)[a] := by
  simp only [layout, List.getElem_append, List.length_append, List.length_replicate,
    Vector.length_toList, Array.length_toList, List.getElem_replicate, Vector.getElem_toList,
    placed, Array.getD_eq_getD_getElem?]
  repeat' split
  case isFalse.isFalse.isFalse.isTrue =>
    have inside : a - 0x200 < rom.bytes.size := by omega
    rw [Array.getElem?_eq_getElem inside]
    rfl
  case isFalse.isFalse.isFalse.isFalse =>
    rw [Array.getElem?_eq_none (by omega)]
    rfl
  all_goals first | rfl | omega

theorem ram_ofRom (rom : Rom) : (ofRom rom).ram.toList = layout rom := by
  refine List.ext_getElem ?_ fun a h h' => ?_
  · rw [length_layout]
    exact Vector.length_toList
  · rw [← placed_eq]
    simp only [ofRom, Vector.getElem_toList, Vector.getElem_ofFn]

end Memory

namespace Machine

/-- A machine as loading leaves it, with the settings of the one before. -/
structure JustLoaded (before : Machine) (rom : Rom) (m : Machine) : Prop where
  ram : m.memory.ram.toList = Memory.layout rom
  stack : m.memory.stack = []
  pattern : m.memory.pattern = Vector.replicate 16 0
  romSize : m.memory.romSize = rom.size
  beep : m.memory.beep = true
  processor : m.toProcessor =
    { Processor.fresh with
      breakpoints := before.breakpoints
      dialect := before.profile.dialect
      halted := false }
  display : m.display = { Display.blank with palette := before.display.palette }
  disassembly : m.disassembly = .empty
  stoppedAt : m.stoppedAt = none
  rom_eq : m.rom = rom
  romPath : m.romPath = none
  profile : m.profile = before.profile
  frameLength : m.frameLength = before.frameLength
  random : m.random = before.random

/-- The settings that a program finds: what the host chose, and what the next random bytes are. -/
structure SameChoices (m₁ m₂ : Machine) : Prop where
  palette : m₂.display.palette = m₁.display.palette
  breakpoints : m₂.breakpoints = m₁.breakpoints
  profile : m₂.profile = m₁.profile
  frameLength : m₂.frameLength = m₁.frameLength
  random : m₂.random = m₁.random

/-- A program is loaded, from bytes or from a file. -/
inductive Loads (m : Machine) (rom : Rom) : Machine → Prop
  | bytes (s : Source) (fits : Rom.ofSource? s = .ok rom) {l : Machine}
    (loaded : m.load s = .ok l) : m.Loads rom l
  | file (path : String) (bytes : List UInt8) (found : m.files.read path = .ok bytes)
    (fits : Rom.ofSource? ⟨bytes, none⟩ = .ok rom) {l : Machine}
    (loaded : m.loadFile path = .ok l) : m.Loads rom l

theorem load_of_fits (m : Machine) {s : Source} {rom : Rom} (fits : Rom.ofSource? s = .ok rom) :
    m.load s = .ok { m.start rom with romPath := none } := by
  rw [load, fits]
  rfl

/-- A placed program on its bus. The bus is named, since memory is too large to be looked into. -/
theorem exists_bus (m : Machine) (rom : Rom) :
    ∃ bus : Bus, bus.memory = .ofRom rom ∧ bus.monitor = m.monitor.notify (.loaded rom.size) ∧
      m.place rom =
        { m with
          toBus := bus
          toProcessor := { Processor.fresh with
            breakpoints := m.breakpoints
            dialect := m.profile.dialect }
          display := { Display.blank with palette := m.display.palette }
          disassembly := .empty
          rom := rom
          stoppedAt := none } :=
  ⟨m.toBus.place rom, rfl, rfl, rfl⟩

theorem rom_place (m : Machine) (rom : Rom) : (m.place rom).rom = rom := by
  obtain ⟨bus, -, -, placed⟩ := m.exists_bus rom
  rw [placed]

/-- Placing a program that is just placed only shows in the log. -/
theorem reset_place (m : Machine) (rom : Rom) :
    (m.place rom).reset =
      { m.place rom with monitor := (m.place rom).monitor.notify (.loaded rom.size) } := by
  obtain ⟨bus, memory, -, placed⟩ := m.exists_bus rom
  obtain ⟨bus', memory', monitor', placed'⟩ := (m.place rom).exists_bus rom
  have renewed :
      bus' = { bus with monitor := (m.place rom).monitor.notify (.loaded rom.size) } := by
    rw [memory, ← memory', ← monitor']
  rw [reset, rom_place, placed', renewed, placed]

theorem start_eq (m : Machine) (rom : Rom) :
    m.start rom = { m.place rom with halted := false } := by
  obtain ⟨bus, -, -, placed⟩ := m.exists_bus rom
  rw [start, placed]
  rfl

/-- Placing a program is loading it, but for the halt and the file. -/
theorem place_eq (m : Machine) (rom : Rom) :
    m.place rom = { m.start rom with halted := true, romPath := m.romPath } := by
  obtain ⟨bus, -, -, placed⟩ := m.exists_bus rom
  rw [start_eq, placed]
  rfl

theorem start_justLoaded (m : Machine) (rom : Rom) :
    m.JustLoaded rom { m.start rom with romPath := none } := by
  obtain ⟨bus, memory, -, placed⟩ := m.exists_bus rom
  rw [start_eq, placed]
  have ram : bus.memory.ram.toList = Memory.layout rom := by
    rw [memory, Memory.ram_ofRom]
  constructor <;> first | exact ram | rw [memory]; rfl | rfl

/-- What there is to know of a loaded machine, whose memory is too large to be looked into. -/
theorem justLoaded_load (before : Machine) (rom : Rom) :
    before.JustLoaded rom (before.apply (.load ⟨rom.bytes.toList, none⟩)) := by
  rw [apply_load_bytes]
  exact before.start_justLoaded rom

theorem JustLoaded.pc {before m : Machine} {rom : Rom} (h : before.JustLoaded rom m) :
    m.pc = 0x200 :=
  congrArg Processor.pc h.processor

/-- What is loaded depends on the settings alone; the monitor and the files are not the
machine's. -/
theorem start_of_sameChoices {m₁ m₂ : Machine} (same : m₁.SameChoices m₂) (rom : Rom) :
    m₂.start rom =
      { m₁.start rom with
        romPath := m₂.romPath
        monitor := m₂.monitor.notify (.loaded rom.size)
        files := m₂.files } := by
  obtain ⟨palette, breakpoints, profile, frameLength, random⟩ := same
  obtain ⟨bus₁, memory₁, -, placed₁⟩ := m₁.exists_bus rom
  obtain ⟨bus₂, memory₂, monitor₂, placed₂⟩ := m₂.exists_bus rom
  have bus : bus₂ = ⟨bus₁.memory, m₂.monitor.notify (.loaded rom.size)⟩ := by
    rw [memory₁, ← memory₂, ← monitor₂]
  rw [start_eq, start_eq, placed₁, placed₂, bus, palette, breakpoints, profile, frameLength, random]

/-! ## The program stays -/

/-- Whether a turn puts another program in place of the one there is, or none. -/
def replaces (m : Machine) : Turn → Bool
  | .operation (.load s) => (m.load s).isOk
  | .operation (.loadFile path) => (m.loadFile path).isOk
  | .operation .unload => true
  | _ => false

/-- No turn puts another program in place of the one there is. -/
def Keeps (m : Machine) : List Turn → Prop
  | [] => True
  | t :: ts => m.replaces t = false ∧ (m.turn t).Keeps ts

theorem rom_of_own (m : Machine) {mv : Move} (own : mv.own = true) : (m.move mv).rom = m.rom := by
  cases mv with
  | step => exact m.step_sameSettings.rom
  | stop | endFrame => rfl
  | host | files => cases own

theorem rom_of_runs (m : Machine) {o : Operation} (runs : o.runs = true) :
    (m.apply o).rom = m.rom := by
  rw [← run_operationMoves]
  exact (along_of_own (P := fun s => s.rom = m.rom) (fun s _ own h => (s.rom_of_own own).trans h)
    (fun _ => own_operationMoves runs) rfl).last

theorem rom_turn {m : Machine} {t : Turn} (keeps : m.replaces t = false) :
    (m.turn t).rom = m.rom := by
  cases t with
  | files fs => rfl
  | operation o =>
    cases o with
    | load s =>
      cases loaded : m.load s with
      | error e => simp only [turn, apply, loaded, Except.toOption, Option.getD_none]
      | ok l => simp only [replaces, loaded, Except.isOk, Except.toBool] at keeps; cases keeps
    | loadFile path =>
      cases loaded : m.loadFile path with
      | error e => simp only [turn, apply, loaded, Except.toOption, Option.getD_none]
      | ok l => simp only [replaces, loaded, Except.isOk, Except.toBool] at keeps; cases keeps
    | unload => cases keeps
    | step | tick | frame => exact m.rom_of_runs rfl
    | findBreakpoint =>
      simp only [turn, apply, findBreakpoint]
      split <;> rfl
    | reset => rw [turn, apply, reset, rom_place]
    | _ => rfl

theorem rom_after {m : Machine} {h : List Turn} (keeps : m.Keeps h) : (m.after h).rom = m.rom := by
  induction h generalizing m with
  | nil => rfl
  | cons t ts ih => exact (ih keeps.2).trans (rom_turn keeps.1)

theorem Loads.rom_eq {m l : Machine} {rom : Rom} (loads : m.Loads rom l) : l.rom = rom := by
  cases loads with
  | bytes s fits loaded =>
    rw [m.load_of_fits fits, Except.ok.injEq] at loaded
    rw [← loaded, start_eq]
    exact m.rom_place rom
  | file path bytes found fits loaded =>
    rw [loadFile, found] at loaded
    simp only [fits, Except.map, Except.ok.injEq] at loaded
    rw [← loaded, start_eq]
    exact m.rom_place rom

/-- A program just loaded finds nothing of what ran before it. Until another one takes its place, a
reset is loading it once more, but that the machine is halted and the file of the program
remembered; so a second reset only shows in the log, and the copy kept for it can always be
loaded. -/
theorem load_reset :
    (∀ (m₁ m₂ : Machine) (s : Source) (l₁ l₂ : Machine), m₁.load s = .ok l₁ → m₂.load s = .ok l₂ →
      ∃ rom, Rom.ofSource? s = .ok rom ∧ m₁.JustLoaded rom l₁ ∧
        (m₁.SameChoices m₂ →
          l₂ = { l₁ with
            monitor := m₂.monitor.notify (.loaded rom.size)
            files := m₂.files })) ∧
    ∀ (m : Machine) (rom : Rom) (l : Machine) (h : List Turn), m.Loads rom l → l.Keeps h →
      let now := l.after h
      Rom.ofSource? ⟨now.rom.bytes.toList, none⟩ = .ok rom ∧
      (∃ again, now.load ⟨rom.bytes.toList, none⟩ = .ok again ∧
        now.reset = { again with halted := true, romPath := now.romPath }) ∧
      now.reset.reset =
        { now.reset with monitor := now.reset.monitor.notify (.loaded rom.size) } := by
  constructor
  · intro m₁ m₂ s l₁ l₂ loaded₁ loaded₂
    cases fits : Rom.ofSource? s with
    | error e =>
      rw [load, fits] at loaded₁
      cases loaded₁
    | ok rom =>
      rw [m₁.load_of_fits fits, Except.ok.injEq] at loaded₁
      rw [m₂.load_of_fits fits, Except.ok.injEq] at loaded₂
      subst l₁ l₂
      refine ⟨rom, rfl, m₁.start_justLoaded rom, fun same => ?_⟩
      rw [start_of_sameChoices same]
  · intro m rom l h loads keeps now
    have kept : now.rom = rom := (rom_after keeps).trans loads.rom_eq
    have back : now.reset = now.place rom := by rw [reset, kept]
    refine ⟨?_, ⟨{ now.start rom with romPath := none }, ?_, ?_⟩, ?_⟩
    · rw [kept, rom.ofSource?_bytes]
    · exact now.load_of_fits rom.ofSource?_bytes
    · rw [back, place_eq]
    · rw [back]
      exact now.reset_place rom

/-- A jump to itself is loaded into a machine that has counted instructions, and gone back to after
a step and a program that cannot be read. -/
theorem load_reset_jump :
    let rom : Rom := ⟨#[0x12, 0x00], by decide⟩
    let s : Source := ⟨[0x12, 0x00], none⟩
    let m := fresh default
    let m' := { m with cycles := 7, i := 0x300, halted := false }
    let l := { m.start rom with romPath := none }
    let h : List Turn := [.operation .step, .operation (.load ⟨[], some "broken"⟩)]
    m.load s = .ok l ∧ m'.load s = .ok { m'.start rom with romPath := none } ∧ m.SameChoices m' ∧
    m.Loads rom l ∧ l.Keeps h ∧
    (∃ rom', Rom.ofSource? s = .ok rom' ∧ m.JustLoaded rom' l) ∧
    Rom.ofSource? ⟨(l.after h).rom.bytes.toList, none⟩ = .ok rom := by
  intro rom s m m' l h
  have fits : Rom.ofSource? s = .ok rom := rfl
  have loaded : m.load s = .ok l := m.load_of_fits fits
  have loaded' : m'.load s = .ok { m'.start rom with romPath := none } := m'.load_of_fits fits
  have loads : m.Loads rom l := .bytes s fits loaded
  have keeps : l.Keeps h := ⟨rfl, rfl, trivial⟩
  refine ⟨loaded, loaded', ⟨rfl, rfl, rfl, rfl, rfl⟩, loads, keeps, ?_, ?_⟩
  · obtain ⟨rom', fits', just, -⟩ := load_reset.1 m m' s l _ loaded loaded'
    exact ⟨rom', fits', just⟩
  · exact (load_reset.2 m rom l h loads keeps).1

end Machine

end XoChip
