import XoChip.Proofs.Checked.Run

/-!
Loading as one change after another to what is there, where an error that comes in between takes
none of them back. Main statement: no change comes before the last error there can be, so a program
that cannot be loaded leaves everything as it was (`load_whole_or_not`).
-/

namespace XoChip

/-- What opening a file comes to: a directory can be opened and breaks off when it is read. -/
def FileSystem.opened (fs : FileSystem) (path : String) : Except String Source :=
  match fs.read path with
  | .ok bytes => .ok ⟨bytes, none⟩
  | .error .isDirectory => .ok ⟨[], some FileError.isDirectory.message⟩
  | .error e => .error e.message

namespace Rom
variable {source : Source}

theorem ofSource?_broken {reason : String} (broken : source.failure = some reason) :
    ofSource? source = .error (.unreadable reason) := by
  rw [ofSource?, broken]

theorem ofSource?_tooLarge (whole : source.failure = none)
    (large : capacity < source.bytes.length) :
    ofSource? source = .error (.tooLarge source.bytes.length) := by
  rw [ofSource?, whole]
  exact dif_neg (Nat.not_le.mpr large)

theorem ofSource?_fits (whole : source.failure = none) (fits : source.bytes.length ≤ capacity) :
    ofSource? source = .ok ⟨source.bytes.toArray, fits⟩ := by
  rw [ofSource?, whole]
  exact dif_pos fits

end Rom

namespace Checked
open Machine

/-- Changes to a state until an error, and what they yield. An error leaves the state as it is by
then; a place that is missed is no outcome. -/
abbrev Loader (σ α : Type) : Type :=
  ExceptT LoadError (StateT σ Option) α

namespace Loader

section
variable {σ α β : Type}

def outcome (l : Loader σ α) (s : σ) : Option (Except LoadError α × σ) :=
  StateT.run (ExceptT.run l) s

/-- A change to the state through checked places. -/
def change (f : σ → Option σ) : Loader σ Unit := do
  let s ← get
  let s' ← f s
  set s'

theorem outcome_pure (a : α) (s : σ) : (pure a : Loader σ α).outcome s = some (.ok a, s) :=
  rfl

theorem outcome_throw (e : LoadError) (s : σ) :
    (throw e : Loader σ α).outcome s = some (.error e, s) :=
  rfl

theorem outcome_modify (f : σ → σ) (s : σ) :
    (modify f : Loader σ Unit).outcome s = some (.ok (), f s) :=
  rfl

theorem outcome_bind_ok {l : Loader σ α} {f : α → Loader σ β} {s s' : σ} {a : α}
    (h : l.outcome s = some (.ok a, s')) : (l >>= f).outcome s = (f a).outcome s' := by
  change (l.outcome s).bind _ = _
  rw [h]
  rfl

theorem outcome_bind_error {l : Loader σ α} {f : α → Loader σ β} {s s' : σ} {e : LoadError}
    (h : l.outcome s = some (.error e, s')) : (l >>= f).outcome s = some (.error e, s') := by
  change (l.outcome s).bind _ = _
  rw [h]
  rfl

theorem outcome_change {f : σ → Option σ} {s s' : σ} (h : f s = some s') :
    (change f).outcome s = some (.ok (), s') := by
  have read : (get : Loader σ σ).outcome s = some (.ok s, s) := rfl
  have changed : (liftM (some s') : Loader σ σ).outcome s = some (.ok s', s) := rfl
  rw [change, outcome_bind_ok read, h, outcome_bind_ok changed]
  rfl

/-! ## Reading -/

/-- Collects the bytes of a source until it ends or breaks off. -/
def readToEnd (source : Source) : Loader σ (Array UInt8) := do
  let bytes ← source.bytes.foldlM (fun read b => pure (read.push b)) #[]
  match source.failure with
  | some reason => throw (.unreadable reason)
  | none => pure bytes

/-- Reads a program that is to fit in memory. -/
def readProgram (source : Source) : Loader σ (Array UInt8) := do
  let bytes ← readToEnd source
  if Rom.capacity < bytes.size then throw (.tooLarge bytes.size) else pure bytes

theorem outcome_collect (bs : List UInt8) (read : Array UInt8) (s : σ) :
    (bs.foldlM (fun read b => pure (read.push b)) read : Loader σ (Array UInt8)).outcome s =
      some (.ok (read ++ bs.toArray), s) := by
  induction bs generalizing read with
  | nil =>
    rw [List.foldlM_nil, outcome_pure, Array.append_empty]
  | cons b bs ih =>
    rw [List.foldlM_cons, outcome_bind_ok (outcome_pure (read.push b) s), ih]
    simp

/-- Reading finds the program, or why there is none, and does nothing else. -/
theorem outcome_readProgram (source : Source) (s : σ) :
    (readProgram source : Loader σ (Array UInt8)).outcome s =
      some ((Rom.ofSource? source).map Rom.bytes, s) := by
  have collected := outcome_collect source.bytes #[] s
  rw [Array.empty_append] at collected
  -- What was collected before a source broke off is dropped with the error.
  have read : (readToEnd source : Loader σ (Array UInt8)).outcome s =
      some (match source.failure with
        | some reason => .error (.unreadable reason)
        | none => .ok source.bytes.toArray, s) := by
    rw [readToEnd, outcome_bind_ok collected]
    cases source.failure <;> rfl
  cases failure : source.failure with
  | some reason =>
    rw [failure] at read
    rw [Rom.ofSource?_broken failure]
    exact outcome_bind_error read
  | none =>
    rw [failure] at read
    rw [readProgram, outcome_bind_ok read, List.size_toArray]
    by_cases large : Rom.capacity < source.bytes.length
    · rw [Rom.ofSource?_tooLarge failure large, if_pos large]
      rfl
    · rw [Rom.ofSource?_fits failure (Nat.not_lt.mp large), if_neg large]
      rfl

/-! ## Whole or not at all -/

/-- How a state ends up that is to be replaced by a new one, if there is one. -/
def settled (before : σ) : Except LoadError σ → Except LoadError Unit × σ
  | .error e => (.error e, before)
  | .ok after => (.ok (), after)

/-- A program is loaded whole or not at all: an error tells what kept it from being read, or that it
does not fit, and leaves the state as it was. -/
structure WholeOrNot (l : Loader σ Unit) (source : Source) : Prop where
  broken : ∀ reason before, source.failure = some reason →
    l.outcome before = some (.error (.unreadable reason), before)
  tooLarge : ∀ before, source.failure = none → 65024 < source.bytes.length →
    l.outcome before = some (.error (.tooLarge source.bytes.length), before)
  loaded : ∀ before, source.failure = none →
    ((∃ after, l.outcome before = some (.ok (), after)) ↔ source.bytes.length ≤ 65024)

/-- It is enough that a new state depends on nothing but the program and the state before. -/
theorem wholeOrNot_of_settled {l : Loader σ Unit} {source : Source} {start : σ → Rom → σ}
    (h : ∀ before,
      l.outcome before = some (settled before ((Rom.ofSource? source).map (start before)))) :
    WholeOrNot l source where
  broken reason before broken := by
    rw [h, Rom.ofSource?_broken broken]
    rfl
  tooLarge before whole large := by
    rw [h, Rom.ofSource?_tooLarge whole large]
    rfl
  loaded before whole := by
    by_cases large : 65024 < source.bytes.length
    · refine iff_of_false ?_ (Nat.not_le.mpr large)
      rintro ⟨_, loaded⟩
      rw [h, Rom.ofSource?_tooLarge whole large] at loaded
      cases loaded
    · have fits := Nat.not_lt.mp large
      rw [h, Rom.ofSource?_fits whole fits]
      exact iff_of_true ⟨_, rfl⟩ fits

end

/-! ## Memory -/

/-- Copies a program to the start of programs. -/
def copyIn (bytes : Array UInt8) (bus : Bus) : Option Bus := do
  let last ← add 64 0x200 bytes.size
  let ram ← blit bus.memory.ram 0x200 last bytes.toList
  some { bus with memory := { bus.memory with ram := ram } }

def loadBus (source : Source) : Loader Bus Unit := do
  let bytes ← readProgram source
  change erase
  change (copyIn bytes)
  modify fun bus => { bus with memory := { bus.memory with romSize := bytes.size } }
  modify (·.notify (.loaded bytes.size))

theorem copyIn_erase (bus : Bus) (rom : Rom) :
    copyIn rom.bytes bus.erase =
      some ⟨⟨(Memory.ofRom rom).ram, [], Vector.replicate 16 0, 0, true⟩, bus.monitor⟩ := by
  have fits : rom.bytes.size ≤ 0xFE00 := rom.size_le
  have copied : blit Memory.blank.ram 0x200 (0x200 + rom.bytes.size) rom.bytes.toList =
      some (Memory.ofRom rom).ram := copied_eq rom
  have blank : (⟨Memory.blank.ram, [], Vector.replicate 16 0, 0, true⟩ : Memory) = .blank :=
    memory_eq rfl rfl rfl rfl
  rw [copyIn, add_eq (by omega), some_bind, Bus.erase, ← blank]
  dsimp only
  rw [copied, some_bind]

theorem outcome_loadBus (source : Source) (bus : Bus) :
    (loadBus source).outcome bus = some (settled bus (bus.load source)) := by
  have read := outcome_readProgram source bus
  unfold Bus.load
  cases found : Rom.ofSource? source with
  | error e =>
    rw [found] at read
    exact outcome_bind_error read
  | ok rom =>
    rw [found] at read
    have size : rom.bytes.size = rom.size := rfl
    have memory : (⟨(Memory.ofRom rom).ram, [], Vector.replicate 16 0, rom.size, true⟩ : Memory) =
        .ofRom rom :=
      memory_eq rfl rfl rfl rfl
    rw [loadBus, outcome_bind_ok read, outcome_bind_ok (outcome_change (erase_eq bus)),
      outcome_bind_ok (outcome_change (copyIn_erase bus rom)),
      outcome_bind_ok (outcome_modify _ _), outcome_modify]
    dsimp only
    rw [size, memory]
    rfl

/-! ## The machine -/

/-- Carries out on memory what leaves the rest of a machine alone. -/
def onBus (l : Loader Bus Unit) : Loader Machine Unit :=
  .mk fun m => (l.outcome m.toBus).map fun (result, bus) => (result, { m with toBus := bus })

theorem outcome_onBus {l : Loader Bus Unit} {m : Machine} {result : Except LoadError Unit}
    {bus : Bus} (h : l.outcome m.toBus = some (result, bus)) :
    (onBus l).outcome m = some (result, { m with toBus := bus }) := by
  change (l.outcome m.toBus).map _ = _
  rw [h]
  rfl

/-- Keeps a copy of the program as it lies in memory. -/
def keepCopy (m : Machine) : Option Machine := do
  let last ← add 64 0x200 m.memory.romSize
  let copy ← slice m.memory.ram 0x200 last
  if fits : copy.toArray.size ≤ Rom.capacity then some { m with rom := ⟨copy.toArray, fits⟩ }
  else none

def load (source : Source) : Loader Machine Unit := do
  onBus (loadBus source)
  change keepCopy
  modify restart
  modify fun m => { m with toProcessor := m.toProcessor.setHalted false }

/-- Loads a program that has no file. -/
def loadBytes (source : Source) : Loader Machine Unit := do
  load source
  modify fun m => { m with romPath := none }

/-- Loads a program from what opening its file came to. -/
def loadFile (path : String) (opened : Except String Source) : Loader Machine Unit := do
  let source ← match opened with
    | .error reason => throw (.unreadable reason)
    | .ok source => pure source
  load source
  modify fun m => { m with romPath := some path }
  modify (·.notify (.running path))

theorem keepCopy_place (m : Machine) (rom : Rom) :
    keepCopy { m with toBus := m.toBus.place rom } =
      some { m with toBus := m.toBus.place rom, rom := rom } := by
  have fits : rom.size ≤ 0xFE00 := rom.size_le
  have size : (m.toBus.place rom).memory.romSize = rom.size := rfl
  have ram : (m.toBus.place rom).memory.ram = (Memory.ofRom rom).ram := rfl
  rw [keepCopy, size, ram, add_eq (by omega), some_bind, slice_placed, some_bind,
    dif_pos rom.size_le]

theorem outcome_load (source : Source) (m : Machine) :
    (load source).outcome m = some (settled m ((Rom.ofSource? source).map m.start)) := by
  have read := outcome_loadBus source m.toBus
  unfold Bus.load at read
  cases found : Rom.ofSource? source with
  | error e =>
    rw [found] at read
    have kept : (loadBus source).outcome m.toBus = some (.error e, m.toBus) := read
    exact outcome_bind_error (outcome_onBus kept)
  | ok rom =>
    rw [found] at read
    have placed : (loadBus source).outcome m.toBus = some (.ok (), m.toBus.place rom) := read
    rw [load, outcome_bind_ok (outcome_onBus placed),
      outcome_bind_ok (outcome_change (keepCopy_place m rom)),
      outcome_bind_ok (outcome_modify _ _), outcome_modify]
    rfl

theorem outcome_loadBytes (source : Source) (m : Machine) :
    (loadBytes source).outcome m = some (settled m (m.load source)) := by
  have loaded := outcome_load source m
  unfold Machine.load
  cases found : Rom.ofSource? source with
  | error e =>
    rw [found] at loaded
    exact outcome_bind_error loaded
  | ok rom =>
    rw [found] at loaded
    rw [loadBytes, outcome_bind_ok loaded, outcome_modify]
    rfl

theorem outcome_loadFile_error (path reason : String) (m : Machine) :
    (loadFile path (.error reason)).outcome m = some (.error (.unreadable reason), m) :=
  outcome_bind_error (outcome_throw _ m)

theorem outcome_loadFile_ok (path : String) (source : Source) (m : Machine) :
    (loadFile path (.ok source)).outcome m =
      some (settled m ((Rom.ofSource? source).map fun rom =>
        { m.start rom with romPath := some path }.notify (.running path))) := by
  have loaded := outcome_load source m
  have opened : (pure source : Loader Machine Source).outcome m = some (.ok source, m) :=
    outcome_pure source m
  rw [loadFile, outcome_bind_ok opened]
  cases found : Rom.ofSource? source with
  | error e =>
    rw [found] at loaded
    exact outcome_bind_error loaded
  | ok rom =>
    rw [found] at loaded
    rw [outcome_bind_ok loaded, outcome_bind_ok (outcome_modify _ _), outcome_modify]
    rfl

theorem outcome_loadFile (path : String) (m : Machine) :
    (loadFile path (m.files.opened path)).outcome m = some (settled m (m.loadFile path)) := by
  unfold FileSystem.opened Machine.loadFile
  cases m.files.read path with
  | ok bytes => exact outcome_loadFile_ok path ⟨bytes, none⟩ m
  | error e =>
    cases e with
    | isDirectory => exact outcome_loadFile_ok path ⟨[], some FileError.isDirectory.message⟩ m
    | _ => exact outcome_loadFile_error path _ m

/-- **Loading is whole or not at all**, into memory, from bytes and from a file. The machine does
with a program what these changes do one after another; so a host that cannot load one has its
machine as it was, and nothing is logged and no event heard. -/
theorem load_whole_or_not (source : Source) (path : String) :
    WholeOrNot (loadBus source) source ∧ WholeOrNot (loadBytes source) source ∧
    WholeOrNot (loadFile path (.ok source)) source ∧
    (∀ reason m, (loadFile path (.error reason)).outcome m =
      some (.error (.unreadable reason), m)) ∧
    (∀ bus : Bus, (loadBus source).outcome bus = some (settled bus (bus.load source))) ∧
    (∀ m : Machine, (loadBytes source).outcome m = some (settled m (m.load source)) ∧
      m.apply (.load source) = (settled m (m.load source)).2) ∧
    (∀ m : Machine, (loadFile path (m.files.opened path)).outcome m =
        some (settled m (m.loadFile path)) ∧
      m.apply (.loadFile path) = (settled m (m.loadFile path)).2) := by
  have turn {m : Machine} (result : Except LoadError Machine) :
      result.toOption.getD m = (settled m result).2 := by
    cases result <;> rfl
  exact ⟨wholeOrNot_of_settled (outcome_loadBus source),
    wholeOrNot_of_settled (outcome_loadBytes source),
    wholeOrNot_of_settled (outcome_loadFile_ok path source), outcome_loadFile_error path,
    outcome_loadBus source, fun m => ⟨outcome_loadBytes source m, turn _⟩,
    fun m => ⟨outcome_loadFile path m, turn _⟩⟩

example (m : Machine) :
    (loadBytes ⟨[0x12, 0x00], some "broken pipe"⟩).outcome m =
      some (.error (.unreadable "broken pipe"), m) :=
  rfl

end Loader

end Checked

end XoChip
