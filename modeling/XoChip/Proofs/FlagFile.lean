import Mathlib.Data.List.GetD
import XoChip.Proofs.HostMoves

/-!
Flag files. What a program saves beside its own file stays there until the same place is written
again, so that it finds the registers again however it was left in between. Main statement:
`flag_file`.
-/

namespace XoChip

theorem Registers.get_overwrite (v : Registers) (x r : Register) (bytes : List UInt8) :
    (v.overwrite x bytes).get r = if r ≤ x then bytes.getD r.val 0 else v.get r := by
  change (Vector.ofFn _)[r.val] = _
  rw [Vector.getElem_ofFn]

namespace Machine

/-- Where the flags of the program in a file are kept. -/
def sidecar (path : String) : String :=
  path ++ ".flags"

/-- A saved register is found among the flags, and zero in place of one that was not saved. -/
theorem getD_flags (v : Registers) (x r : Register) :
    (flags v x).getD r.val 0 = if r ≤ x then v.get r else 0 := by
  have length : (v.upTo x).length = x.val + 1 := by
    simp only [Registers.upTo, List.length_take, Vector.length_toList]
    omega
  by_cases saved : r ≤ x
  · have inside : r.val < (v.upTo x).length := by
      rw [length]
      exact Nat.lt_succ_of_le saved
    rw [if_pos saved, flags, List.getD_append _ _ _ _ inside, List.getD_eq_getElem _ _ inside]
    simp only [Registers.upTo, List.getElem_take, Vector.getElem_toList]
    rfl
  · have outside : (v.upTo x).length ≤ r.val := by
      rw [length]
      exact Nat.lt_of_not_le saved
    rw [if_neg saved, flags, List.getD_append_right _ _ _ _ outside,
      List.getD_eq_getElem?_getD]
    exact List.getElem?_getD_replicate_default_eq ..

/-! ## Saving and loading -/

section
variable {m : Machine} {x y : Register} {p : String}

theorem files_step_of_saveFlags (saves : m.executed? = some (.saveFlags x)) :
    m.step.files =
      match m.romPath with
      | none => m.files
      | some q => (m.files.write (sidecar q) (flags m.v x)).toOption.getD m.files := by
  rw [step_of_executed? saves, fetched_eq]
  simp only [execute, saveFlags, flagsPath, sidecar]
  cases m.romPath with
  | none => rfl
  | some q =>
    dsimp only [Option.map]
    cases m.files.write (q ++ ".flags") (flags m.v x) <;> rfl

/-- What is saved is there to be read. -/
theorem read_step_of_saveFlags {fs : FileSystem} (saves : m.executed? = some (.saveFlags x))
    (named : m.romPath = some p) (written : m.files.write (sidecar p) (flags m.v x) = .ok fs) :
    m.step.files.read (sidecar p) = .ok (flags m.v x) := by
  have files := files_step_of_saveFlags saves
  rw [named] at files
  dsimp only at files
  rw [files, written]
  exact FileSystem.read_write written (sidecar p) rfl

theorem v_step_of_loadFlags (loads : m.executed? = some (.loadFlags y)) :
    m.step.v =
      match m.romPath with
      | none => Vector.replicate 16 0
      | some q =>
        match m.files.read (sidecar q) with
        | .ok bytes => m.v.overwrite y bytes
        | .error _ => Vector.replicate 16 0 := by
  rw [step_of_executed? loads, fetched_eq]
  simp only [execute, loadFlags, flagsPath, sidecar]
  cases m.romPath with
  | none => rfl
  | some q =>
    dsimp only [Option.map]
    cases m.files.read (q ++ ".flags") <;> rfl

theorem get_step_of_loadFlags {bytes : List UInt8} (loads : m.executed? = some (.loadFlags y))
    (named : m.romPath = some p) (found : m.files.read (sidecar p) = .ok bytes) (r : Register) :
    m.step.v.get r = if r ≤ y then bytes.getD r.val 0 else m.v.get r := by
  rw [v_step_of_loadFlags loads, named]
  dsimp only
  rw [found]
  exact m.v.get_overwrite y r bytes

theorem v_step_of_nothing_found (loads : m.executed? = some (.loadFlags y))
    (missing : ∀ q, m.romPath = some q → (m.files.read (sidecar q)).isOk = false) :
    m.step.v = Vector.replicate 16 0 := by
  rw [v_step_of_loadFlags loads]
  cases named : m.romPath with
  | none => rfl
  | some q =>
    have unread := missing q named
    dsimp only
    cases found : m.files.read (sidecar q) with
    | error e => rfl
    | ok bytes =>
      rw [found] at unread
      cases unread

end

/-! ## Who writes a flag file -/

/-- A move writes the flag file of the program at a path. Two paths that lead to the same place
stand for the same file. -/
inductive WritesFlags (p : String) (m : Machine) : Move → Prop
  | saves (x : Register) (q : String) (executed : m.executed? = some (.saveFlags x))
      (named : m.romPath = some q)
      (same : m.files.locate (sidecar q) = m.files.locate (sidecar p)) : WritesFlags p m .step
  | others (fs : FileSystem) (changed : fs.read (sidecar p) ≠ m.files.read (sidecar p)) :
      WritesFlags p m (.files fs)

/-- The files after a move: others may have changed them, or the program has saved its flags. -/
inductive FilesAfter (m : Machine) (mv : Move) : Prop
  | stay (same : (m.move mv).files = m.files)
  | others (fs : FileSystem) (changed : mv = .files fs)
  | saved (x : Register) (q : String) (step : mv = .step)
      (executed : m.executed? = some (.saveFlags x)) (named : m.romPath = some q)
      (written : m.files.write (sidecar q) (flags m.v x) = .ok m.step.files)

section
variable {m : Machine} {mv : Move} {p : String}

theorem filesAfter_step (m : Machine) : m.FilesAfter .step := by
  rcases m.step_same .files with same | ⟨i, executed, writer⟩
  · exact .stay same
  · cases i with
    | saveFlags x =>
      have files := files_step_of_saveFlags executed
      cases named : m.romPath with
      | none => exact .stay (by rw [move, files, named])
      | some q =>
        rw [named] at files
        dsimp only at files
        cases written : m.files.write (sidecar q) (flags m.v x) with
        | error e => exact .stay (by rw [move, files, written]; rfl)
        | ok fs =>
          refine .saved x q rfl executed named ?_
          rw [files, written]
          rfl
    | _ => cases writer

theorem filesAfter (m : Machine) (mv : Move) : m.FilesAfter mv := by
  cases mv with
  | step => exact m.filesAfter_step
  | stop | endFrame => exact .stay rfl
  | files fs => exact .others fs rfl
  | host o quiet =>
    refine .stay ?_
    cases anew : m.startsOver o with
    | true => exact (startedOver anew).files
    | false =>
      rw [move, apply_eq_hosting quiet anew]
      rfl

/-- What a flag file holds stays as long as it is not written. -/
theorem read_move (spared : ¬m.WritesFlags p mv) (bytes : List UInt8) :
    (m.move mv).files.read (sidecar p) = .ok bytes ↔ m.files.read (sidecar p) = .ok bytes := by
  cases m.filesAfter mv with
  | stay same => rw [same]
  | others fs changed =>
    subst changed
    have same : fs.read (sidecar p) = m.files.read (sidecar p) :=
      Classical.not_not.mp fun other => spared (.others fs other)
    rw [move, same]
  | saved x q step executed named written =>
    subst step
    refine FileSystem.read_write_of_ne written (sidecar p) (fun same => ?_) bytes
    exact spared (.saves x q executed named same.symm)

theorem read_run {ms : List Move} (spared : m.Avoids (WritesFlags p) ms) (bytes : List UInt8) :
    (m.run ms).files.read (sidecar p) = .ok bytes ↔ m.files.read (sidecar p) = .ok bytes :=
  (spared.along
    (P := fun s => s.files.read (sidecar p) = .ok bytes ↔ m.files.read (sidecar p) = .ok bytes)
    (fun _ _ spared same => (read_move spared bytes).trans same) Iff.rfl).last

end

/-! ## Which file is meant -/

/-- The file of the program after a move. -/
def romPathAfter (m : Machine) : Move → Option String
  | .host (.loadFile path) _ => if (m.loadFile path).isOk then some path else m.romPath
  | .host (.load s) _ => if (m.load s).isOk then none else m.romPath
  | .host .unload _ => none
  | _ => m.romPath

theorem romPath_move (m : Machine) (mv : Move) : (m.move mv).romPath = m.romPathAfter mv := by
  cases mv with
  | step => exact m.step_sameSettings.romPath
  | stop | endFrame | files => rfl
  | host o quiet =>
    cases anew : m.startsOver o with
    | false =>
      have stays : m.romPathAfter (.host o quiet) = m.romPath := by
        cases o with
        | load | loadFile => exact if_neg (ne_true_of_eq_false anew)
        | unload => cases anew
        | _ => rfl
      rw [move, apply_eq_hosting quiet anew, stays]
      rfl
    | true =>
      cases o with
      | load s =>
        obtain ⟨rom, loaded⟩ := load_of_isOk anew
        rw [move, loaded]
        exact (if_pos anew).symm
      | loadFile path =>
        obtain ⟨rom, loaded⟩ := loadFile_of_isOk anew
        rw [move, loaded]
        exact (if_pos anew).symm
      | reset =>
        obtain ⟨bus, -, -, placed⟩ := m.exists_bus m.rom
        rw [move, apply, reset, placed]
        rfl
      | unload => rfl
      | _ => cases anew

/-- **Flag files.** What a program saves is what it finds after anything that does not write its
flag file, and zero for what it did not save; a file that others wrote fills the registers as far as
it goes. Where there is nothing to be found, every register becomes zero. Which file is meant goes
by the last program that could be loaded, and nothing but saving flags writes it. -/
theorem flag_file :
    (∀ {m : Machine} {x y : Register} {p : String} {fs : FileSystem} {past : List Move},
      m.executed? = some (.saveFlags x) → m.romPath = some p →
      m.files.write (sidecar p) (flags m.v x) = .ok fs →
      m.step.Avoids (WritesFlags p) past →
      (m.step.run past).executed? = some (.loadFlags y) → (m.step.run past).romPath = some p →
      ∀ r, (m.step.run past).step.v.get r =
        if r ≤ y then if r ≤ x then m.v.get r else 0 else (m.step.run past).v.get r) ∧
    (∀ {m : Machine} {y : Register} {p : String} {bytes : List UInt8},
      m.executed? = some (.loadFlags y) → m.romPath = some p →
      m.files.read (sidecar p) = .ok bytes →
      ∀ r, m.step.v.get r = if r ≤ y then bytes.getD r.val 0 else m.v.get r) ∧
    (∀ {m : Machine} {y : Register}, m.executed? = some (.loadFlags y) →
      (∀ q, m.romPath = some q → (m.files.read (sidecar q)).isOk = false) →
      m.step.v = Vector.replicate 16 0) ∧
    (∀ {m : Machine} {x : Register}, m.executed? = some (.saveFlags x) → m.romPath = none →
      m.step.files = m.files) ∧
    ((∀ random, (fresh random).romPath = none) ∧
      ∀ (m : Machine) (mv : Move), (m.move mv).romPath = m.romPathAfter mv) ∧
    (∀ (m : Machine) (mv : Move), m.FilesAfter mv) ∧
    (∀ {m : Machine} {mv : Move} {p : String}, ¬m.WritesFlags p mv → ∀ bytes,
      (m.move mv).files.read (sidecar p) = .ok bytes ↔ m.files.read (sidecar p) = .ok bytes) := by
  refine ⟨?_, get_step_of_loadFlags, v_step_of_nothing_found, fun saves unnamed => ?_,
    ⟨fun _ => rfl, romPath_move⟩, filesAfter, read_move⟩
  · intro m x y p fs past saves named written spared loads back r
    have kept : (m.step.run past).files.read (sidecar p) = .ok (flags m.v x) :=
      (read_run spared _).mpr (read_step_of_saveFlags saves named written)
    rw [get_step_of_loadFlags loads back kept r, getD_flags]
  · have files := files_step_of_saveFlags saves
    rwa [unnamed] at files

/-- `F175 F285`. -/
def keeping : Rom :=
  ⟨#[0xF1, 0x75, 0xF2, 0x85], by decide⟩

theorem instruction?_keeping :
    (Memory.ofRom keeping).instruction? 0x200 = some (.saveFlags 1) ∧
    (Memory.ofRom keeping).instruction? 0x202 = some (.loadFlags 2) := by
  simp only [Memory.instruction?_ofRom]
  decide

theorem write_game :
    (FileSystem.empty.write (sidecar "game") (flags (Vector.replicate 16 7) 1)).isOk = true := by
  decide +kernel

section
variable {m : Machine}

/-- Where the program saves its flags and where it loads them. -/
theorem executed?_keeping (runs : Runs keeping m) :
    (m.pc = 0x200 → m.executed? = some (.saveFlags 1)) ∧
    (m.pc = 0x202 → m.executed? = some (.loadFlags 2)) :=
  ⟨fun pc => runs.executed? (pc ▸ instruction?_keeping.1),
    fun pc => runs.executed? (pc ▸ instruction?_keeping.2)⟩

/-- The timers do not bear on the program. -/
theorem tickTimers_keeping (runs : Runs keeping m) :
    let s := m.run [.host .tickTimers rfl]
    Runs keeping s ∧ s.pc = m.pc ∧ s.romPath = m.romPath ∧ s.files = m.files :=
  ⟨⟨runs.awaited, runs.ram⟩, rfl, rfl, rfl⟩

theorem unnamed_keeping (runs : Runs keeping m) : Runs keeping { m with romPath := none } :=
  ⟨runs.awaited, runs.ram⟩

theorem step_keeping (runs : Runs keeping m) (pc : m.pc = 0x200) :
    Runs keeping m.step ∧ m.step.pc = 0x202 := by
  have saves := (executed?_keeping runs).1 pc
  refine ⟨runs.step saves rfl rfl, ?_⟩
  rw [step_of_executed? saves]
  simp only [execute]
  rw [saveFlags_eq, fetched_eq, (executed?_eq_some.mp saves).2, pc]
  rfl

end

/-- The program with a file of its own and something to save. -/
def keeper : Machine :=
  { loaded keeping with romPath := some "game", v := Vector.replicate 16 7 }

theorem keeper_ready :
    Runs keeping keeper ∧ keeper.pc = 0x200 ∧ keeper.romPath = some "game" ∧
    ∃ fs, keeper.files.write (sidecar "game") (flags keeper.v 1) = .ok fs := by
  have start : (fresh default).JustLoaded keeping (loaded keeping) := justLoaded_load ..
  have files : (loaded keeping).files = .empty := by
    rw [loaded_eq]
    rfl
  unfold keeper
  generalize loaded keeping = m at *
  refine ⟨⟨start.runs.awaited, start.runs.ram⟩, start.pc, rfl, ?_⟩
  have writes := write_game
  rw [← files] at writes
  cases written : m.files.write (sidecar "game") (flags (Vector.replicate 16 7) 1) with
  | ok fs => exact ⟨fs, rfl⟩
  | error e =>
    have fails := congrArg Except.isOk written
    cases writes.symm.trans fails

theorem flag_file_game :
    let m := keeper
    let past : List Move := [.host .tickTimers rfl]
    let s := m.step.run past
    (∃ fs, m.executed? = some (.saveFlags 1) ∧ m.romPath = some "game" ∧
      m.files.write (sidecar "game") (flags m.v 1) = .ok fs ∧
      m.step.Avoids (WritesFlags "game") past ∧
      s.executed? = some (.loadFlags 2) ∧ s.romPath = some "game" ∧
      (∀ r, s.step.v.get r =
        if r ≤ 2 then if r ≤ 1 then m.v.get r else 0 else s.v.get r) ∧
      s.files.read (sidecar "game") = .ok (flags m.v 1) ∧
      ∀ r, s.step.v.get r = if r ≤ 2 then (flags m.v 1).getD r.val 0 else s.v.get r) ∧
    ({ s with romPath := none }.executed? = some (.loadFlags 2) ∧
      { s with romPath := none }.step.v = Vector.replicate 16 0) ∧
    ({ m with romPath := none }.executed? = some (.saveFlags 1) ∧
      { m with romPath := none }.step.files = m.files) ∧
    ¬s.WritesFlags "game" .endFrame ∧
    ∀ bytes, (s.move .endFrame).files.read (sidecar "game") = .ok bytes ↔
      s.files.read (sidecar "game") = .ok bytes := by
  intro m past s
  obtain ⟨runs, pc, named, fs, written⟩ :
      Runs keeping m ∧ m.pc = 0x200 ∧ m.romPath = some "game" ∧
        ∃ fs, m.files.write (sidecar "game") (flags m.v 1) = .ok fs := keeper_ready
  clear_value m
  obtain ⟨runs', pc'⟩ := step_keeping runs pc
  obtain ⟨later, pc'', romPath, files⟩ := tickTimers_keeping runs'
  have saves := (executed?_keeping runs).1 pc
  have loads : s.executed? = some (.loadFlags 2) := (executed?_keeping later).2 (pc''.trans pc')
  have back : s.romPath = some "game" :=
    romPath.trans (m.step_sameSettings.romPath.trans named)
  have spared : m.step.Avoids (WritesFlags "game") past := ⟨nofun, trivial⟩
  have found : s.files.read (sidecar "game") = .ok (flags m.v 1) := by
    rw [files]
    exact read_step_of_saveFlags saves named written
  have loads' := (executed?_keeping (unnamed_keeping later)).2 (pc''.trans pc')
  have saves' := (executed?_keeping (unnamed_keeping runs)).1 pc
  refine ⟨⟨fs, saves, named, written, spared, loads, back, ?_, found, ?_⟩, ⟨loads', ?_⟩,
    ⟨saves', ?_⟩, nofun, ?_⟩
  · exact flag_file.1 saves named written spared loads back
  · exact flag_file.2.1 loads back found
  · exact flag_file.2.2.1 loads' nofun
  · exact flag_file.2.2.2.1 saves' rfl
  · exact flag_file.2.2.2.2.2.2 nofun

end Machine

end XoChip
