import XoChip.Proofs.Report
import XoChip.Proofs.StopReport
import XoChip.Proofs.WellFormed

/-!
Runs from the command line, accounted for: how many frames are played and how many instructions, why
it were not more, and what is printed about it. Main statement: `run_accounted`.
-/

namespace XoChip

namespace Machine

/-- The turns of so many frames: a frame, then a tick of the timers. -/
def rounds : Nat → List Turn
  | 0 => []
  | k + 1 => .operation .frame :: .operation .tickTimers :: rounds k

theorem rounds_succ (k : Nat) :
    rounds (k + 1) = rounds k ++ [.operation .frame, .operation .tickTimers] := by
  induction k with
  | zero => rfl
  | succ k ih =>
    exact congrArg (fun ts => .operation .frame :: .operation .tickTimers :: ts) ih

/-! ## The loop -/

/-- Frames are played until there are enough of them or the program no longer runs. -/
theorem play_eq (m : Machine) (played n : Nat) :
    ∃ k ≤ n, m.play played n = (played + k, m.after (rounds k)) ∧
      (k < n → (m.after (rounds k)).running = false) := by
  induction n generalizing m played with
  | zero => exact ⟨0, Nat.le_refl 0, rfl, nofun⟩
  | succ n ih =>
    by_cases running : m.running = true
    · obtain ⟨k, few, result, stops⟩ := ih m.frame.tickTimers (played + 1)
      refine ⟨k + 1, Nat.succ_le_succ few, ?_, fun fewer => stops (Nat.lt_of_succ_lt_succ fewer)⟩
      rw [play, if_pos running, result, Nat.add_right_comm, Nat.add_assoc]
      rfl
    · refine ⟨0, Nat.zero_le _, ?_, fun _ => eq_false_of_ne_true running⟩
      rw [play, if_neg running]
      rfl

/-- A run that ends before its last frame would not be longer if more frames were allowed. -/
theorem play_of_early {m : Machine} {played n n' : Nat} (more : n ≤ n')
    (early : (m.play played n).1 < played + n) : m.play played n' = m.play played n := by
  induction n generalizing m played n' with
  | zero => exact absurd early (Nat.lt_irrefl played)
  | succ n ih =>
    obtain ⟨n', rfl⟩ := Nat.exists_eq_add_of_lt more
    by_cases running : m.running = true
    · rw [play, if_pos running] at early
      rw [play, play, if_pos running, if_pos running]
      exact ih (by omega) (by omega)
    · rw [play, play, if_neg running, if_neg running]

/-! ## Frame after frame -/

section
variable {m p : Machine} {k : Nat}

/-- A batch carries out as many instructions as it may, or ends halted or waiting. -/
theorem cycles_batch (awake : m.awake = true) (n : Nat) :
    (m.batch n).cycles ≤ m.cycles + n ∧
      ((m.batch n).awake = true → (m.batch n).cycles = m.cycles + n) := by
  induction n generalizing m with
  | zero => exact ⟨Nat.le_refl _, fun _ => rfl⟩
  | succ n ih =>
    have awaited : m.waiting = false := by
      simp only [Processor.awake, Bool.and_eq_true, Bool.not_eq_true'] at awake
      exact awake.2
    have counted : m.step.cycles = m.cycles + 1 := by simp [cycles_step, awaited]
    rw [batch]
    split
    · rename_i asleep
      exact ⟨by omega, fun awake' => by simp [awake'] at asleep⟩
    · rename_i awake'
      have later := ih (m := m.step) (by simpa using awake')
      rw [counted, Nat.add_right_comm, Nat.add_assoc] at later
      split
      · exact later
      · cases found : m.step.breakpoint? with
        | none => simpa [findBreakpoint, found] using later
        | some b =>
          simp only [findBreakpoint, found]
          have most : m.step.cycles ≤ m.cycles + (n + 1) := by omega
          exact ⟨most, fun awake' => by cases awake'⟩

theorem cycles_tick (m : Machine) (n : Nat) :
    (m.tick n).cycles ≤ m.cycles + n ∧
      ((m.tick n).awake = true → m.awake = true ∧ (m.tick n).cycles = m.cycles + n) := by
  unfold tick
  split
  · rename_i awake
    obtain ⟨most, all⟩ := cycles_batch awake n
    have same : (m.batch n).toProcessor.endFrame.cycles = (m.batch n).cycles ∧
        (m.batch n).toProcessor.endFrame.awake = (m.batch n).awake := by
      unfold Processor.endFrame
      split <;> exact ⟨rfl, rfl⟩
    exact ⟨same.1 ▸ most, fun awake' => ⟨awake, same.1.trans (all (same.2 ▸ awake'))⟩⟩
  · rename_i asleep
    exact ⟨Nat.le_add_right .., fun awake => absurd awake asleep⟩

theorem frameLength_tick (m : Machine) (n : Nat) : (m.tick n).frameLength = m.frameLength := by
  have keeps (s : Machine) (mv : Move) (own : mv.own = true)
      (same : s.frameLength = m.frameLength) : (s.move mv).frameLength = m.frameLength := by
    cases mv with
    | step => exact s.step_sameSettings.frameLength.trans same
    | stop | endFrame => exact same
    | host | files => cases own
  rw [← run_tickMoves]
  exact (along_of_own (P := fun s => s.frameLength = m.frameLength) keeps
    (fun mv => own_tickMoves) rfl).last

/-- A machine some frames after another. -/
structure Played (p : Machine) (k : Nat) (m : Machine) : Prop where
  rom : m.rom = p.rom
  breakpoints : m.breakpoints = p.breakpoints
  frameLength : m.frameLength = p.frameLength
  most : m.cycles ≤ p.cycles + k * p.frameLength
  all : m.awake = true → m.cycles = p.cycles + k * p.frameLength
  /-- No breakpoint has stopped it, or the one that did has just stopped it. -/
  stops : (∀ b, .stop b ∉ p.history (rounds k)) ∧ m.stoppedAt = none ∨
    ∃ b, .stop b ∈ p.history (rounds k) ∧ m.JustStopped b

theorem played_zero (silent : p.stoppedAt = none) : p.Played 0 p where
  rom := rfl
  breakpoints := rfl
  frameLength := rfl
  most := by simp
  all := by simp
  stops := .inl ⟨fun _ => List.not_mem_nil, silent⟩

theorem JustStopped.tickTimers {b : Breakpoint} (h : m.JustStopped b) :
    m.tickTimers.JustStopped b :=
  ⟨h.stoppedAt, h.first, h.enabled, h.here, h.halted, h.awaited, h.idle⟩

theorem Played.round (h : p.Played k m) (split : m = p.after (rounds k)) :
    p.Played (k + 1) m.frame.tickTimers := by
  obtain ⟨most, all⟩ := m.cycles_tick m.frameLength
  rw [h.frameLength] at most all
  have more : p.cycles + (k + 1) * p.frameLength =
      p.cycles + k * p.frameLength + p.frameLength := by
    rw [Nat.succ_mul, Nat.add_assoc]
  have turns : p.history (rounds (k + 1)) =
      p.history (rounds k) ++ (m.tickMoves m.frameLength ++ [.host .tickTimers rfl]) := by
    rw [rounds_succ, history_append, ← split]
    rfl
  refine
    { rom := (m.rom_of_runs (o := .frame) rfl).trans h.rom
      breakpoints := (m.settings_apply (o := .frame) rfl).2.trans h.breakpoints
      frameLength := (m.frameLength_tick _).trans h.frameLength
      most := ?_
      all := fun awake => ?_
      stops := ?_ }
  · have before := h.most
    change (m.tick m.frameLength).cycles ≤ _
    rw [h.frameLength]
    omega
  · change (m.tick m.frameLength).cycles = _
    rw [h.frameLength]
    obtain ⟨awake', full⟩ := all (h.frameLength ▸ awake)
    have before := h.all awake'
    omega
  · rw [turns]
    rcases h.stops with ⟨unstopped, silent⟩ | ⟨b, stops, stopped⟩
    · rcases m.stoppedAt_tick m.frameLength with ⟨unstopped', same⟩ | ⟨b, stops, stopped⟩
      · exact .inl ⟨by simpa using fun b => ⟨unstopped b, unstopped' b⟩, same.trans silent⟩
      · refine .inr ⟨b, ?_, stopped.tickTimers⟩
        exact List.mem_append_right _ (List.mem_append_left _ stops)
    · have still : m.frame = m := tick_of_halted stopped.halted _
      rw [still]
      exact .inr ⟨b, List.mem_append_left _ stops, stopped.tickTimers⟩

theorem played (silent : p.stoppedAt = none) (k : Nat) : p.Played k (p.after (rounds k)) := by
  induction k with
  | zero => exact played_zero silent
  | succ k ih =>
    rw [rounds_succ, after_append]
    exact ih.round rfl

end

end Machine

namespace CommandLine

/-- Breakpoints in the order of their addresses on the command line. -/
def numbered (addresses : List Word) : List Breakpoint :=
  addresses.zipIdx.map fun (a, n) => ⟨s!"break{n}", a, true⟩

/-- The breakpoint that is found has the first of the addresses that is that of the place. -/
theorem first_of_breakpoint? {m : Machine} {addresses : List Word} {b : Breakpoint}
    (listed : m.breakpoints = numbered addresses) (found : m.breakpoint? = some b) :
    ∃ k : Nat, b = ⟨s!"break{k}", m.pc, true⟩ ∧ addresses[k]? = some m.pc ∧
      ∀ j < k, addresses[j]? ≠ some m.pc := by
  rw [Processor.breakpoint?, listed, List.find?_eq_some_iff_getElem] at found
  obtain ⟨here, k, small, rfl, first⟩ := found
  have few : k < addresses.length := by simpa [numbered] using small
  simp only [numbered, List.getElem_map, List.getElem_zipIdx, Nat.zero_add, Bool.true_and,
    beq_iff_eq] at here first ⊢
  refine ⟨k, by rw [here], List.getElem?_eq_some_iff.mpr ⟨few, here⟩, fun j less there => ?_⟩
  obtain ⟨_, same⟩ := List.getElem?_eq_some_iff.mp there
  simpa [same] using first j less

/-- The machine of a run before its program is loaded. -/
def unloaded (o : Options) (files : FileSystem) (random : Random) : Machine :=
  { { Machine.fresh random with files := files }.setProfile o.profile with frameLength := o.cycles }

/-- What is left to be done once the program is loaded. -/
def furnish (o : Options) (m : Machine) : Machine :=
  { m.apply (.switchAll o.variations true) with
    breakpoints := m.breakpoints ++ numbered o.breakpoints }

theorem prepare_eq (o : Options) (files : FileSystem) (random : Random) :
    prepare o files random = ((unloaded o files random).loadFile o.rom).map (furnish o) := by
  have added (m : Machine) (ns : List (Word × Nat)) :
      ns.foldl (fun m (address, n) => m.apply (.addBreakpoint s!"break{n}" address)) m =
        { m with
          breakpoints := m.breakpoints ++ ns.map fun (a, n) => ⟨s!"break{n}", a, true⟩ } := by
    induction ns generalizing m with
    | nil => simp
    | cons n ns ih =>
      rw [List.foldl_cons, ih]
      simp [Machine.apply, Processor.addBreakpoint]
  change (unloaded o files random).loadFile o.rom >>= _ = _
  cases (unloaded o files random).loadFile o.rom with
  | error e => rfl
  | ok m => exact congrArg Except.ok (added _ _)

/-- A run that is ready to be played. -/
structure Ready (o : Options) (rom : Rom) (p : Machine) : Prop where
  program : p.rom = rom
  frameLength : p.frameLength = o.cycles
  cycles : p.cycles = 0
  stoppedAt : p.stoppedAt = none
  breakpoints : p.breakpoints = numbered o.breakpoints
  runs : Machine.Runs rom p
  pc : p.pc = 0x200
  halted : p.halted = false
  frameWait : p.frameWait = .idle

theorem prepare_of_loads {o : Options} {files : FileSystem} {bytes : List UInt8} {rom : Rom}
    (found : files.read o.rom = .ok bytes) (fits : Rom.ofSource? ⟨bytes, none⟩ = .ok rom)
    (random : Random) : ∃ p, prepare o files random = .ok p ∧ Ready o rom p := by
  have there : (unloaded o files random).files.read o.rom = .ok bytes := found
  have loads : (unloaded o files random).loadFile o.rom =
      .ok ({ (unloaded o files random).start rom with romPath := some o.rom }.notify
        (.running o.rom)) := by
    rw [Machine.loadFile, there]
    dsimp only
    rw [fits]
    rfl
  have loaded := (unloaded o files random).start_justLoaded rom
  have own := loaded.processor
  have bare : ((unloaded o files random).start rom).breakpoints = [] :=
    congrArg Processor.breakpoints own
  refine ⟨_, by rw [prepare_eq, loads]; rfl, ?_⟩
  exact
    { program := loaded.rom_eq
      frameLength := loaded.frameLength
      cycles := congrArg Processor.cycles own
      stoppedAt := loaded.stoppedAt
      breakpoints := congrArg (· ++ numbered o.breakpoints) bare
      runs := ⟨congrArg Processor.waiting own,
        Vector.toList_inj.mp (loaded.ram.trans (Memory.ram_ofRom rom).symm)⟩
      pc := congrArg Processor.pc own
      halted := congrArg Processor.halted own
      frameWait := congrArg Processor.frameWait own }

/-! ## The account -/

/-- What a run comes to. -/
structure Accounts (o : Options) (rom : Rom) (p : Machine) (s : Session) : Prop where
  machine : s.machine = p.after (Machine.rounds s.frames)
  frames : s.frames ≤ o.frames
  instructions : s.machine.cycles ≤ s.frames * o.cycles
  /-- Only the end of the program ends a run early. -/
  early : s.frames < o.frames → s.machine.halted = true ∨ rom.size = 0
  /-- Only a halt or the wait for a key cuts a frame short. -/
  short : s.machine.cycles < s.frames * o.cycles →
    s.machine.halted = true ∨ s.machine.waiting = true
  counts : beginning "ran " (s.report o) = [(countLine s.frames s.machine.cycles).toList]
  /-- A breakpoint that stops the run is reported, by the first of the addresses that is its own. -/
  stopped : ∀ b, .stop b ∈ p.history (Machine.rounds s.frames) →
    ∃ k : Nat, o.breakpoints[k]? = some s.machine.pc ∧
      (∀ j < k, o.breakpoints[j]? ≠ some s.machine.pc) ∧
      beginning "stopped at " (s.report o) = [(stopLine s!"break{k}" s.machine.pc).toList]
  unstopped : (∀ b, .stop b ∉ p.history (Machine.rounds s.frames)) →
    beginning "stopped at " (s.report o) = []
  waits : beginning waitLine (s.report o) = if s.machine.waiting then [waitLine.toList] else []
  apart : beginning "stopped at " (s.report o) = [] ∨ beginning waitLine (s.report o) = []

/-- The report of a run names a breakpoint by its number. -/
theorem labelled_of_ready {o : Options} {rom : Rom} {p : Machine} (ready : Ready o rom p)
    (k : Nat) : Session.Labelled ⟨k, p.after (Machine.rounds k)⟩ := by
  intro b reported
  have played := Machine.played ready.stoppedAt k
  rcases played.stops with ⟨-, silent⟩ | ⟨b', -, stopped⟩
  · cases silent.symm.trans reported
  · cases stopped.stoppedAt.symm.trans reported
    obtain ⟨n, rfl, -⟩ :=
      first_of_breakpoint? (played.breakpoints.trans ready.breakpoints) stopped.first
    simp [toString]

theorem accounts_of_ready {o : Options} {rom : Rom} {p : Machine} (ready : Ready o rom p) {k : Nat}
    (few : k ≤ o.frames)
    (early : k < o.frames → (p.after (Machine.rounds k)).running = false) :
    Accounts o rom p ⟨k, p.after (Machine.rounds k)⟩ := by
  have played := Machine.played ready.stoppedAt k
  obtain ⟨stopLines, waitLines, countLines⟩ :=
    Session.beginning_report (labelled_of_ready ready k) o
  have most := played.most
  have all := played.all
  rw [ready.cycles, ready.frameLength, Nat.zero_add] at most all
  refine
    { machine := rfl
      frames := few
      instructions := most
      early := fun fewer => ?_
      short := fun fewer => ?_
      counts := countLines
      stopped := fun b stops => ?_
      unstopped := fun unstopped => ?_
      waits := waitLines
      apart := ?_ }
  · have idle := early fewer
    rw [Machine.running, played.rom, ready.program] at idle
    by_cases empty : rom.size = 0
    · exact .inr empty
    · exact .inl (by simpa [empty] using idle)
  · by_cases awake : (p.after (Machine.rounds k)).awake = true
    · exact absurd (all awake) (Nat.ne_of_lt fewer)
    · simp only [Processor.awake] at awake
      grind
  · rcases played.stops with ⟨unstopped, -⟩ | ⟨b', -, stopped⟩
    · exact absurd stops (unstopped b)
    · obtain ⟨n, rfl, there, first⟩ :=
        first_of_breakpoint? (played.breakpoints.trans ready.breakpoints) stopped.first
      refine ⟨n, there, first, ?_⟩
      rw [stopLines, stopped.stoppedAt]
      rfl
  · rcases played.stops with ⟨-, silent⟩ | ⟨b, stops, -⟩
    · rw [stopLines, silent]
      rfl
    · exact absurd stops (unstopped b)
  · rcases played.stops with ⟨-, silent⟩ | ⟨b, -, stopped⟩
    · left
      rw [stopLines, silent]
      rfl
    · right
      rw [waitLines, stopped.awaited]
      rfl

/-- **A run from the command line, accounted for.** Whatever program is found and fits, the run
ends, and what is printed is what it came to. It plays no more frames than it may and no more
instructions in a frame, fewer frames only if the program ended or there is none, and fewer
instructions only if it ended or waits for a key. One line names the breakpoint that stopped the
run, if one did, and it is never printed beside that of a program that waits. A run that ended early
ends the same way if more frames are allowed. -/
theorem run_accounted {o : Options} {files : FileSystem} {bytes : List UInt8} {rom : Rom}
    (found : files.read o.rom = .ok bytes) (fits : Rom.ofSource? ⟨bytes, none⟩ = .ok rom)
    (random : Random) :
    ∃ p s, prepare o files random = .ok p ∧
      conclude o files random = .finished (s.report o) s.machine.files ∧
      Accounts o rom p s ∧
      (s.frames < o.frames → ∀ frames, o.frames ≤ frames →
        conclude { o with frames := frames } files random = conclude o files random) := by
  obtain ⟨p, prepared, ready⟩ := prepare_of_loads found fits random
  obtain ⟨k, few, result, early⟩ := p.play_eq 0 o.frames
  rw [Nat.zero_add] at result
  have concluded (frames : Nat) (h : p.play 0 frames = (k, p.after (Machine.rounds k))) :
      conclude { o with frames := frames } files random =
        .finished (Session.report ⟨k, p.after (Machine.rounds k)⟩ o)
          (p.after (Machine.rounds k)).files := by
    have prepared' : prepare { o with frames := frames } files random = .ok p := prepared
    simp only [conclude, play, prepared', h, bind, Except.bind, pure, Except.pure]
    rfl
  refine ⟨p, ⟨k, p.after (Machine.rounds k)⟩, prepared, concluded _ result,
    accounts_of_ready ready few early, fun fewer frames more => ?_⟩
  have same : p.play 0 frames = p.play 0 o.frames := by
    refine Machine.play_of_early more ?_
    rw [result, Nat.zero_add]
    exact fewer
  rw [concluded frames (same.trans result)]
  exact (concluded _ result).symm

/-- The files of a run: one program and nothing else. -/
def shelf : FileSystem :=
  FileSystem.empty.plant "game" (.file Machine.loading.bytes.toList)

theorem read_shelf : shelf.read "game" = .ok Machine.loading.bytes.toList := by
  decide +kernel

/-- The first frame of the program stops behind its one instruction. -/
theorem stops_loading {o : Options} {p : Machine} (ready : Ready o Machine.loading p)
    (cycles : o.cycles = 100) (known : 0x202 ∈ o.breakpoints) :
    ∃ b, .stop b ∈ p.turnMoves (.operation .frame) := by
  have executed : p.executed? = some (.load 0 5) := by
    refine ready.runs.executed? ?_
    rw [ready.pc, Memory.instruction?_ofRom]
    decide
  have next := (Machine.executed?_eq_some.mp executed).2
  have awake : p.awake = true := by
    simp [Processor.awake, ready.halted, ready.runs.awaited]
  have awake' := Machine.awake_step awake (by simp [next]) (by simp [next])
  have pc : p.step.pc = 0x202 := by
    rw [Machine.step_of_executed? executed, Machine.fetched_eq, next, ready.pc]
    rfl
  have moved : p.step.heldAt p.pc = false := by
    simp [Machine.heldAt, pc, ready.pc]
  obtain ⟨b, found⟩ : ∃ b, p.step.breakpoint? = some b := by
    apply Option.isSome_iff_exists.mp
    apply List.find?_isSome.mpr
    rw [p.step_sameSettings.breakpoints, ready.breakpoints, pc]
    obtain ⟨k, small, there⟩ := List.mem_iff_getElem.mp known
    refine ⟨⟨s!"break{k}", 0x202, true⟩, ?_, rfl⟩
    refine List.mem_map.mpr ⟨(0x202, k), ?_, rfl⟩
    exact List.mem_zipIdx_iff_getElem?.mpr (by simp [small, there])
  refine ⟨b, ?_⟩
  have length : p.frameLength = 99 + 1 := ready.frameLength.trans cycles
  change _ ∈ p.tickMoves p.frameLength
  rw [length]
  simp [Machine.tickMoves, Machine.batchMoves, awake, awake', moved, found]

/-- A run of a program of one instruction, with two breakpoints behind it. -/
theorem run_accounted_loading :
    let o : Options := { rom := "game", breakpoints := [0x202, 0x202] }
    let rom := Machine.loading
    shelf.read o.rom = .ok rom.bytes.toList ∧ Rom.ofSource? ⟨rom.bytes.toList, none⟩ = .ok rom ∧
    ∃ p s, prepare o shelf default = .ok p ∧
      conclude o shelf default = .finished (s.report o) s.machine.files ∧
      Accounts o rom p s ∧
      (s.frames < 60 → ∀ frames, 60 ≤ frames →
        conclude { o with frames := frames } shelf default = conclude o shelf default) ∧
      beginning "stopped at " (s.report o) = [(stopLine "break0" 0x202).toList] := by
  intro o rom
  have fits : Rom.ofSource? ⟨rom.bytes.toList, none⟩ = .ok rom := Rom.ofSource?_bytes rom
  obtain ⟨p, s, prepared, concluded, accounts, longer⟩ :=
    run_accounted (o := o) read_shelf fits default
  refine ⟨read_shelf, fits, p, s, prepared, concluded, accounts, longer, ?_⟩
  obtain ⟨p', prepared', ready⟩ := prepare_of_loads (o := o) read_shelf fits default
  cases prepared.symm.trans prepared'
  obtain ⟨b, stops⟩ := stops_loading ready rfl List.mem_cons_self
  obtain ⟨n, played⟩ : ∃ n, s.frames = n + 1 := by
    refine Nat.exists_eq_succ_of_ne_zero fun unplayed => ?_
    have same : s.machine = p := by
      rw [accounts.machine, unplayed]
      rfl
    rcases accounts.early (by rw [unplayed]; decide) with halted | empty
    · cases ready.halted.symm.trans (same ▸ halted)
    · cases empty
  have history : .stop b ∈ p.history (Machine.rounds s.frames) := by
    rw [played]
    exact List.mem_append_left _ stops
  obtain ⟨k, there, first, line⟩ := accounts.stopped b history
  have here : s.machine.pc = 0x202 := by
    simpa [o] using List.mem_of_getElem? there
  have foremost : k = 0 := by
    by_contra later
    exact first 0 (Nat.pos_of_ne_zero later) (by rw [here]; rfl)
  rw [line, here, foremost]
  rfl

end CommandLine

end XoChip
