import XoChip.Proofs.Checked.Memory
import XoChip.Proofs.HostMoves
import XoChip.Proofs.WellFormed

/-!
The log as a record of the run. What is written down in a step is written in one order, and the
lines of the trace are the instructions carried out since the host last started over, as many as
the machine has counted. Main statement: `trace_of_run`.
-/

namespace XoChip

/-- The instruction a line of the trace tells of: its address, its word and its form. -/
def Notice.traced? : Notice → Option (Word × Word × Form)
  | .executed address word form => some (address, word, form)
  | _ => none

/-- Whether a notice tells of the instruction a step finds, and not of what it does. -/
def Notice.tellsFound : Notice → Bool
  | .invalid _ _ | .executed _ _ _ => true
  | _ => false

theorem Notice.traced?_of_not_tellsFound {n : Notice} (own : n.tellsFound = false) :
    n.traced? = none := by
  cases n with
  | executed => cases own
  | _ => rfl

namespace Monitor

/-- Some notices were given one after another, and those detailed enough to be kept were logged. -/
structure Notified (m : Monitor) (ns : List Notice) (m' : Monitor) : Prop where
  detail : m'.detail = m.detail
  log : m'.log.toList = m.log.toList ++ ns.filter m.keeps

section
variable {m m' m'' : Monitor} {ns ns' : List Notice}

theorem Notified.refl (m : Monitor) : m.Notified [] m :=
  ⟨rfl, (List.append_nil _).symm⟩

theorem Notified.trans (h : m.Notified ns m') (h' : m'.Notified ns' m'') :
    m.Notified (ns ++ ns') m'' := by
  have same : m'.keeps = m.keeps := by
    funext n
    simp only [keeps, h.detail]
  exact ⟨h'.detail.trans h.detail, by rw [h'.log, h.log, same, List.filter_append,
    List.append_assoc]⟩

theorem notified_notify (m : Monitor) (n : Notice) : m.Notified [n] (m.notify n) := by
  have heard (m : Monitor) (e : Option Event) : m.Notified [] (m.hear e) := by
    unfold hear
    split
    · exact .refl m
    · split <;> exact ⟨rfl, (List.append_nil _).symm⟩
  have written : m.Notified [n] (m.write n) := by
    unfold write
    by_cases kept : m.keeps n = true
    · rw [if_pos kept]
      exact ⟨rfl, by simp [kept]⟩
    · rw [if_neg kept]
      exact ⟨rfl, by simp [kept]⟩
  exact written.trans (heard _ _)

/-- At the most detailed level everything is logged. -/
theorem Notified.log_of_trace (h : m.Notified ns m') (tracing : m.detail = some .trace) :
    m'.log.toList = m.log.toList ++ ns := by
  have all : ns.filter m.keeps = ns := by
    refine List.filter_eq_self.mpr fun n _ => ?_
    simp only [keeps, tracing]
    cases n <;> rfl
  rw [h.log, all]

end

end Monitor

/-- What is reported when bytes are written from an address on: each that falls below the start of
the program, in the order of the writes. -/
def rejections (a : Word) (bs : List UInt8) : List Notice :=
  bs.zipIdx.filterMap fun (b, k) =>
    if a + UInt16.ofNat k < Memory.start then some (.rejectedWrite (a + UInt16.ofNat k) b) else none

theorem rejections_cons (a : Word) (b : UInt8) (bs : List UInt8) :
    rejections a (b :: bs) =
      (if a < Memory.start then [.rejectedWrite a b] else []) ++ rejections (a + 1) bs := by
  have first : a + UInt16.ofNat 0 = a := UInt16.add_zero a
  simp only [rejections, List.zipIdx_cons, List.zipIdx_succ, List.filterMap_cons,
    List.filterMap_map, first, Function.comp_def, Checked.add_one_add_ofNat]
  split <;> simp_all

example : rejections 0x1FE [1, 2, 3] = [.rejectedWrite 0x1FE 1, .rejectedWrite 0x1FF 2] := by
  decide

theorem Bus.notified_writeBlock (bus : Bus) (a : Word) (bs : List UInt8) :
    bus.monitor.Notified (rejections a bs) (bus.writeBlock a bs).monitor := by
  induction bs generalizing bus a with
  | nil => exact .refl _
  | cons b bs ih =>
    have first : bus.monitor.Notified (if a < Memory.start then [.rejectedWrite a b] else [])
        (bus.write a b).monitor := by
      unfold Bus.write
      split
      · exact bus.monitor.notified_notify _
      · exact .refl _
    rw [rejections_cons]
    exact first.trans (ih ..)

namespace Machine

/-! ## A step -/

/-- What an instruction itself has to report. -/
def remarks (m : Machine) : Instruction → List Notice
  | .ret => if m.memory.stack = [] then [.stackUnderflow] else []
  | .exit => [.halted]
  | .storeRange x y => rejections m.i (m.v.gather (Registers.span x y))
  | .decimal x => rejections m.i (Registers.decimal (m.v.get x))
  | .store x => rejections m.i (m.v.upTo x)
  | .saveFlags x =>
    match m.flagsPath with
    | none => [.noFlagsToSave]
    | some path =>
      match m.files.write path (flags m.v x) with
      | .ok _ => []
      | .error e => [.flagsNotSaved path e.message]
  | .loadFlags _ =>
    match m.flagsPath with
    | none => [.noFlagsToLoad]
    | some path =>
      match m.files.read path with
      | .ok _ => []
      | .error e => [.flagsNotLoaded path e.message]
  | _ => []

/-- The line of the trace for the instruction execution stands at. -/
def line (m : Machine) : Word × Word × Form :=
  (m.pc, m.memory.word m.pc, Instruction.formOf m.next?)

/-- What a step reports unless a key is awaited: a word that stands for no instruction, the line of
the trace, and what the instruction has to report. -/
def stepNotices (m : Machine) : List Notice :=
  (if m.next? = none then [.invalid m.pc (m.memory.word m.pc)] else []) ++
    [.executed m.pc (m.memory.word m.pc) (Instruction.formOf m.next?)] ++
    m.next?.elim [] m.remarks

section
variable {m : Machine} {i : Instruction}

theorem notified_execute (m : Machine) (i : Instruction) :
    m.monitor.Notified (m.remarks i) (m.execute i).monitor := by
  cases i with
  | ret =>
    simp only [execute, returnFromCall, Bus.pop, remarks]
    cases m.memory.stack with
    | nil => exact m.monitor.notified_notify _
    | cons => exact .refl _
  | exit => exact m.monitor.notified_notify _
  | storeRange | decimal => exact m.toBus.notified_writeBlock ..
  | store =>
    simp only [execute, store]
    rw [advanceIndex_eq]
    exact m.toBus.notified_writeBlock ..
  | saveFlags x =>
    simp only [execute, saveFlags, remarks]
    cases m.flagsPath with
    | none => exact m.monitor.notified_notify _
    | some path =>
      dsimp only
      cases m.files.write path (flags m.v x) with
      | ok => exact .refl _
      | error => exact m.monitor.notified_notify _
  | loadFlags =>
    simp only [execute, loadFlags, remarks]
    cases m.flagsPath with
    | none => exact m.monitor.notified_notify _
    | some path =>
      dsimp only
      cases m.files.read path with
      | ok => exact .refl _
      | error => exact m.monitor.notified_notify _
  | sprite =>
    simp only [execute, sprite]
    split
    · exact .refl _
    · rw [drawSprite_eq]
      exact .refl _
  | fetch =>
    simp only [execute, fetch]
    rw [advanceIndex_eq]
    exact .refl _
  | addIndex =>
    simp only [execute]
    rw [addIndex_eq]
    exact .refl _
  | skipEqual | skipNotEqual | skipSame | skipDifferent | skipPressed | skipReleased =>
    simp only [execute]
    rw [skipIf_eq]
    exact .refl _
  | audio =>
    simp only [execute, fetchPattern]
    exact .refl _
  | _ => exact .refl _

/-- Reading the instruction has no bearing on what it reports. -/
theorem remarks_fetched (m : Machine) (i : Instruction) : m.fetched.remarks i = m.remarks i := by
  rw [fetched_eq]
  cases i <;> rfl

/-- An instruction reports neither itself nor that its word stands for none. -/
theorem tellsFound_of_remarks {n : Notice} (h : n ∈ m.remarks i) : n.tellsFound = false := by
  have rejected {a : Word} {bs : List UInt8} (h : n ∈ rejections a bs) : n.tellsFound = false := by
    obtain ⟨⟨b, k⟩, -, found⟩ := List.mem_filterMap.mp h
    dsimp only at found
    split at found
    · cases found
      rfl
    · cases found
  cases i with
  | storeRange | decimal | store => exact rejected h
  | ret | saveFlags | loadFlags =>
    simp only [remarks] at h
    grind [Notice.tellsFound]
  | exit =>
    cases List.mem_singleton.mp h
    rfl
  | _ => cases h

theorem notified_step (m : Machine) :
    m.monitor.Notified (if m.waiting then [] else m.stepNotices) m.step.monitor := by
  cases waiting : m.waiting with
  | true =>
    rw [step_of_waiting waiting]
    exact .refl _
  | false =>
    cases next : m.next? with
    | none =>
      have read : m.fetched.monitor = (m.monitor.notify (.invalid m.pc (m.memory.word m.pc))).notify
          (.executed m.pc (m.memory.word m.pc) .invalid) := by
        simp only [fetched, next]
        rfl
      rw [step_of_none waiting next]
      change m.monitor.Notified m.stepNotices m.fetched.monitor
      rw [read, stepNotices, next]
      exact (Monitor.notified_notify ..).trans (Monitor.notified_notify ..)
    | some i =>
      have read : m.fetched.monitor =
          m.monitor.notify (.executed m.pc (m.memory.word m.pc) i.form) := by
        simp only [fetched, next]
        rfl
      have own := m.fetched.notified_execute i
      rw [remarks_fetched, read] at own
      rw [step_of_some waiting next, stepNotices, next]
      exact (Monitor.notified_notify ..).trans own

theorem traced_stepNotices (m : Machine) : m.stepNotices.filterMap Notice.traced? = [m.line] := by
  have own : (m.next?.elim [] m.remarks).filterMap Notice.traced? = [] := by
    refine List.filterMap_eq_nil_iff.mpr fun n h => ?_
    cases next : m.next? with
    | none =>
      rw [next] at h
      cases h
    | some i =>
      rw [next] at h
      exact Notice.traced?_of_not_tellsFound (tellsFound_of_remarks h)
  rw [stepNotices, List.filterMap_append, List.filterMap_append, own, List.append_nil]
  split <;> rfl

end

/-! ## Moves and runs -/

/-- What an operation of the host reports that carries out no instruction. -/
def hostNotices (m : Machine) : Operation → List Notice
  | .load s => (Rom.ofSource? s).toOption.elim [] fun rom => [.loaded rom.size]
  | .loadFile path =>
    ((m.files.read path).toOption.bind fun bytes => (Rom.ofSource? ⟨bytes, none⟩).toOption).elim []
      fun rom => [.loaded rom.size, .running path]
  | .reset => [.loaded m.rom.size]
  | .setHalted on => [if on then .halted else .resumed]
  | .setProfile p => [.adopted p]
  | .findBreakpoint => m.breakpoint?.elim [] fun b => [.reached b.label m.pc]
  | _ => []

/-- What a move reports. -/
def notices (m : Machine) : Move → List Notice
  | .step => if m.waiting then [] else m.stepNotices
  | .stop b => [.reached b.label m.pc, .halted]
  | .host o _ => m.hostNotices o
  | .endFrame | .files _ => []

/-- What some moves report. -/
def record (m : Machine) : List Move → List Notice
  | [] => []
  | mv :: ms => m.notices mv ++ (m.move mv).record ms

/-- The instructions carried out in some moves, each as its line of the trace. -/
def executions (m : Machine) : List Move → List (Word × Word × Form)
  | [] => []
  | .step :: ms => (if m.waiting then [] else [m.line]) ++ m.step.executions ms
  | mv :: ms => (m.move mv).executions ms

section
variable {m : Machine}

theorem notified_start (m : Machine) (rom : Rom) :
    m.monitor.Notified [.loaded rom.size] (m.start rom).monitor :=
  m.monitor.notified_notify _

theorem notified_apply {o : Operation} (quiet : o.runs = false) :
    m.monitor.Notified (m.hostNotices o) (m.apply o).monitor := by
  cases o with
  | step | tick | frame => cases quiet
  | load s =>
    simp only [apply, load, hostNotices]
    cases Rom.ofSource? s with
    | error e => exact .refl _
    | ok rom => exact m.notified_start rom
  | loadFile path =>
    simp only [apply, loadFile, hostNotices]
    cases m.files.read path with
    | error e => exact .refl _
    | ok bytes =>
      dsimp only [Except.toOption, Option.bind]
      cases Rom.ofSource? ⟨bytes, none⟩ with
      | error e => exact .refl _
      | ok rom => exact (m.notified_start rom).trans (Monitor.notified_notify ..)
  | reset | setHalted | setProfile => exact m.monitor.notified_notify _
  | unload =>
    obtain ⟨bus, -, monitor, taken⟩ := m.exists_bus_unload
    rw [apply, taken]
    change m.monitor.Notified [] bus.monitor
    rw [monitor]
    exact .refl _
  | pressKey key =>
    rw [apply, pressKey_eq]
    exact .refl _
  | findBreakpoint =>
    simp only [apply, findBreakpoint, hostNotices]
    cases m.breakpoint? with
    | none => exact .refl _
    | some b => exact m.monitor.notified_notify _
  | _ => exact ⟨rfl, (List.append_nil _).symm⟩

theorem notified_move (m : Machine) (mv : Move) :
    m.monitor.Notified (m.notices mv) (m.move mv).monitor := by
  cases mv with
  | step => exact m.notified_step
  | stop b => exact (m.monitor.notified_notify _).trans (Monitor.notified_notify ..)
  | host o quiet => exact notified_apply quiet
  | endFrame | files => exact .refl _

theorem notified_run (m : Machine) (ms : List Move) :
    m.monitor.Notified (m.record ms) (m.run ms).monitor := by
  induction ms generalizing m with
  | nil => exact .refl _
  | cons mv ms ih => exact (m.notified_move mv).trans (ih _)

/-- No move but a step writes a line of the trace. -/
theorem traced_hostNotices (o : Operation) :
    (m.hostNotices o).filterMap Notice.traced? = [] := by
  cases o with
  | load s =>
    simp only [hostNotices]
    cases (Rom.ofSource? s).toOption <;> rfl
  | loadFile path =>
    simp only [hostNotices]
    cases (m.files.read path).toOption.bind _ <;> rfl
  | setHalted on => cases on <;> rfl
  | findBreakpoint =>
    simp only [hostNotices]
    cases m.breakpoint? <;> rfl
  | _ => rfl

theorem traced_record (m : Machine) (ms : List Move) :
    (m.record ms).filterMap Notice.traced? = m.executions ms := by
  induction ms generalizing m with
  | nil => rfl
  | cons mv ms ih =>
    rw [record, List.filterMap_append, ih]
    cases mv with
    | step =>
      rw [executions, notices]
      split
      · rfl
      · rw [traced_stepNotices]
        rfl
    | host o quiet =>
      rw [notices, traced_hostNotices]
      rfl
    | stop | endFrame | files => rfl

/-- Unless the host starts over, the machine counts its steps and nothing else. -/
theorem cycles_run {ms : List Move} (goesOn : m.Avoids Renews ms) :
    (m.run ms).cycles = m.cycles + (m.executions ms).length := by
  induction ms generalizing m with
  | nil => rfl
  | cons mv ms ih =>
    have later := ih goesOn.2
    change (m.run (mv :: ms)).cycles = _ at later
    rw [later]
    cases mv with
    | step =>
      rw [move, cycles_step, executions, List.length_append]
      split
      · simp
      · simp only [List.length_singleton]
        omega
    | host o quiet =>
      have same : (m.apply o).cycles = m.cycles := by
        rw [apply_eq_hosting quiet (eq_false_of_ne_true goesOn.1)]
        rfl
      rw [move, same]
      rfl
    | endFrame =>
      have same : (m.move .endFrame).cycles = m.cycles := by
        simp only [move, Processor.endFrame]
        split <;> rfl
      rw [same]
      rfl
    | stop | files => rfl

/-- The count starts at nothing whenever the host starts over. -/
theorem cycles_of_endsWith {past : List Move} (start : m.cycles = 0)
    (ends : m.EndsWith Renews past) : (m.run past).cycles = 0 := by
  rcases ends with rfl | ⟨before, mv, rfl, renews⟩
  · exact start
  · rw [run_append]
    cases mv with
    | host o quiet => exact congrArg Processor.cycles (startedOver renews).processor
    | step | stop | endFrame | files => cases renews

end

/-- A machine just switched on whose log keeps the trace. -/
def tracing (random : Random) : Machine :=
  { fresh random with monitor := { Monitor.silent with detail := some .trace } }

/-- **The trace is the run.** While the trace is kept, a step writes down a word that stands for no
instruction, one line for what is carried out, and then what the instruction has to report; while a
key is awaited it writes nothing. Entering the listing, looking ahead for a skip and renumbering
write nothing. After any history the log since the host last started over tells exactly of the
instructions carried out since, as many as the machine has counted, held sprites among them. -/
theorem trace_of_run :
    (∀ m : Machine, m.monitor.detail = some .trace →
      m.step.monitor.log.toList =
        m.monitor.log.toList ++ if m.waiting then [] else m.stepNotices) ∧
    (∀ (m : Machine) (i : Instruction), ∀ n ∈ m.remarks i, n.tellsFound = false) ∧
    (∀ (m : Machine) (condition : Bool), m.enter.monitor = m.monitor ∧
      (m.skipIf condition).monitor = m.monitor ∧ (m.apply .renumber).monitor = m.monitor) ∧
    ∀ (random : Random) (h : List Turn), ∃ past later ns,
      (tracing random).history h = past ++ later ∧
      (tracing random).EndsWith Renews past ∧ ((tracing random).run past).Avoids Renews later ∧
      ((tracing random).after h).monitor.log.toList =
        ((tracing random).run past).monitor.log.toList ++ ns ∧
      ns.filterMap Notice.traced? = ((tracing random).run past).executions later ∧
      (ns.filterMap Notice.traced?).length = ((tracing random).after h).cycles := by
  refine ⟨fun m => m.notified_step.log_of_trace, fun m i n => tellsFound_of_remarks,
    fun m condition => ?_, fun random h => ?_⟩
  · refine ⟨rfl, ?_, rfl⟩
    rw [skipIf_eq]
  · obtain ⟨past, later, split, ends, goesOn⟩ := exists_latest Renews (tracing random)
      ((tracing random).history h)
    have whole : (tracing random).after h = ((tracing random).run past).run later := by
      rw [← run_history, split, run_append]
    have kept : ((tracing random).run past).monitor.detail = some .trace :=
      ((tracing random).notified_run past).detail
    refine ⟨past, later, _, split, ends, goesOn, ?_, traced_record _ later, ?_⟩
    · rw [whole]
      exact (notified_run _ later).log_of_trace kept
    · rw [whole, cycles_run goesOn, cycles_of_endsWith rfl ends, traced_record, Nat.zero_add]

/-- `0000 00EE`. -/
def straying : Rom :=
  ⟨#[0x00, 0x00, 0x00, 0xEE], by decide⟩

theorem instruction?_straying :
    (Memory.ofRom straying).instruction? 0x200 = none ∧
    (Memory.ofRom straying).instruction? 0x202 = some .ret := by
  simp only [Memory.instruction?_ofRom]
  decide

theorem word_straying :
    (Memory.ofRom straying).word 0x200 = 0 ∧ (Memory.ofRom straying).word 0x202 = 0xEE := by
  simp only [Memory.word_ofRom]
  decide

theorem stepNotices_straying {m before : Machine} (start : before.JustLoaded straying m) :
    m.stepNotices = [.invalid 0x200 0, .executed 0x200 0 .invalid] ∧ m.step.waiting = false ∧
    m.step.stepNotices =
      [.executed 0x202 0xEE (Instruction.form .ret), .stackUnderflow] := by
  obtain ⟨nothing, returns⟩ := instruction?_straying
  have next : m.next? = none := start.runs.next?.trans (start.pc ▸ nothing)
  obtain ⟨pc, memory, awaited⟩ :
      m.step.pc = 0x202 ∧ m.step.memory = m.memory ∧ m.step.waiting = false := by
    rw [step_of_none start.runs.awaited next, fetched_eq, next, start.pc]
    exact ⟨rfl, rfl, start.runs.awaited⟩
  have runs : Runs straying m.step := ⟨awaited, (congrArg Memory.ram memory).trans start.runs.ram⟩
  have next' : m.step.next? = some .ret := runs.next?.trans (pc ▸ returns)
  refine ⟨?_, awaited, ?_⟩
  · rw [stepNotices, next, start.runs.word, start.pc, word_straying.1]
    rfl
  · rw [stepNotices, next', runs.word, pc, word_straying.2]
    simp only [Option.elim_some, remarks, memory, start.stack]
    rfl

/-- A word that is no instruction, and a return from no call. -/
theorem trace_of_run_straying :
    let m := (tracing default).apply (.load ⟨straying.bytes.toList, none⟩)
    (m.monitor.detail = some .trace ∧
      m.step.monitor.log.toList =
        m.monitor.log.toList ++ [.invalid 0x200 0, .executed 0x200 0 .invalid]) ∧
    (m.step.monitor.detail = some .trace ∧
      m.step.step.monitor.log.toList =
        m.step.monitor.log.toList ++
          [.executed 0x202 0xEE (Instruction.form .ret), .stackUnderflow]) := by
  intro m
  have start : (tracing default).JustLoaded straying m := justLoaded_load ..
  have kept : m.monitor.detail = some .trace :=
    (notified_apply (o := .load ⟨straying.bytes.toList, none⟩) rfl).detail
  clear_value m
  obtain ⟨first, awaited, second⟩ := stepNotices_straying start
  have kept' : m.step.monitor.detail = some .trace := m.notified_step.detail.trans kept
  have log := trace_of_run.1 m kept
  have log' := trace_of_run.1 m.step kept'
  rw [start.runs.awaited, first] at log
  rw [awaited, second] at log'
  exact ⟨⟨kept, log⟩, kept', log'⟩

end Machine

end XoChip
