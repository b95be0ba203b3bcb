import XoChip.Proofs.SpriteWait

/-!
Breakpoints met by a batch. A step that leaves execution at an enabled breakpoint ends the batch
there, with two exceptions besides a program that ends itself and a sprite that is held back: the
step asked for a key, or a sprite waits that nobody draws and execution has not moved
(`tick_stops_iff`).
-/

namespace XoChip.Machine

/-- The first enabled breakpoint at an address. -/
def firstAt (m : Machine) (a : Word) : Option Breakpoint :=
  m.breakpoints.find? fun b => b.enabled && b.address == a

/-- A tick ends halted at a breakpoint, with no step after the one that came to it. -/
structure StopsAt (m : Machine) (n : Nat) (rest : List Move) (a : Word) : Prop where
  last : ∀ mv ∈ rest, mv ≠ .step
  halted : (m.tick n).halted = true
  pc : (m.tick n).pc = a
  stoppedAt : (m.tick n).stoppedAt = m.firstAt a

/-! ## A batch from the middle -/

/-- A step of an awake machine that is no exit halts nothing, and it awaits a key only if it asks
for one. -/
theorem control_step {m : Machine} (awake : m.awake = true) (exit : m.next? ≠ some .exit) :
    m.step.halted = false ∧
      (m.step.waiting = true ↔ ∃ x, m.next? = some (.awaitKey x)) := by
  obtain ⟨halted, awaited⟩ : m.halted = false ∧ m.waiting = false := by
    simpa [Processor.awake] using awake
  cases m.course with
  | waits waiting => cases awaited ▸ waiting
  | exits next => exact absurd next exit
  | asks x next halted' waiting =>
    exact ⟨halted'.trans halted, fun _ => ⟨x, next⟩, fun _ => waiting⟩
  | holds x y n next _ _ _ same =>
    have awaited' : m.step.waiting = false := by
      rw [same]
      exact awaited
    refine ⟨by rw [same]; exact halted, ?_⟩
    simp [awaited', next]
  | draws x y n next _ _ _ _ _ halted' waiting =>
    refine ⟨halted'.trans halted, ?_⟩
    simp [waiting, next]
  | goes next halted' waiting =>
    refine ⟨halted'.trans halted, ?_⟩
    rw [waiting]
    constructor
    · intro asked
      cases asked
    · rintro ⟨x, asks⟩
      cases next _ asks

theorem awake_step {m : Machine} (awake : m.awake = true) (exit : m.next? ≠ some .exit)
    (key : ∀ x, m.next? ≠ some (.awaitKey x)) : m.step.awake = true := by
  obtain ⟨halted, waiting⟩ := control_step awake exit
  have awaited : m.step.waiting = false := by
    apply Bool.eq_false_iff.mpr
    intro asked
    obtain ⟨x, asks⟩ := waiting.mp asked
    exact key x asks
  simp only [Processor.awake, halted, awaited, Bool.not_false, Bool.and_self]

/-- After a step that holds no sprite, what looks like a held sprite is one nobody draws. -/
theorem heldAt_step_iff {m : Machine} (passed : m.holds = false) (exit : m.next? ≠ some .exit) :
    m.step.heldAt m.pc = true ↔ m.frameWait ≠ .idle ∧ m.step.pc = m.pc := by
  have kept (same : m.step.frameWait = m.frameWait) :
      m.step.heldAt m.pc = true ↔ m.frameWait ≠ .idle ∧ m.step.pc = m.pc := by
    simp only [heldAt, same, Bool.and_eq_true, bne_iff_ne, beq_iff_eq]
  cases m.course with
  | waits _ same => exact kept (by rw [same])
  | exits next => exact absurd next exit
  | asks _ _ _ _ same => exact kept same
  | goes _ _ _ same => exact kept same
  | holds x y n next awaited hold =>
    have attempted : m.attempts = true := by
      simp only [attempts, awaited, atSprite_of_next? next, Bool.not_false, Bool.and_self]
    cases passed ▸ holds_of_attempts attempted hold
  | draws _ _ _ _ _ _ pc =>
    have moved : m.step.pc ≠ m.pc := by
      rw [pc]
      exact add_two_ne m.pc
    simp only [heldAt, beq_eq_false_iff_ne.mpr moved, Bool.and_false, moved, and_false,
      Bool.false_eq_true]

/-- What follows in a batch is a batch. -/
theorem batchMoves_suffix {m : Machine} {n : Nat} {past later : List Move}
    (awake : m.awake = true) (split : m.batchMoves n = past ++ .step :: later) :
    (m.run past).awake = true ∧ ∃ k, (m.run past).batchMoves (k + 1) = .step :: later := by
  induction n generalizing m past with
  | zero => cases past <;> cases split
  | succ n ih =>
    cases past with
    | nil => exact ⟨awake, n, split⟩
    | cons mv past =>
      rw [batchMoves] at split
      obtain ⟨rfl, tail⟩ := List.cons.inj split
      split at tail
      · cases past <;> cases tail
      · rename_i awake'
        have awake' : m.step.awake = true := by simpa using awake'
        split at tail
        · exact ih (m := m.step) awake' tail
        · split at tail
          · cases past with
            | nil => cases tail
            | cons mv past => cases past <;> cases tail
          · exact ih (m := m.step) awake' tail

/-- A tick from one of its steps on. -/
theorem tick_from {m : Machine} {n : Nat} {past rest : List Move}
    (split : m.tickMoves n = past ++ .step :: rest) :
    ∃ later k, rest = later ++ [.endFrame] ∧
      m.tick n = (m.run past).step.run (later ++ [.endFrame]) ∧
      (m.run past).awake = true ∧ (m.run past).batchMoves (k + 1) = .step :: later ∧
      (m.run past).step.breakpoints = m.breakpoints := by
  obtain ⟨awake, later, rfl, batch⟩ := step_of_tickMoves split
  obtain ⟨awake', k, tail⟩ := batchMoves_suffix awake batch
  refine ⟨later, k, rfl, ?_, awake', tail, ?_⟩
  · rw [← run_tickMoves, split, run_append]
    rfl
  · refine (m.run past).step_sameSettings.breakpoints.trans (m.settings_run fun mv h => ?_).2
    have mem : mv ∈ m.batchMoves n := batch ▸ List.mem_append_left _ h
    exact (own_batchMoves mem).1

/-! ## The step that comes to a breakpoint -/

section
variable {m s : Machine} {n k : Nat} {past later : List Move}

/-- A step after which execution goes on and has moved, or finds no sprite waiting, is checked for
breakpoints. -/
theorem stopsAt_of_moved (ends : m.tick n = s.step.run (later ++ [.endFrame]))
    (same : s.step.breakpoints = m.breakpoints) (batch : s.batchMoves (k + 1) = .step :: later)
    (awake : s.step.awake = true) (moved : s.step.heldAt s.pc = false)
    {first : Breakpoint} (found : m.firstAt s.step.pc = some first) :
    StopsAt m n (later ++ [.endFrame]) s.step.pc := by
  have here : s.step.breakpoint? = some first := by
    rw [Processor.breakpoint?, same]
    exact found
  have stop : later = [.stop first] := by
    simpa [batchMoves, awake, moved, here] using batch.symm
  subst stop
  have stopped : m.tick n = s.step.run [.stop first, .endFrame] := ends
  have ended : m.tick n = (s.step.notify (.reached first.label s.step.pc)).stopAt first := by
    rw [stopped]
    rfl
  refine ⟨?_, ?_, ?_, ?_⟩
  · simp
  · rw [ended]
    rfl
  · rw [ended]
    rfl
  · rw [ended, found]
    rfl

/-- A step that halts nothing, at the end of its batch or with more to come, stops nowhere. -/
theorem not_stopsAt (ends : m.tick n = s.step.run (later ++ [.endFrame]))
    (halted : s.step.halted = false) (again : later = [] ∨ ∃ j, later = s.step.batchMoves j)
    (a : Word) : ¬StopsAt m n (later ++ [.endFrame]) a := by
  intro stops
  have none : later = [] := by
    rcases again with none | ⟨j, again⟩
    · exact none
    · cases j with
      | zero => exact again
      | succ j =>
        have first : Move.step ∈ later ++ [.endFrame] := by
          rw [again]
          exact List.mem_cons_self
        exact absurd rfl (stops.last _ first)
  subst none
  have ended : (m.tick n).halted = s.step.halted := by
    rw [ends]
    simp only [run, List.nil_append, List.foldl, move, Processor.endFrame]
    split <;> rfl
  cases (ended.symm.trans stops.halted).symm.trans halted

end

section
variable {m : Machine} {n : Nat} {past rest : List Move}

/-- A tick whose step asks for a key does not halt. -/
theorem not_stopsAt_of_asks {x : Register} (split : m.tickMoves n = past ++ .step :: rest)
    (asks : (m.run past).next? = some (.awaitKey x)) (a : Word) : ¬StopsAt m n rest a := by
  obtain ⟨later, k, rfl, ends, awake, tail, -⟩ := tick_from split
  obtain ⟨halted, waiting⟩ := control_step awake (by simp [asks])
  have asleep : (m.run past).step.awake = false := by
    simp only [Processor.awake, waiting.mpr ⟨x, asks⟩, Bool.not_true, Bool.and_false]
  have none : later = [] := by simpa [batchMoves, asleep] using tail.symm
  exact not_stopsAt ends halted (.inl none) a

/-- A tick whose step stays where it is while a sprite waits goes on. -/
theorem not_stopsAt_of_stays (split : m.tickMoves n = past ++ .step :: rest)
    (key : ∀ x, (m.run past).next? ≠ some (.awaitKey x))
    (passed : (m.run past).holds = false) (exit : (m.run past).next? ≠ some .exit)
    (waits : (m.run past).frameWait ≠ .idle) (stays : (m.run past).step.pc = (m.run past).pc)
    (a : Word) : ¬StopsAt m n rest a := by
  obtain ⟨later, k, rfl, ends, awake, tail, -⟩ := tick_from split
  have held := (heldAt_step_iff passed exit).mpr ⟨waits, stays⟩
  have again : later = (m.run past).step.batchMoves k := by
    simpa [batchMoves, awake_step awake exit key, held] using tail.symm
  exact not_stopsAt ends (control_step awake exit).1 (.inr ⟨k, again⟩) a

/-- Any other step that comes to an enabled breakpoint is the last one. -/
theorem stopsAt_of_reached {b : Breakpoint} (split : m.tickMoves n = past ++ .step :: rest)
    (known : b ∈ m.breakpoints) (enabled : b.enabled = true)
    (reached : (m.run past).step.pc = b.address)
    (passed : (m.run past).holds = false) (exit : (m.run past).next? ≠ some .exit)
    (key : ∀ x, (m.run past).next? ≠ some (.awaitKey x))
    (moved : ¬((m.run past).frameWait ≠ .idle ∧ (m.run past).step.pc = (m.run past).pc)) :
    StopsAt m n rest b.address := by
  obtain ⟨later, k, rfl, ends, awake, tail, same⟩ := tick_from split
  have left : (m.run past).step.heldAt (m.run past).pc = false :=
    Bool.eq_false_iff.mpr fun h => moved ((heldAt_step_iff passed exit).mp h)
  obtain ⟨first, found⟩ : ∃ first, m.firstAt (m.run past).step.pc = some first := by
    apply Option.isSome_iff_exists.mp
    apply List.find?_isSome.mpr
    exact ⟨b, known, by simp [enabled, reached]⟩
  rw [← reached]
  exact stopsAt_of_moved ends same tail (awake_step awake exit key) left found

/-- **Which breakpoints stop a batch.** A step of a tick that comes to an enabled breakpoint, other
than an exit or a sprite held back, is the last one and leaves the machine halted there, unless it
asks for a key, or a sprite waits and execution stands where it stood. -/
theorem tick_stops_iff {b : Breakpoint} (split : m.tickMoves n = past ++ .step :: rest)
    (known : b ∈ m.breakpoints) (enabled : b.enabled = true)
    (reached : (m.run past).step.pc = b.address)
    (passed : (m.run past).holds = false) (exit : (m.run past).next? ≠ some .exit) :
    StopsAt m n rest b.address ↔
      (∀ x, (m.run past).next? ≠ some (.awaitKey x)) ∧
        ¬((m.run past).frameWait ≠ .idle ∧ (m.run past).step.pc = (m.run past).pc) := by
  constructor
  · intro stops
    have key (x : Register) : (m.run past).next? ≠ some (.awaitKey x) := fun asks =>
      not_stopsAt_of_asks split asks _ stops
    refine ⟨key, ?_⟩
    rintro ⟨waits, stays⟩
    exact not_stopsAt_of_stays split key passed exit waits stays _ stops
  · rintro ⟨key, moved⟩
    exact stopsAt_of_reached split known enabled reached passed exit key moved

end

/-! ## Programs in front of a breakpoint -/

/-- A machine that has just loaded a program, with a breakpoint behind its first word. -/
def beforeBreakpoint (rom : Rom) : Machine :=
  (fresh default).after
    [.operation (.load ⟨rom.bytes.toList, none⟩), .operation (.addBreakpoint "next" 0x202)]

section
variable {rom : Rom} {i : Instruction}

theorem beforeBreakpoint_eq (rom : Rom) :
    beforeBreakpoint rom =
      { (fresh default).start rom with
        romPath := none
        breakpoints := [⟨"next", 0x202, true⟩] } := by
  simp only [beforeBreakpoint, after, List.foldl, turn, apply_load_bytes]
  rfl

theorem awake_beforeBreakpoint (rom : Rom) : (beforeBreakpoint rom).awake = true := by
  rw [beforeBreakpoint_eq]
  rfl

theorem mem_beforeBreakpoint (rom : Rom) :
    ⟨"next", 0x202, true⟩ ∈ (beforeBreakpoint rom).breakpoints := by
  rw [beforeBreakpoint_eq]
  exact List.mem_cons_self

theorem frameWait_beforeBreakpoint (rom : Rom) : (beforeBreakpoint rom).frameWait = .idle := by
  rw [beforeBreakpoint_eq]
  rfl

theorem next?_beforeBreakpoint (rom : Rom) :
    (beforeBreakpoint rom).next? = (Memory.ofRom rom).instruction? 0x200 := by
  rw [beforeBreakpoint_eq]
  rfl

theorem split_beforeBreakpoint (rom : Rom) :
    ∃ rest, (beforeBreakpoint rom).tickMoves 1 = .step :: rest := by
  rw [tickMoves, if_pos (awake_beforeBreakpoint rom)]
  exact ⟨_, rfl⟩

theorem reached_beforeBreakpoint (next : (beforeBreakpoint rom).next? = some i)
    (size : i.form.size = 2) (stays : ∀ m : Machine, (m.execute i).pc = m.pc) :
    (beforeBreakpoint rom).step.pc = 0x202 := by
  have awaited : (beforeBreakpoint rom).waiting = false := by
    rw [beforeBreakpoint_eq]
    rfl
  have start : (beforeBreakpoint rom).pc = 0x200 := by
    rw [beforeBreakpoint_eq]
    rfl
  rw [step_of_some awaited next, stays, fetched_eq, next, start]
  simp only [Instruction.formOf, size]
  rfl

theorem holds_eq_false {m : Machine} (next : m.next? = some i) (other : i.isSprite = false) :
    m.holds = false := by
  simp only [holds, attempts, not_atSprite next other, Bool.and_false, Bool.false_and]

end

/-- `6005`. -/
def loading : Rom := ⟨#[0x60, 0x05], by decide⟩

/-- `F00A`. -/
def asking : Rom := ⟨#[0xF0, 0x0A], by decide⟩

theorem next?_loading : (beforeBreakpoint loading).next? = some (.load 0 5) := by
  rw [next?_beforeBreakpoint, Memory.instruction?_ofRom]
  decide

theorem next?_asking : (beforeBreakpoint asking).next? = some (.awaitKey 0) := by
  rw [next?_beforeBreakpoint, Memory.instruction?_ofRom]
  decide

theorem tick_stops_loading :
    ∃ rest, (beforeBreakpoint loading).tickMoves 1 = [] ++ .step :: rest ∧
      StopsAt (beforeBreakpoint loading) 1 rest 0x202 := by
  obtain ⟨rest, split⟩ := split_beforeBreakpoint loading
  have split : (beforeBreakpoint loading).tickMoves 1 = [] ++ .step :: rest := split
  refine ⟨rest, split, ?_⟩
  refine (tick_stops_iff split (mem_beforeBreakpoint _) rfl ?_ ?_ ?_).mpr ⟨?_, ?_⟩ <;>
    rw [run_nil]
  · exact reached_beforeBreakpoint next?_loading rfl fun _ => rfl
  · exact holds_eq_false next?_loading rfl
  · rw [next?_loading]
    nofun
  · rw [next?_loading]
    nofun
  · rintro ⟨waits, -⟩
    exact waits (frameWait_beforeBreakpoint _)

/-- A breakpoint behind a wait for a key is run over. -/
theorem asking_runs_over :
    ¬∀ (m : Machine) (n : Nat) (past rest : List Move) (b : Breakpoint), m.Reachable →
      m.tickMoves n = past ++ .step :: rest → b ∈ m.breakpoints → b.enabled = true →
      (m.run past).step.pc = b.address → (m.run past).holds = false →
      (m.run past).next? ≠ some .exit → StopsAt m n rest b.address := by
  intro stops
  obtain ⟨rest, split⟩ := split_beforeBreakpoint asking
  have split : (beforeBreakpoint asking).tickMoves 1 = [] ++ .step :: rest := split
  have asks : ((beforeBreakpoint asking).run []).next? = some (.awaitKey 0) := by
    rw [run_nil, next?_asking]
  apply not_stopsAt_of_asks split asks 0x202
  apply stops (beforeBreakpoint asking) 1 [] rest ⟨"next", 0x202, true⟩ ⟨default, _, rfl⟩ split
    (mem_beforeBreakpoint _) rfl
  · rw [run_nil]
    exact reached_beforeBreakpoint next?_asking rfl fun _ => rfl
  · rw [run_nil]
    exact holds_eq_false next?_asking rfl
  · rw [asks]
    nofun

end XoChip.Machine
