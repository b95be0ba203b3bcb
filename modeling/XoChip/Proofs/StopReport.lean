import XoChip.Proofs.Breakpoint
import XoChip.Proofs.HostMoves

/-!
The report of a breakpoint. A machine that reports one is halted, and it goes on reporting the same
one until execution resumes or the host starts over, whatever becomes of the breakpoint itself.
Main statement: `stop_report`.
-/

namespace XoChip.Machine

/-- Whether a turn withdraws the report: execution resumes, or the host starts over. -/
def withdraws (m : Machine) : Turn → Bool
  | .operation (.setHalted on) => !on
  | .operation o => m.startsOver o
  | .files _ => false

/-- Only a machine that is halted reports a breakpoint. -/
def Stopped (m : Machine) : Prop :=
  ∀ b, m.stoppedAt = some b → m.halted = true

/-- A machine that has just been stopped at a breakpoint, the first enabled one where execution
stands. -/
structure JustStopped (m : Machine) (b : Breakpoint) : Prop where
  stoppedAt : m.stoppedAt = some b
  first : m.breakpoint? = some b
  enabled : b.enabled = true
  here : b.address = m.pc
  halted : m.halted = true
  awaited : m.waiting = false
  idle : m.frameWait = .idle

/-- A machine that reports a breakpoint: it carries out no batch, and what withdraws the report is
all that changes it. -/
structure Reports (m : Machine) (b : Breakpoint) : Prop where
  stoppedAt : m.stoppedAt = some b
  halted : m.halted = true
  tick : ∀ n, m.tick n = m
  frame : m.frame = m
  turn : ∀ t, (m.turn t).stoppedAt = if m.withdraws t then none else some b

section
variable {m : Machine} {b : Breakpoint}

/-! ## The machine's own moves -/

theorem tick_of_halted (halted : m.halted = true) (n : Nat) : m.tick n = m := by
  have asleep : m.awake = false := by simp [Processor.awake, halted]
  simp [tick, asleep]

/-- No step sets a halted machine going. -/
theorem halted_step (halted : m.halted = true) : m.step.halted = true := by
  cases m.course with
  | waits _ same => rwa [same]
  | exits _ halted' => exact halted'
  | asks _ _ same => rwa [same]
  | holds _ _ _ _ _ _ _ same => rwa [same]
  | draws _ _ _ _ _ _ _ _ _ same => rwa [same]
  | goes _ same => rwa [same]

theorem justStopped_stopAt (found : m.breakpoint? = some b) :
    ((m.notify (.reached b.label m.pc)).stopAt b).JustStopped b := by
  have chosen := List.find?_some found
  simp only [Bool.and_eq_true, beq_iff_eq] at chosen
  exact ⟨rfl, found, chosen.1, chosen.2, rfl, rfl, rfl⟩

/-- A batch leaves the report as it is, unless it ends at a breakpoint. -/
theorem stoppedAt_batch (m : Machine) (n : Nat) :
    (∀ b, .stop b ∉ m.batchMoves n) ∧ (m.batch n).stoppedAt = m.stoppedAt ∨
      ∃ b, .stop b ∈ m.batchMoves n ∧ (m.batch n).JustStopped b := by
  induction n generalizing m with
  | zero => exact .inl ⟨fun _ => List.not_mem_nil, rfl⟩
  | succ n ih =>
    have kept := m.step_sameSettings.stoppedAt
    have later := ih m.step
    rw [kept] at later
    rw [batch, batchMoves]
    split
    · exact .inl ⟨fun _ => by simp, kept⟩
    · split
      · simpa using later
      · cases found : m.step.breakpoint? with
        | none => simpa [findBreakpoint, found] using later
        | some b =>
          simp only [findBreakpoint, found]
          exact .inr ⟨b, by simp, justStopped_stopAt found⟩

theorem JustStopped.endFrame (h : m.JustStopped b) : (m.move .endFrame).JustStopped b := by
  have nothing : m.move .endFrame = m := by
    simp [move, Processor.endFrame, h.idle]
  rwa [nothing]

theorem stoppedAt_tick (m : Machine) (n : Nat) :
    (∀ b, .stop b ∉ m.tickMoves n) ∧ (m.tick n).stoppedAt = m.stoppedAt ∨
      ∃ b, .stop b ∈ m.tickMoves n ∧ (m.tick n).JustStopped b := by
  unfold tick tickMoves
  split
  · rcases m.stoppedAt_batch n with ⟨unstopped, same⟩ | ⟨b, stops, stopped⟩
    · exact .inl ⟨by simpa using unstopped, same⟩
    · exact .inr ⟨b, List.mem_append_left _ stops, stopped.endFrame⟩
  · exact .inl ⟨fun _ => List.not_mem_nil, rfl⟩

/-! ## The host -/

/-- Of the operations that carry out nothing, only those that withdraw the report change it, and
only those that start over or resume set a halted machine going. -/
theorem report_apply {o : Operation} (quiet : o.runs = false) :
    (m.apply o).stoppedAt = (if m.withdraws (.operation o) then none else m.stoppedAt) ∧
      (m.withdraws (.operation o) = false → m.halted = true → (m.apply o).halted = true) := by
  cases anew : m.startsOver o with
  | true =>
    have withdrawn : m.withdraws (.operation o) = true := by
      cases o with
      | load | loadFile | reset | unload => exact anew
      | _ => cases anew
    simp [withdrawn, (startedOver anew).stoppedAt]
  | false =>
    cases o with
    | step | tick | frame => cases quiet
    | reset | unload => cases anew
    | load | loadFile =>
      rw [apply, apply_of_not_isOk anew]
      simp [withdraws, anew]
    | setHalted on => cases on <;> simp [withdraws, apply, setHalted, Processor.setHalted, notify]
    | pressKey key =>
      rw [apply, pressKey_eq]
      exact ⟨rfl, fun _ halted => halted⟩
    | findBreakpoint =>
      rw [apply, findBreakpoint_eq]
      exact ⟨rfl, fun _ halted => halted⟩
    | _ => exact ⟨rfl, fun _ halted => halted⟩

/-! ## Every turn -/

theorem Stopped.turn (h : m.Stopped) (t : Turn) : (m.turn t).Stopped := by
  have ticked (n : Nat) : (m.tick n).Stopped := by
    intro b reported
    rcases m.stoppedAt_tick n with ⟨-, same⟩ | ⟨b', -, stopped⟩
    · have halted := h b (same ▸ reported)
      rwa [tick_of_halted halted]
    · exact stopped.halted
  cases t with
  | files fs => exact h
  | operation o =>
    cases runs : o.runs with
    | true =>
      cases o with
      | step =>
        intro b reported
        exact halted_step (h b (m.step_sameSettings.stoppedAt ▸ reported))
      | tick n => exact ticked n
      | frame => exact ticked m.frameLength
      | _ => cases runs
    | false =>
      intro b reported
      obtain ⟨stoppedAt, halted⟩ := report_apply (m := m) runs
      rw [Machine.turn, stoppedAt] at reported
      split at reported
      · cases reported
      · rename_i kept
        exact halted (eq_false_of_ne_true kept) (h b reported)

theorem Stopped.after (h : m.Stopped) (ts : List Turn) : (m.after ts).Stopped := by
  induction ts generalizing m with
  | nil => exact h
  | cons t ts ih => exact ih (h.turn t)

theorem Reachable.stopped (h : m.Reachable) : m.Stopped := by
  obtain ⟨random, ts, rfl⟩ := h
  have start : (fresh random).Stopped := by
    intro b reported
    cases reported
  exact start.after ts

theorem Stopped.reports (h : m.Stopped) (reported : m.stoppedAt = some b) : m.Reports b := by
  have halted := h b reported
  refine ⟨reported, halted, tick_of_halted halted, tick_of_halted halted _, fun t => ?_⟩
  cases t with
  | files fs => exact reported
  | operation o =>
    cases runs : o.runs with
    | false =>
      rw [Machine.turn, (report_apply runs).1, reported]
    | true =>
      cases o with
      | step => exact m.step_sameSettings.stoppedAt.trans reported
      | tick n =>
        rw [Machine.turn, apply, tick_of_halted halted]
        exact reported
      | frame =>
        rw [Machine.turn, apply, Machine.frame, tick_of_halted halted]
        exact reported
      | _ => cases runs

/-- A report is only made by a batch, on stopping there. -/
theorem justStopped_turn (silent : m.stoppedAt = none) {t : Turn}
    (reported : (m.turn t).stoppedAt = some b) : t.ticks = true ∧ (m.turn t).JustStopped b := by
  have ticked {n : Nat} (reported : (m.tick n).stoppedAt = some b) : (m.tick n).JustStopped b := by
    rcases m.stoppedAt_tick n with ⟨-, same⟩ | ⟨b', -, stopped⟩
    · cases reported.symm.trans (same.trans silent)
    · cases reported.symm.trans stopped.stoppedAt
      exact stopped
  cases t with
  | files fs => cases silent.symm.trans reported
  | operation o =>
    cases runs : o.runs with
    | false =>
      rw [turn, (report_apply runs).1, silent, ite_self] at reported
      cases reported
    | true =>
      cases o with
      | step => cases silent.symm.trans (m.step_sameSettings.stoppedAt.symm.trans reported)
      | tick n => exact ⟨rfl, ticked reported⟩
      | frame => exact ⟨rfl, ticked reported⟩
      | _ => cases runs

end

/-- **A reported breakpoint means a stopped machine.** Whatever the host has done: a machine that
reports a breakpoint is halted and carries out no batch, and it goes on reporting this one until
execution resumes or the host starts over. A report is only made by a batch, and at that moment the
breakpoint is the first enabled one where execution stands, and neither a key is awaited nor a
sprite held back. -/
theorem stop_report {m : Machine} (reached : m.Reachable) :
    (∀ b, m.stoppedAt = some b → m.Reports b) ∧
    (m.stoppedAt = none → ∀ t b, (m.turn t).stoppedAt = some b →
      t.ticks = true ∧ (m.turn t).JustStopped b) :=
  ⟨fun _ reported => reached.stopped.reports reported,
    fun silent _ _ reported => justStopped_turn silent reported⟩

theorem Reachable.turn {m : Machine} (h : m.Reachable) (t : Turn) : (m.turn t).Reachable := by
  obtain ⟨random, ts, rfl⟩ := h
  exact ⟨random, ts ++ [t], after_append _ ts [t]⟩

theorem reachable_beforeBreakpoint (rom : Rom) : (beforeBreakpoint rom).Reachable :=
  ⟨default, _, rfl⟩

theorem stoppedAt_beforeBreakpoint (rom : Rom) : (beforeBreakpoint rom).stoppedAt = none := by
  rw [beforeBreakpoint_eq]
  rfl

theorem stoppedAt_tick_loading :
    ((beforeBreakpoint loading).tick 1).stoppedAt = some ⟨"next", 0x202, true⟩ := by
  obtain ⟨rest, split⟩ := split_beforeBreakpoint loading
  have split : (beforeBreakpoint loading).tickMoves 1 = [] ++ .step :: rest := split
  have stops : StopsAt (beforeBreakpoint loading) 1 rest 0x202 := by
    refine stopsAt_of_reached split (mem_beforeBreakpoint _) rfl ?_ ?_ ?_ ?_ ?_ <;> rw [run_nil]
    · exact reached_beforeBreakpoint next?_loading rfl fun _ => rfl
    · exact holds_eq_false next?_loading rfl
    · simp [next?_loading]
    · simp [next?_loading]
    · simp [frameWait_beforeBreakpoint]
  rw [stops.stoppedAt, firstAt, beforeBreakpoint_eq]
  rfl

/-- A report made by a batch outlives its breakpoint and ends when execution resumes. -/
theorem stop_report_loading :
    let m := beforeBreakpoint loading
    let b : Breakpoint := ⟨"next", 0x202, true⟩
    (m.Reachable ∧ m.stoppedAt = none ∧ (m.turn (.operation (.tick 1))).JustStopped b) ∧
    ((m.tick 1).Reachable ∧ (m.tick 1).stoppedAt = some b ∧ (m.tick 1).Reports b ∧
      ((m.tick 1).apply .clearBreakpoints).stoppedAt = some b ∧
      ((m.tick 1).apply (.setHalted false)).stoppedAt = none) := by
  intro m b
  have reached : m.Reachable := reachable_beforeBreakpoint loading
  have silent : m.stoppedAt = none := stoppedAt_beforeBreakpoint loading
  have reported : (m.tick 1).stoppedAt = some b := stoppedAt_tick_loading
  have reached' : (m.tick 1).Reachable := reached.turn (.operation (.tick 1))
  have reports := (stop_report reached').1 b reported
  refine ⟨⟨reached, silent, ?_⟩, reached', reported, reports, ?_, ?_⟩
  · exact ((stop_report reached).2 silent (.operation (.tick 1)) b reported).2
  · exact reports.turn (.operation .clearBreakpoints)
  · exact reports.turn (.operation (.setHalted false))

end XoChip.Machine
