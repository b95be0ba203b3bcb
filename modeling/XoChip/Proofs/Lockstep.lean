import XoChip.Proofs.History
import XoChip.Proofs.WriteSet

/-!
Two machines in lockstep. Machines that agree on everything a batch looks at between steps make the
same moves, as long as each move leaves them in agreement. Main statement: what holds between two
machines and is kept by every move holds after the same turns, which come to the same moves
(`lockstep`).
-/

namespace XoChip.Machine

/-- Two machines agree on what decides how a batch goes on. -/
structure Abreast (m m' : Machine) : Prop where
  awake : m'.awake = m.awake
  pc : m'.pc = m.pc
  held : ∀ a, m'.heldAt a = m.heldAt a
  breakpoint : m'.breakpoint? = m.breakpoint?
  frameLength : m'.frameLength = m.frameLength

/-- What reading an instruction keeps, carrying it out and counting it, is kept by a step. -/
theorem step_related {R : Machine → Machine → Prop} {m m' : Machine}
    (waiting : m'.waiting = m.waiting) (next : m'.next? = m.next?) (here : R m m')
    (read : R m.fetched m'.fetched)
    (execute : ∀ i, m.executed? = some i → R (m.fetched.execute i) (m'.fetched.execute i))
    (count : ∀ {s s'}, R s s' →
      R { s with cycles := s.cycles + 1 } { s' with cycles := s'.cycles + 1 }) :
    R m.step m'.step := by
  cases awaited : m.waiting with
  | true =>
    rw [step_of_waiting awaited, step_of_waiting (waiting.trans awaited)]
    exact here
  | false =>
    have awaited' := waiting.trans awaited
    cases found : m.next? with
    | none =>
      rw [step_of_none awaited found, step_of_none awaited' (next.trans found)]
      exact count read
    | some i =>
      rw [step_of_some awaited found, step_of_some awaited' (next.trans found)]
      exact count (execute i (executed?_eq_some.mpr ⟨awaited, found⟩))

section
variable {R : Machine → Machine → Prop} {P : Machine → Prop} {m m' : Machine}

theorem run_related {ms : List Move}
    (keeps : ∀ {s s' mv}, mv ∈ ms → R s s' → (mv = .step → P s) → R (s.move mv) (s'.move mv))
    (here : R m m') (steps : AtSteps P m ms) : R (m.run ms) (m'.run ms) := by
  induction ms generalizing m m' with
  | nil => exact here
  | cons mv ms ih =>
    refine ih (fun mem => keeps (List.mem_cons_of_mem mv mem)) ?_ steps.2
    exact keeps List.mem_cons_self here steps.1

section
variable (abreast : ∀ {s s'}, R s s' → s.Abreast s')
  (step : ∀ {s s'}, R s s' → P s → R s.step s'.step)
include abreast step

theorem batchMoves_related (here : R m m') {n : Nat} (steps : AtSteps P m (m.batchMoves n)) :
    m'.batchMoves n = m.batchMoves n := by
  induction n generalizing m m' with
  | zero => rfl
  | succ n ih =>
    rw [batchMoves] at steps
    have stepped : R m.step m'.step := step here (steps.1 rfl)
    have same := abreast stepped
    have later := steps.2
    -- Both have made the step, and what decides whether they go on is the same.
    rw [batchMoves, batchMoves, same.awake, (abreast here).pc, same.held, same.breakpoint]
    split
    · rfl
    · rename_i awake
      rw [if_neg awake] at later
      split
      · rename_i held
        rw [if_pos held] at later
        rw [ih stepped later]
      · rename_i left
        rw [if_neg left] at later
        cases reached : m.step.breakpoint? with
        | some b => rfl
        | none =>
          rw [reached] at later
          dsimp only
          rw [ih stepped later]

theorem tickMoves_related (here : R m m') {n : Nat} (steps : AtSteps P m (m.tickMoves n)) :
    m'.tickMoves n = m.tickMoves n := by
  unfold tickMoves at steps ⊢
  rw [(abreast here).awake]
  split
  · rename_i awake
    rw [if_pos awake] at steps
    rw [batchMoves_related abreast step here (atSteps_append.mp steps).1]
  · rfl

theorem turnMoves_related (here : R m m') {t : Turn} (steps : AtSteps P m (m.turnMoves t)) :
    m'.turnMoves t = m.turnMoves t := by
  cases t with
  | files fs => rfl
  | operation o =>
    cases o with
    | tick n => exact tickMoves_related abreast step here steps
    | frame =>
      have length : m'.tickMoves m'.frameLength = m'.tickMoves m.frameLength :=
        congrArg m'.tickMoves (abreast here).frameLength
      exact length.trans (tickMoves_related abreast step here steps)
    | _ => rfl

end

section
variable (abreast : ∀ {s s'}, R s s' → s.Abreast s')
  (keeps : ∀ {s s' mv}, R s s' → (mv = .step → P s) → R (s.move mv) (s'.move mv))
include abreast keeps

theorem history_related (here : R m m') {h : List Turn} (steps : AtSteps P m (m.history h)) :
    m'.history h = m.history h := by
  induction h generalizing m m' with
  | nil => rfl
  | cons t ts ih =>
    obtain ⟨first, later⟩ := atSteps_append.mp steps
    have step {s s' : Machine} (related : R s s') (met : P s) :
        R (s.move .step) (s'.move .step) :=
      keeps related fun _ => met
    have same : m'.turnMoves t = m.turnMoves t := turnMoves_related abreast step here first
    have turned := run_related (fun _ => keeps) here first
    rw [run_turnMoves, ← same, run_turnMoves] at turned
    rw [run_turnMoves] at later
    rw [history, history, same, ih turned later]

/-- **Lockstep.** A relation between machines that agree on how to go on, if every move keeps it,
holds after the same turns, and these come to the same moves. -/
theorem lockstep (here : R m m') {h : List Turn} (steps : AtSteps P m (m.history h)) :
    m'.history h = m.history h ∧ ∀ past, past <+: h → R (m.after past) (m'.after past) := by
  refine ⟨history_related abreast keeps here steps, ?_⟩
  rintro past ⟨later, rfl⟩
  rw [history_append] at steps
  have steps := (atSteps_append.mp steps).1
  have related := run_related (fun _ => keeps) here steps
  rw [run_history, ← history_related abreast keeps here steps, run_history] at related
  exact related

end

end

end XoChip.Machine
