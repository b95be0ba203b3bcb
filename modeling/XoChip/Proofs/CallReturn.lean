import XoChip.Proofs.HostMoves

/-!
Calls and returns. A call and a return are all that changes the stack, unless the host starts over,
and neither looks beneath the top of it (`stackAfter`). So whatever runs after a call, as long as
the stack is deeper than before it, the way back lies where the call put it. Main statement:
`call_return`.
-/

namespace XoChip

theorem Monitor.events_hear (m : Monitor) (e : Event) :
    (m.hear (some e)).events = if m.listening then m.events.push e else m.events := by
  rw [hear]
  split <;> rfl

/-- What is heard of a notice does not depend on what is logged. -/
theorem Monitor.events_notify (m : Monitor) (n : Notice) :
    (m.notify n).events = (m.hear n.event?).events := by
  rw [notify, write_eq]
  cases n.event? with
  | none => rfl
  | some e => exact (events_hear ..).trans (events_hear m e).symm

namespace Machine

/-! ## The top of the stack -/

/-- What becomes of the stack in a move that does not start over. -/
inductive StackAfter (m : Machine) (mv : Move) : Prop
  | stays (same : (m.move mv).memory.stack = m.memory.stack)
  | grows (a : ShortAddress) (step : mv = .step) (calls : m.executed? = some (.call a))
      (pushed : m.step.memory.stack = (m.pc + 2) :: m.memory.stack)
  | shrinks (step : mv = .step) (returns : m.executed? = some .ret)
      (popped : m.step.memory.stack = m.memory.stack.tail)

section
variable {m : Machine}

theorem step_call {a : ShortAddress} (calls : m.executed? = some (.call a)) :
    m.step.memory.stack = (m.pc + 2) :: m.memory.stack ∧ m.step.pc = Word.ofShort a := by
  have next := (executed?_eq_some.mp calls).2
  rw [step_of_executed? calls, fetched_eq, next]
  exact ⟨rfl, rfl⟩

/-- A return takes the last way back. -/
theorem step_ret {a : Word} {rest : List Word} (returns : m.executed? = some .ret)
    (stack : m.memory.stack = a :: rest) : m.step.pc = a ∧ m.step.memory.stack = rest := by
  have read : m.fetched.memory.stack = a :: rest := by
    rw [fetched_eq]
    exact stack
  rw [step_of_executed? returns]
  simp only [execute, returnFromCall, Bus.pop, read, and_self]

/-- Where there is no way back, execution goes to zero, and this is heard. -/
theorem step_ret_of_empty (returns : m.executed? = some .ret) (stack : m.memory.stack = []) :
    m.step.pc = 0 ∧ m.step.memory.stack = [] ∧
    m.step.monitor.events =
      if m.monitor.listening then m.monitor.events.push .stackUnderflow else m.monitor.events := by
  have read : m.fetched.memory.stack = [] := by
    rw [fetched_eq]
    exact stack
  have logged := fetched_monitor (executed?_eq_some.mp returns).2
  rw [step_of_executed? returns]
  simp only [execute, returnFromCall, Bus.pop, read, Bus.notify, Monitor.events_notify, true_and]
  rw [logged]
  exact Monitor.events_hear ..

theorem stackAfter_step (m : Machine) : m.StackAfter .step := by
  rcases m.step_same .stack with same | ⟨i, executed, writer⟩
  · exact .stays same
  · cases i with
    | call a => exact .grows a rfl executed (step_call executed).1
    | ret =>
      refine .shrinks rfl executed ?_
      cases stack : m.memory.stack with
      | nil => exact (step_ret_of_empty executed stack).2.1
      | cons a rest => exact (step_ret executed stack).2
    | _ => cases writer

theorem stackAfter {mv : Move} (goesOn : ¬m.Renews mv) : m.StackAfter mv := by
  cases mv with
  | step => exact m.stackAfter_step
  | host o quiet =>
    have kept := apply_eq_hosting quiet (eq_false_of_ne_true goesOn)
    refine .stays ?_
    rw [move, kept]
    rfl
  | stop | endFrame | files => exact .stays rfl

/-! ## Beneath the top -/

/-- What lies deep enough in the stack is out of reach. -/
theorem suffix_move {beneath : List Word} {mv : Move} (goesOn : ¬m.Renews mv)
    (deep : beneath.length ≤ (m.move mv).memory.stack.length)
    (h : beneath <:+ m.memory.stack) : beneath <:+ (m.move mv).memory.stack := by
  cases stackAfter goesOn with
  | stays same => rwa [same]
  | grows a step calls pushed =>
    subst step
    rw [move, pushed]
    exact h.trans (List.suffix_cons _ _)
  | shrinks step returns popped =>
    subst step
    rw [move, popped] at deep ⊢
    cases stack : m.memory.stack with
    | nil => rwa [stack] at h
    | cons a rest =>
      rw [stack] at h deep
      rcases List.suffix_cons_iff.mp h with whole | inside
      · rw [whole, List.length_cons, List.tail_cons] at deep
        omega
      · exact inside

theorem suffix_run {beneath : List Word} {ms : List Move} (goesOn : m.Avoids Renews ms)
    (deep : Along (fun s => beneath.length ≤ s.memory.stack.length) m ms)
    (h : beneath <:+ m.memory.stack) : beneath <:+ (m.run ms).memory.stack := by
  induction ms generalizing m with
  | nil => exact h
  | cons mv ms ih => exact ih goesOn.2 deep.2 (suffix_move goesOn.1 deep.2.start h)

end

/-- **Call and return match.** After a call, whatever runs and whatever the host does without
starting over (the moves of any history will do), as long as the stack stays deeper than it was
before the call: the return that is carried out one deep goes on behind the call and leaves the
stack as the call found it. Nothing else changes the stack, and a return from no call goes to zero
and is heard once. -/
theorem call_return :
    (∀ {m : Machine} {a : ShortAddress} {past : List Move}, m.executed? = some (.call a) →
      m.step.Avoids Renews past →
      Along (fun s => m.memory.stack.length < s.memory.stack.length) m.step past →
      (m.step.run past).executed? = some .ret →
      (m.step.run past).memory.stack.length = m.memory.stack.length + 1 →
      (m.step.run past).step.pc = m.pc + 2 ∧
        (m.step.run past).step.memory.stack = m.memory.stack) ∧
    (∀ {m : Machine} {mv : Move}, ¬m.Renews mv →
      (m.move mv).memory.stack = m.memory.stack ∨
        mv = .step ∧ (m.executed? = some .ret ∨ ∃ a, m.executed? = some (.call a))) ∧
    (∀ {m : Machine}, m.executed? = some .ret → m.memory.stack = [] →
      m.step.pc = 0 ∧ m.step.memory.stack = [] ∧
      m.step.monitor.events =
        if m.monitor.listening then m.monitor.events.push .stackUnderflow
        else m.monitor.events) := by
  refine ⟨fun {m a past} calls goesOn deeper returns depth => ?_, fun goesOn => ?_,
    step_ret_of_empty⟩
  · have beneath : (m.pc + 2) :: m.memory.stack <:+ (m.step.run past).memory.stack :=
      suffix_run goesOn deeper ⟨[], (step_call calls).1.symm⟩
    have stack := beneath.eq_of_length depth.symm
    exact step_ret returns stack.symm
  · cases stackAfter goesOn with
    | stays same => exact .inl same
    | grows a step calls => exact .inr ⟨step, .inr ⟨a, calls⟩⟩
    | shrinks step returns => exact .inr ⟨step, .inl returns⟩

/-- `2204 1202 2208 00EE 00EE`. -/
def nested : Rom :=
  ⟨#[0x22, 0x04, 0x12, 0x02, 0x22, 0x08, 0x00, 0xEE, 0x00, 0xEE], by decide⟩

theorem instruction?_nested :
    (Memory.ofRom nested).instruction? 0x200 = some (.call 0x204) ∧
    (Memory.ofRom nested).instruction? 0x204 = some (.call 0x208) ∧
    (Memory.ofRom nested).instruction? 0x206 = some .ret ∧
    (Memory.ofRom nested).instruction? 0x208 = some .ret := by
  simp only [Memory.instruction?_ofRom]
  decide

/-- A call within a call, up to the return of the outer one. -/
theorem nested_run {m : Machine} (runs : Runs nested m) (pc : m.pc = 0x200) :
    m.executed? = some (.call 0x204) ∧
    Along (fun s => m.memory.stack.length < s.memory.stack.length) m.step [.step, .step] ∧
    (m.step.run [.step, .step]).executed? = some .ret ∧
    (m.step.run [.step, .step]).memory.stack.length = m.memory.stack.length + 1 := by
  obtain ⟨outer, inner, back, innermost⟩ := instruction?_nested
  have calls : m.executed? = some (.call 0x204) := runs.executed? (pc ▸ outer)
  obtain ⟨stack₁, pc₁⟩ := step_call calls
  have runs₁ := runs.step calls rfl rfl
  have calls₁ : m.step.executed? = some (.call 0x208) := runs₁.executed? (pc₁ ▸ inner)
  obtain ⟨stack₂, pc₂⟩ := step_call calls₁
  have runs₂ := runs₁.step calls₁ rfl rfl
  have returns₂ : m.step.step.executed? = some .ret := runs₂.executed? (pc₂ ▸ innermost)
  obtain ⟨pc₃, stack₃⟩ := step_ret returns₂ stack₂
  have runs₃ := runs₂.step returns₂ rfl rfl
  have behind : m.step.step.step.pc = 0x206 := by
    rw [pc₃, pc₁]
    rfl
  refine ⟨calls, ⟨?_, ?_, ?_⟩, runs₃.executed? (behind ▸ back), ?_⟩
  all_goals simp only [move, run, List.foldl, Along, stack₁, stack₂, stack₃, List.length_cons]
  all_goals omega

theorem executed?_at_ret {m : Machine} (runs : Runs nested m) :
    { m with pc := 0x206 }.executed? = some .ret := by
  have here : Runs nested { m with pc := 0x206 } := ⟨runs.awaited, runs.ram⟩
  exact here.executed? instruction?_nested.2.2.1

theorem call_return_nested :
    let m := loaded nested
    let past : List Move := [.step, .step]
    let uncalled := { m with pc := 0x206 }
    (m.executed? = some (.call 0x204) ∧ m.step.Avoids Renews past ∧
      Along (fun s => m.memory.stack.length < s.memory.stack.length) m.step past ∧
      (m.step.run past).executed? = some .ret ∧
      (m.step.run past).memory.stack.length = m.memory.stack.length + 1 ∧
      (m.step.run past).step.pc = m.pc + 2 ∧
      (m.step.run past).step.memory.stack = m.memory.stack) ∧
    (¬m.Renews .endFrame ∧
      ((m.move .endFrame).memory.stack = m.memory.stack ∨
        Move.endFrame = .step ∧ (m.executed? = some .ret ∨ ∃ a, m.executed? = some (.call a)))) ∧
    (uncalled.executed? = some .ret ∧ uncalled.memory.stack = [] ∧ uncalled.step.pc = 0) := by
  intro m past uncalled
  have start : (fresh default).JustLoaded nested m := justLoaded_load ..
  clear_value m
  obtain ⟨calls, deeper, returns, depth⟩ := nested_run start.runs start.pc
  have goesOn : m.step.Avoids Renews past := ⟨id, id, trivial⟩
  have uncalled_returns : uncalled.executed? = some .ret := executed?_at_ret start.runs
  refine ⟨⟨calls, goesOn, deeper, returns, depth, ?_⟩, ⟨id, ?_⟩, uncalled_returns, start.stack, ?_⟩
  · exact call_return.1 calls goesOn deeper returns depth
  · exact call_return.2.1 id
  · exact (call_return.2.2 uncalled_returns start.stack).1

end Machine

end XoChip
