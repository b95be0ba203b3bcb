import XoChip.Proofs.Step

/-!
Histories: what a host does with a machine, turn by turn, and what happens in the machine meanwhile,
move by move. Main statements: the moves of a history lead where the history leads (`run_history`),
and a property that the machine's own moves keep holds all along if it holds after every turn
(`along_history`).
-/

namespace XoChip

theorem Rom.ofSource?_bytes (rom : Rom) : ofSource? ⟨rom.bytes.toList, none⟩ = .ok rom := by
  simp only [ofSource?, Array.toArray_toList, rom.size_le, ↓reduceDIte]

/-- Whether an operation carries out instructions. -/
def Operation.runs : Operation → Bool
  | .step | .tick _ | .frame => true
  | _ => false

/-- One turn of a history. -/
inductive Turn
  | operation (o : Operation)
  /-- The files change under the machine. -/
  | files (fs : FileSystem)

/-- Whether a turn plays a batch of instructions. -/
def Turn.ticks : Turn → Bool
  | .operation (.tick _) | .operation .frame => true
  | _ => false

/-- One thing that happens to a machine. -/
inductive Move
  | step
  /-- A breakpoint halts the machine. -/
  | stop (b : Breakpoint)
  | endFrame
  /-- A turn that carries out no instruction. -/
  | host (o : Operation) (quiet : o.runs = false)
  | files (fs : FileSystem)

/-- Whether a move comes from the machine itself. -/
def Move.own : Move → Bool
  | .step | .stop _ | .endFrame => true
  | .host _ _ | .files _ => false

def Move.endsFrame : Move → Bool
  | .endFrame => true
  | _ => false

namespace Machine

def move (m : Machine) : Move → Machine
  | .step => m.step
  | .stop b => (m.notify (.reached b.label m.pc)).stopAt b
  | .endFrame => { m with toProcessor := m.toProcessor.endFrame }
  | .host o _ => m.apply o
  | .files fs => { m with files := fs }

def run (m : Machine) (ms : List Move) : Machine :=
  ms.foldl move m

/-- The moves of a batch. -/
def batchMoves (m : Machine) : Nat → List Move
  | 0 => []
  | n + 1 =>
    .step ::
      if !m.step.awake then []
      else if m.step.heldAt m.pc then m.step.batchMoves n
      else
        match m.step.breakpoint? with
        | some b => [.stop b]
        | none => m.step.batchMoves n

def tickMoves (m : Machine) (n : Nat) : List Move :=
  if m.awake then m.batchMoves n ++ [.endFrame] else []

def operationMoves (m : Machine) (o : Operation) : List Move :=
  if quiet : o.runs = false then [.host o quiet]
  else
    match o with
    | .tick n => m.tickMoves n
    | .frame => m.tickMoves m.frameLength
    | _ => [.step]

def turn (m : Machine) : Turn → Machine
  | .operation o => m.apply o
  | .files fs => { m with files := fs }

def turnMoves (m : Machine) : Turn → List Move
  | .operation o => m.operationMoves o
  | .files fs => [.files fs]

/-- The machine after some turns. -/
def after (m : Machine) (h : List Turn) : Machine :=
  h.foldl turn m

/-- A history leads to the machine from a fresh one. -/
def Reachable (m : Machine) : Prop :=
  ∃ random h, (fresh random).after h = m

/-- The moves of some turns. -/
def history (m : Machine) : List Turn → List Move
  | [] => []
  | t :: ts => m.turnMoves t ++ (m.turn t).history ts

/-- Loading the bytes of a program that fits starts it. -/
theorem apply_load_bytes (m : Machine) (rom : Rom) :
    m.apply (.load ⟨rom.bytes.toList, none⟩) = { m.start rom with romPath := none } := by
  simp only [apply, load, Rom.ofSource?_bytes]
  rfl

/-- A machine that has just loaded a program. -/
def loaded (rom : Rom) : Machine :=
  (fresh default).apply (.load ⟨rom.bytes.toList, none⟩)

theorem loaded_eq (rom : Rom) :
    loaded rom = { (fresh default).start rom with romPath := none } :=
  (fresh default).apply_load_bytes rom

theorem run_nil (m : Machine) : m.run [] = m := rfl

theorem run_append (m : Machine) (ms ns : List Move) : m.run (ms ++ ns) = (m.run ms).run ns :=
  List.foldl_append

theorem after_append (m : Machine) (h k : List Turn) : m.after (h ++ k) = (m.after h).after k :=
  List.foldl_append

theorem history_append (m : Machine) (h k : List Turn) :
    m.history (h ++ k) = m.history h ++ (m.after h).history k := by
  induction h generalizing m with
  | nil => rfl
  | cons t ts ih =>
    simp only [List.cons_append, history, ih, List.append_assoc]
    rfl

theorem run_batchMoves (m : Machine) (n : Nat) : m.run (m.batchMoves n) = m.batch n := by
  induction n generalizing m with
  | zero => rfl
  | succ n ih =>
    simp only [batchMoves, batch, findBreakpoint, run, List.foldl_cons, move]
    split
    · rfl
    · split
      · exact ih m.step
      · cases m.step.breakpoint? with
        | some b => rfl
        | none => exact ih m.step

theorem run_tickMoves (m : Machine) (n : Nat) : m.run (m.tickMoves n) = m.tick n := by
  unfold tickMoves tick
  split
  · rw [run_append, run_batchMoves]
    rfl
  · rfl

theorem run_operationMoves (m : Machine) (o : Operation) :
    m.run (m.operationMoves o) = m.apply o := by
  unfold operationMoves
  split
  · rfl
  · cases o with
    | step => rfl
    | tick n => exact m.run_tickMoves n
    | frame => exact m.run_tickMoves m.frameLength
    | _ => contradiction

theorem run_turnMoves (m : Machine) (t : Turn) : m.run (m.turnMoves t) = m.turn t := by
  cases t with
  | operation o => exact m.run_operationMoves o
  | files fs => rfl

theorem run_history (m : Machine) (h : List Turn) : m.run (m.history h) = m.after h := by
  induction h generalizing m with
  | nil => rfl
  | cons t ts ih =>
    rw [history, run_append, run_turnMoves]
    exact ih _

/-! ## Which moves a turn consists of -/

theorem own_batchMoves {m : Machine} {n : Nat} {mv : Move} (h : mv ∈ m.batchMoves n) :
    mv.own = true ∧ mv.endsFrame = false := by
  induction n generalizing m with
  | zero => cases h
  | succ n ih =>
    rw [batchMoves] at h
    rcases List.mem_cons.mp h with rfl | later
    · exact ⟨rfl, rfl⟩
    · split at later
      · cases later
      · split at later
        · exact ih later
        · split at later
          · cases List.mem_singleton.mp later
            exact ⟨rfl, rfl⟩
          · exact ih later

theorem own_tickMoves {m : Machine} {n : Nat} {mv : Move} (h : mv ∈ m.tickMoves n) :
    mv.own = true := by
  unfold tickMoves at h
  split at h
  · rcases List.mem_append.mp h with batch | last
    · exact (own_batchMoves batch).1
    · cases List.mem_singleton.mp last
      rfl
  · cases h

theorem own_operationMoves {m : Machine} {o : Operation} {mv : Move} (runs : o.runs = true)
    (h : mv ∈ m.operationMoves o) : mv.own = true := by
  unfold operationMoves at h
  rw [dif_neg (by simp [runs])] at h
  cases o with
  | step =>
    cases List.mem_singleton.mp h
    rfl
  | tick | frame => exact own_tickMoves h
  | _ => cases runs

theorem countP_tickMoves (m : Machine) (n : Nat) :
    (m.tickMoves n).countP Move.endsFrame ≤ 1 := by
  unfold tickMoves
  split
  · have none : (m.batchMoves n).countP Move.endsFrame = 0 := by
      apply List.countP_eq_zero.mpr
      intro mv h
      simp [(own_batchMoves h).2]
    simp [List.countP_append, none, List.countP_cons]
    split <;> omega
  · exact Nat.zero_le 1

/-- Only a turn that plays a batch ends a frame, and it ends one at most. -/
theorem countP_turnMoves (m : Machine) (t : Turn) :
    (m.turnMoves t).countP Move.endsFrame ≤ if t.ticks then 1 else 0 := by
  cases t with
  | files => exact Nat.le_refl 0
  | operation o =>
    cases o with
    | tick n => exact m.countP_tickMoves n
    | frame => exact m.countP_tickMoves m.frameLength
    | _ => exact Nat.le_refl 0

theorem countP_history (m : Machine) (h : List Turn) :
    (m.history h).countP Move.endsFrame ≤ h.countP Turn.ticks := by
  induction h generalizing m with
  | nil => exact Nat.le_refl 0
  | cons t ts ih =>
    have first := m.countP_turnMoves t
    have later := ih (m.turn t)
    rw [history, List.countP_append, List.countP_cons]
    omega

theorem split_singleton {mv mv' : Move} {past rest : List Move}
    (h : [mv] = past ++ mv' :: rest) : past = [] ∧ mv = mv' := by
  cases past with
  | nil => exact ⟨rfl, (List.cons.inj h).1⟩
  | cons first past => cases past <;> cases h

/-- A frame ends with a turn that plays a batch, if the machine is awake when it begins. -/
theorem endFrame_of_turnMoves {m : Machine} {t : Turn} {past rest : List Move}
    (h : m.turnMoves t = past ++ .endFrame :: rest) :
    t.ticks = true ∧ m.awake = true ∧ rest = [] := by
  have ticked {n : Nat} (h : m.tickMoves n = past ++ .endFrame :: rest) :
      m.awake = true ∧ rest = [] := by
    unfold tickMoves at h
    split at h
    · rename_i awake
      refine ⟨awake, ?_⟩
      obtain ⟨tail, rfl, last⟩ | ⟨tail, batch, last⟩ := List.append_eq_append_iff.mp h
      · cases tail with
        | nil => exact (List.cons.inj last).2.symm
        | cons mv tail => cases tail <;> cases last
      · cases tail with
        | nil => exact (List.cons.inj last).2
        | cons mv later =>
          have mem : Move.endFrame ∈ m.batchMoves n := by
            rw [batch, (List.cons.inj last).1]
            exact List.mem_append_right past List.mem_cons_self
          cases (own_batchMoves mem).2
    · cases past <;> cases h
  cases t with
  | files fs => cases (split_singleton h).2
  | operation o =>
    cases o with
    | tick n => exact ⟨rfl, ticked h⟩
    | frame => exact ⟨rfl, ticked h⟩
    | _ => cases (split_singleton h).2

/-- A step of a tick is a step of its batch. -/
theorem step_of_tickMoves {m : Machine} {n : Nat} {past rest : List Move}
    (h : m.tickMoves n = past ++ .step :: rest) :
    m.awake = true ∧ ∃ later, rest = later ++ [.endFrame] ∧
      m.batchMoves n = past ++ .step :: later := by
  unfold tickMoves at h
  split at h
  · rename_i awake
    refine ⟨awake, ?_⟩
    obtain ⟨tail, -, last⟩ | ⟨tail, batch, last⟩ := List.append_eq_append_iff.mp h
    · cases tail <;> simp at last
    · cases tail with
      | nil => cases last
      | cons mv later =>
        obtain ⟨rfl, rfl⟩ := List.cons.inj last
        exact ⟨later, rfl, batch⟩
  · cases past <;> cases h

/-- What comes before a step of a turn starts with a step, and no frame ends in it. -/
theorem before_step {m : Machine} {t : Turn} {past rest : List Move}
    (h : m.turnMoves t = past ++ .step :: rest) :
    past = [] ∨
      m.awake = true ∧ ∃ later, past = .step :: later ∧ ∀ mv ∈ later, mv.endsFrame = false := by
  have ticked {n : Nat} (h : m.tickMoves n = past ++ .step :: rest) :
      past = [] ∨
        m.awake = true ∧ ∃ later, past = .step :: later ∧ ∀ mv ∈ later, mv.endsFrame = false := by
    obtain ⟨awake, later, rfl, batch⟩ := step_of_tickMoves h
    cases past with
    | nil => exact .inl rfl
    | cons mv past =>
      refine .inr ⟨awake, past, ?_, fun mv' h' => ?_⟩
      · cases n with
        | zero => cases batch
        | succ n => cases (List.cons.inj batch).1; rfl
      · have mem : mv' ∈ m.batchMoves n := by
          rw [batch]
          exact List.mem_append_left _ (List.mem_cons_of_mem mv h')
        exact (own_batchMoves mem).2
  cases t with
  | files fs => exact .inl (split_singleton h).1
  | operation o =>
    cases o with
    | tick n => exact ticked h
    | frame => exact ticked h
    | _ => exact .inl (split_singleton h).1

/-- The machine's own moves leave the dialect and the breakpoints to the host. -/
theorem settings_of_own (m : Machine) {mv : Move} (own : mv.own = true) :
    (m.move mv).dialect = m.dialect ∧ (m.move mv).breakpoints = m.breakpoints := by
  cases mv with
  | step => exact ⟨m.step_sameSettings.dialect, m.step_sameSettings.breakpoints⟩
  | stop b => exact ⟨rfl, rfl⟩
  | endFrame =>
    simp only [move, Processor.endFrame]
    split <;> exact ⟨rfl, rfl⟩
  | host | files => cases own

theorem settings_run (m : Machine) {ms : List Move} (own : ∀ mv ∈ ms, mv.own = true) :
    (m.run ms).dialect = m.dialect ∧ (m.run ms).breakpoints = m.breakpoints := by
  induction ms generalizing m with
  | nil => exact ⟨rfl, rfl⟩
  | cons mv ms ih =>
    obtain ⟨dialect, breakpoints⟩ := m.settings_of_own (own mv List.mem_cons_self)
    obtain ⟨dialect', breakpoints'⟩ := ih (m.move mv) fun mv' h =>
      own mv' (List.mem_cons_of_mem mv h)
    exact ⟨dialect'.trans dialect, breakpoints'.trans breakpoints⟩

theorem settings_apply (m : Machine) {o : Operation} (runs : o.runs = true) :
    (m.apply o).dialect = m.dialect ∧ (m.apply o).breakpoints = m.breakpoints := by
  rw [← run_operationMoves]
  exact m.settings_run fun _ => own_operationMoves runs

/-- The dialect stays as it is as long as only batches are played. -/
theorem dialect_after (m : Machine) {h : List Turn} (ticks : ∀ t ∈ h, t.ticks = true) :
    (m.after h).dialect = m.dialect := by
  induction h generalizing m with
  | nil => rfl
  | cons t ts ih =>
    have first : (m.turn t).dialect = m.dialect := by
      cases t with
      | files fs => rfl
      | operation o =>
        have runs : o.runs = true := by
          have := ticks _ List.mem_cons_self
          cases o <;> first | rfl | cases this
        exact (m.settings_apply runs).1
    exact (ih (m.turn t) fun t' h => ticks t' (List.mem_cons_of_mem t h)).trans first

/-! ## Properties on the way -/

/-- A property holds before, between and after some moves. -/
def Along (P : Machine → Prop) (m : Machine) : List Move → Prop
  | [] => P m
  | mv :: ms => P m ∧ Along P (m.move mv) ms

section
variable {P : Machine → Prop} {m : Machine}

theorem Along.start {ms : List Move} (h : Along P m ms) : P m := by
  cases ms with
  | nil => exact h
  | cons => exact h.1

theorem along_append {ms ns : List Move} :
    Along P m (ms ++ ns) ↔ Along P m ms ∧ Along P (m.run ms) ns := by
  induction ms generalizing m with
  | nil => exact ⟨fun h => ⟨h.start, h⟩, fun h => h.2⟩
  | cons mv ms ih =>
    constructor
    · rintro ⟨first, later⟩
      exact ⟨⟨first, (ih.mp later).1⟩, (ih.mp later).2⟩
    · rintro ⟨⟨first, later⟩, rest⟩
      exact ⟨first, ih.mpr ⟨later, rest⟩⟩

theorem Along.at {past rest : List Move} (h : Along P m (past ++ rest)) : P (m.run past) :=
  (along_append.mp h).2.start

theorem Along.last {ms : List Move} (h : Along P m ms) : P (m.run ms) :=
  Along.at ((List.append_nil ms).symm ▸ h)

theorem along_concat {ms : List Move} {mv : Move} :
    Along P m (ms ++ [mv]) ↔ Along P m ms ∧ P ((m.run ms).move mv) := by
  rw [along_append]
  constructor
  · rintro ⟨past, -, last⟩
    exact ⟨past, last⟩
  · rintro ⟨past, last⟩
    exact ⟨past, past.last, last⟩

theorem Along.mono {Q : Machine → Prop} {ms : List Move} (h : Along P m ms)
    (weaker : ∀ s, P s → Q s) : Along Q m ms := by
  induction ms generalizing m with
  | nil => exact weaker m h
  | cons mv ms ih => exact ⟨weaker m h.1, ih h.2⟩

theorem Along.and {Q : Machine → Prop} {ms : List Move} (h : Along P m ms) (h' : Along Q m ms) :
    Along (fun s => P s ∧ Q s) m ms := by
  induction ms generalizing m with
  | nil => exact ⟨h, h'⟩
  | cons mv ms ih => exact ⟨⟨h.1, h'.1⟩, ih h.2 h'.2⟩

/-- What every move keeps holds all along. -/
theorem along_of_kept (keeps : ∀ m mv, P m → P (m.move mv)) (h : P m) (ms : List Move) :
    Along P m ms := by
  induction ms generalizing m with
  | nil => exact h
  | cons mv ms ih => exact ⟨h, ih (keeps m mv h)⟩

theorem along_of_own (keeps : ∀ m mv, mv.own = true → P m → P (m.move mv)) {ms : List Move}
    (own : ∀ mv ∈ ms, mv.own = true) (h : P m) : Along P m ms := by
  induction ms generalizing m with
  | nil => exact h
  | cons mv ms ih =>
    have first := own mv List.mem_cons_self
    exact ⟨h, ih (fun mv' h' => own mv' (List.mem_cons_of_mem mv h')) (keeps m mv first h)⟩

theorem along_turnMoves (keeps : ∀ m mv, mv.own = true → P m → P (m.move mv)) {t : Turn}
    (h : P m) (h' : P (m.turn t)) : Along P m (m.turnMoves t) := by
  cases t with
  | files fs => exact ⟨h, h'⟩
  | operation o =>
    cases runs : o.runs with
    | true => exact along_of_own keeps (fun mv => own_operationMoves runs) h
    | false =>
      simp only [turnMoves, operationMoves, runs, ↓reduceDIte]
      exact ⟨h, h'⟩

/-- What holds after every turn and is kept by the machine's own moves holds all along. -/
theorem along_history (keeps : ∀ m mv, mv.own = true → P m → P (m.move mv)) {h : List Turn}
    (turns : ∀ past, past <+: h → P (m.after past)) : Along P m (m.history h) := by
  induction h generalizing m with
  | nil => exact turns [] (List.nil_prefix)
  | cons t ts ih =>
    refine along_append.mpr ⟨?_, ?_⟩
    · exact along_turnMoves keeps (turns [] List.nil_prefix)
        (turns [t] (List.prefix_append [t] ts))
    · rw [run_turnMoves]
      apply ih
      intro past later
      exact turns (t :: past) (List.cons_prefix_cons.mpr ⟨rfl, later⟩)

theorem Along.turn {before : List Turn} {t : Turn} {later : List Turn}
    (h : Along P m (m.history (before ++ t :: later))) :
    Along P (m.after before) ((m.after before).turnMoves t) := by
  rw [history_append, along_append, run_history, history, along_append] at h
  exact h.2.1

end

/-! ## Conditions on steps -/

/-- A condition is met whenever one of some moves is a step. -/
def AtSteps (P : Machine → Prop) (m : Machine) : List Move → Prop
  | [] => True
  | mv :: ms => (mv = .step → P m) ∧ AtSteps P (m.move mv) ms

section
variable {P : Machine → Prop} {m : Machine}

theorem atSteps_append {ms ns : List Move} :
    AtSteps P m (ms ++ ns) ↔ AtSteps P m ms ∧ AtSteps P (m.run ms) ns := by
  induction ms generalizing m with
  | nil => exact ⟨fun h => ⟨trivial, h⟩, fun h => h.2⟩
  | cons mv ms ih => exact (and_congr_right fun _ => ih).trans and_assoc.symm

theorem atSteps_of_forall (always : ∀ s, P s) (ms : List Move) : AtSteps P m ms := by
  induction ms generalizing m with
  | nil => trivial
  | cons mv ms ih => exact ⟨fun _ => always m, ih⟩

end

end Machine

end XoChip
