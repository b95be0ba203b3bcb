import Mathlib.Data.List.Induction
import XoChip.Proofs.History
import XoChip.Proofs.Step

/-!
Sprites that wait for the end of a frame. While the dialect makes them wait, a wait belongs to the
sprite execution stands at (`owned_along`), it goes back to a step that held this sprite
(`exists_held`), and it is over once the sprite is drawn. Main statement: `sprite_protocol`.
-/

namespace XoChip

def Instruction.isSprite : Instruction → Bool
  | .sprite _ _ _ => true
  | _ => false

namespace Machine

/-- Execution stands at a sprite. -/
def atSprite (m : Machine) : Bool :=
  m.next?.any Instruction.isSprite

/-- The next step attempts to draw a sprite. -/
def attempts (m : Machine) : Bool :=
  !m.waiting && m.atSprite

/-- The next step attempts to draw a sprite and does not get past it. -/
def holds (m : Machine) : Bool :=
  m.attempts && m.step.pc == m.pc

/-- The next step attempts to draw a sprite and gets past it. -/
def draws (m : Machine) : Bool :=
  m.attempts && m.step.pc != m.pc

/-- A wait belongs to the sprite execution stands at, in a dialect that makes sprites wait. -/
def Owned (m : Machine) : Prop :=
  m.frameWait ≠ .idle → m.dialect.vblank = true ∧ m.atSprite = true

/-! ## The attempt -/

theorem atSprite_of_next? {m : Machine} {x y : Register} {n : Fin 16}
    (h : m.next? = some (.sprite x y n)) : m.atSprite = true := by
  simp only [atSprite, h, Option.any_some, Instruction.isSprite]

theorem exists_sprite {m : Machine} (h : m.atSprite = true) :
    ∃ x y n, m.next? = some (.sprite x y n) := by
  obtain ⟨i, next, sprite⟩ := (Option.any_eq_true _ _).mp h
  cases i with
  | sprite x y n => exact ⟨x, y, n, next⟩
  | _ => cases sprite

theorem not_atSprite {m : Machine} {i : Instruction} (h : m.next? = some i)
    (other : i.isSprite = false) : m.atSprite = false := by
  simp only [atSprite, h, Option.any_some, other]

theorem add_two_ne (a : Word) : a + 2 ≠ a := by
  intro h
  have := congrArg UInt16.toNat h
  simp only [UInt16.toNat_add, UInt16.reduceToNat] at this
  omega

/-- What an attempt comes to. A sprite that is held changes nothing but the word read last, the
count of instructions, the wait, the disassembly and the log. -/
inductive Attempt (m : Machine) : Prop
  | held (hold : m.holdsSprites = true) (holds : m.holds = true) (draws : m.draws = false)
      (same : m.step =
        { m with
          latch := m.memory.word m.pc
          cycles := m.cycles + 1
          frameWait := .pending
          disassembly := m.disassembly.visit m.memory m.pc
          monitor := { m.monitor with log := m.step.monitor.log } })
  | drawn (hold : m.holdsSprites = false) (holds : m.holds = false) (draws : m.draws = true)
      (x y : Register) (n : Fin 16) (next : m.next? = some (.sprite x y n))
      (display : m.step.display = (m.drawSprite x y n).display)
      (v : m.step.v = (m.drawSprite x y n).v)
      (frameWait : m.step.frameWait = if m.dialect.vblank then .idle else m.frameWait)

theorem attempt {m : Machine} (h : m.attempts = true) : m.Attempt := by
  have awaited : m.waiting = false := by
    simpa using (Bool.and_eq_true_iff.mp h).1
  obtain ⟨x, y, n, next⟩ := exists_sprite (Bool.and_eq_true_iff.mp h).2
  cases m.course with
  | holds x y n _ _ hold log same =>
    have pc : m.step.pc = m.pc := by rw [same]
    have written : m.step.monitor.log = log := by rw [same]
    refine .held hold ?_ ?_ (by rw [written]; exact same)
    · simp only [holds, h, pc, beq_self_eq_true, Bool.and_self]
    · simp only [draws, h, pc, bne_self_eq_false, Bool.and_false]
  | draws x y n next _ hold pc display v halted waiting frameWait =>
    have moved : m.step.pc ≠ m.pc := by
      rw [pc]
      exact add_two_ne m.pc
    refine .drawn hold ?_ ?_ x y n next display v frameWait
    · simp only [holds, h, beq_eq_false_iff_ne.mpr moved, Bool.and_false]
    · simp only [draws, h, bne_iff_ne.mpr moved, Bool.and_self]
  | waits waiting => cases awaited ▸ waiting
  | exits other => cases next ▸ other
  | asks z other => cases next ▸ other
  | goes other => cases other _ next

/-- What a sprite comes to that is drawn at once. -/
structure Drawn (m : Machine) (x y : Register) (n : Fin 16) : Prop where
  display : m.step.display = (m.drawSprite x y n).display
  v : m.step.v = (m.drawSprite x y n).v
  pc : m.step.pc = m.pc + 2
  memory : m.step.memory = m.memory
  awaited : m.step.waiting = false

theorem drawn_of_free {m : Machine} {x y : Register} {n : Fin 16} (awaited : m.waiting = false)
    (next : m.next? = some (.sprite x y n)) (free : m.holdsSprites = false) : m.Drawn x y n := by
  constructor <;> rw [step_of_free awaited next free]
  exact awaited

theorem attempts_of_holds {m : Machine} (h : m.holds = true) : m.attempts = true :=
  (Bool.and_eq_true_iff.mp h).1

theorem attempts_of_draws {m : Machine} (h : m.draws = true) : m.attempts = true :=
  (Bool.and_eq_true_iff.mp h).1

theorem attempts_of_awake {m : Machine} (awake : m.awake = true) (h : m.atSprite = true) :
    m.attempts = true := by
  simp_all [attempts, Processor.awake]

theorem holds_of_attempts {m : Machine} (h : m.attempts = true) (hold : m.holdsSprites = true) :
    m.holds = true := by
  cases attempt h with
  | held _ holds => exact holds
  | drawn draws => cases draws ▸ hold

theorem ready_of_draws {m : Machine} (vblank : m.dialect.vblank = true) (h : m.draws = true) :
    m.frameWait = .ready := by
  cases attempt (attempts_of_draws h) with
  | held _ _ draws => cases draws ▸ h
  | drawn hold => simpa [Processor.holdsSprites, vblank] using hold

theorem idle_of_draws {m : Machine} (vblank : m.dialect.vblank = true) (h : m.draws = true) :
    m.step.frameWait = .idle := by
  cases attempt (attempts_of_draws h) with
  | held _ _ draws => cases draws ▸ h
  | drawn _ _ _ _ _ _ _ _ _ frameWait => simpa only [vblank, ↓reduceIte] using frameWait

theorem pending_of_holds {m : Machine} (h : m.holds = true) :
    m.step.frameWait = .pending ∧ m.step.pc = m.pc ∧ m.step.next? = m.next? := by
  cases attempt (attempts_of_holds h) with
  | held _ _ _ same =>
    rw [same]
    exact ⟨rfl, rfl, rfl⟩
  | drawn _ holds => cases holds ▸ h

theorem step_of_holds {m : Machine} (h : m.holds = true) :
    m.step =
      { m with
        latch := m.memory.word m.pc
        cycles := m.cycles + 1
        frameWait := .pending
        disassembly := m.disassembly.visit m.memory m.pc
        monitor := { m.monitor with log := m.step.monitor.log } } := by
  cases attempt (attempts_of_holds h) with
  | held _ _ _ same => exact same
  | drawn _ holds => cases holds ▸ h

theorem sprite_of_draws {m : Machine} (h : m.draws = true) :
    ∃ x y n, m.next? = some (.sprite x y n) ∧
      m.step.display = (m.drawSprite x y n).display ∧ m.step.v = (m.drawSprite x y n).v := by
  cases attempt (attempts_of_draws h) with
  | held _ _ draws => cases draws ▸ h
  | drawn _ _ _ x y n next display v => exact ⟨x, y, n, next, display, v⟩

/-! ## A wait from move to move -/

theorem next?_congr {m m' : Machine} (pc : m'.pc = m.pc) (memory : m'.memory = m.memory) :
    m'.next? = m.next? := by
  simp only [next?, pc, memory]

theorem apply_load (m : Machine) (source : Source) :
    m.apply (.load source) = m ∨
      ∃ rom, m.apply (.load source) = { m.start rom with romPath := none } := by
  simp only [apply, load]
  cases Rom.ofSource? source with
  | error e => exact .inl rfl
  | ok rom => exact .inr ⟨rom, rfl⟩

theorem apply_loadFile (m : Machine) (path : String) :
    m.apply (.loadFile path) = m ∨
      ∃ rom, m.apply (.loadFile path) =
        { m.start rom with romPath := some path }.notify (.running path) := by
  simp only [apply, loadFile]
  split
  · exact .inl rfl
  · rename_i bytes _
    cases Rom.ofSource? ⟨bytes, none⟩ with
    | error e => exact .inl rfl
    | ok rom => exact .inr ⟨rom, rfl⟩

theorem pressKey_eq (p : Processor) (key : UInt8) :
    p.pressKey key = { p with v := (p.pressKey key).v, keyWait := (p.pressKey key).keyWait } := by
  unfold Processor.pressKey
  split <;> rfl

theorem findBreakpoint_eq (m : Machine) :
    m.findBreakpoint.2 = { m with monitor := m.findBreakpoint.2.monitor } := by
  unfold findBreakpoint
  split <;> rfl

/-- What the host does to a wait: nothing, unless it ends it. -/
theorem apply_frameWait (m : Machine) {o : Operation} (quiet : o.runs = false) :
    (m.apply o).frameWait = .idle ∨
      (m.apply o).frameWait = m.frameWait ∧ (m.apply o).pc = m.pc ∧
        (m.apply o).memory = m.memory := by
  cases o with
  | step | tick | frame => cases quiet
  | load source =>
    rcases m.apply_load source with h | ⟨rom, h⟩ <;> rw [h]
    · exact .inr ⟨rfl, rfl, rfl⟩
    · exact .inl rfl
  | loadFile path =>
    rcases m.apply_loadFile path with h | ⟨rom, h⟩ <;> rw [h]
    · exact .inr ⟨rfl, rfl, rfl⟩
    · exact .inl rfl
  | reset | unload | setHalted => exact .inl rfl
  | pressKey key =>
    rw [apply, pressKey_eq]
    exact .inr ⟨rfl, rfl, rfl⟩
  | findBreakpoint =>
    rw [apply, findBreakpoint_eq]
    exact .inr ⟨rfl, rfl, rfl⟩
  | _ => exact .inr ⟨rfl, rfl, rfl⟩

/-- What becomes of a wait in a move. -/
inductive WaitAfter (m : Machine) (mv : Move) : Prop
  /-- No sprite waits any more. -/
  | ends (idle : (m.move mv).frameWait = .idle)
  /-- A sprite is held while none waits. -/
  | begins (idle : m.frameWait = .idle) (step : mv = .step) (holds : m.holds = true)
      (pending : (m.move mv).frameWait = .pending)
      (pc : (m.move mv).pc = m.pc) (next : (m.move mv).next? = m.next?)
  /-- The wait goes on. -/
  | lasts (same : (m.move mv).frameWait = m.frameWait)
      (pc : (m.move mv).pc = m.pc) (next : (m.move mv).next? = m.next?)
  /-- The frame ends. -/
  | ripens (pending : m.frameWait = .pending) (endFrame : mv = .endFrame)
      (ready : (m.move mv).frameWait = .ready)
      (pc : (m.move mv).pc = m.pc) (next : (m.move mv).next? = m.next?)

/-- Where no sprite is attempted, a step cannot keep a wait without standing still. -/
theorem step_of_not_attempts {m : Machine} (owned : m.Owned) (h : m.attempts = false) :
    m.step = m ∨ m.step.frameWait = .idle := by
  have passed (other : m.atSprite = false) (same : m.step.frameWait = m.frameWait) :
      m.step.frameWait = .idle := by
    by_cases idle : m.frameWait = .idle
    · rw [same, idle]
    · cases other ▸ (owned idle).2
  cases m.course with
  | waits _ same => exact .inl same
  | exits _ _ idle => exact .inr idle
  | asks x next _ _ frameWait => exact .inr (passed (not_atSprite next rfl) frameWait)
  | holds x y n next awaited => simp [attempts, awaited, atSprite_of_next? next] at h
  | draws x y n next awaited => simp [attempts, awaited, atSprite_of_next? next] at h
  | goes next _ _ frameWait =>
    refine .inr (passed ?_ frameWait)
    cases here : m.atSprite with
    | false => rfl
    | true =>
      obtain ⟨x, y, n, sprite⟩ := exists_sprite here
      cases next _ sprite

theorem waitAfter_step {m : Machine} (owned : m.Owned) : m.WaitAfter .step := by
  cases h : m.attempts with
  | false =>
    rcases step_of_not_attempts owned h with same | idle
    · refine .lasts ?_ ?_ ?_ <;> rw [move, same]
    · exact .ends idle
  | true =>
    cases attempt h with
    | held hold holds =>
      obtain ⟨pending, pc, next⟩ := pending_of_holds holds
      by_cases idle : m.frameWait = .idle
      · exact .begins idle rfl holds pending pc next
      · refine .lasts (pending.trans ?_) pc next
        cases waits : m.frameWait with
        | idle => exact absurd waits idle
        | pending => rfl
        | ready => simp [Processor.holdsSprites, waits] at hold
    | drawn _ _ _ _ _ _ _ _ _ frameWait =>
      refine .ends (frameWait.trans ?_)
      split
      · rfl
      · rename_i patient
        cases waits : m.frameWait with
        | idle => rfl
        | pending | ready => exact absurd (owned (by simp [waits])).1 patient

theorem waitAfter_move {m : Machine} (owned : m.Owned) (mv : Move) : m.WaitAfter mv := by
  cases mv with
  | step => exact waitAfter_step owned
  | stop b => exact .ends rfl
  | endFrame =>
    by_cases pending : m.frameWait = .pending
    · refine .ripens pending rfl ?_ ?_ ?_ <;>
        simp only [move, Processor.endFrame, pending, ↓reduceIte]
      rfl
    · refine .lasts ?_ ?_ ?_ <;>
        simp only [move, Processor.endFrame, pending, ↓reduceIte]
  | host o quiet =>
    rcases m.apply_frameWait quiet with idle | ⟨same, pc, memory⟩
    · exact .ends idle
    · exact .lasts same pc (next?_congr pc memory)
  | files fs => exact .lasts rfl rfl rfl

theorem owned_move {m : Machine} (owned : m.Owned) (mv : Move)
    (vblank : (m.move mv).frameWait ≠ .idle → (m.move mv).dialect.vblank = true) :
    (m.move mv).Owned := by
  intro waits
  refine ⟨vblank waits, ?_⟩
  cases waitAfter_move owned mv with
  | ends idle => exact absurd idle waits
  | begins _ _ holds _ _ next =>
    rw [atSprite, next]
    exact (Bool.and_eq_true_iff.mp (attempts_of_holds holds)).2
  | lasts same _ next =>
    rw [atSprite, next]
    exact (owned (same ▸ waits)).2
  | ripens pending _ _ _ next =>
    rw [atSprite, next]
    exact (owned (by simp [pending])).2

theorem ready_move {m : Machine} (owned : m.Owned) {mv : Move} (before : m.frameWait ≠ .ready)
    (ready : (m.move mv).frameWait = .ready) : mv = .endFrame := by
  cases waitAfter_move owned mv with
  | ends idle => cases idle ▸ ready
  | begins _ _ _ pending => cases pending ▸ ready
  | lasts same => exact absurd (same ▸ ready) before
  | ripens _ endFrame => exact endFrame

/-! ## A wait over many moves -/

/-- Waits stay owned as long as no dialect that makes no sprite wait comes upon one. -/
theorem owned_along {m : Machine} {ms : List Move} (owned : m.Owned)
    (vblank : Along (fun s => s.frameWait ≠ .idle → s.dialect.vblank = true) m ms) :
    Along Owned m ms := by
  induction ms generalizing m with
  | nil => exact owned
  | cons mv ms ih => exact ⟨owned, ih (owned_move owned mv vblank.2.start) vblank.2⟩

/-- A sprite was held while none waited, and execution has stood before it since. -/
structure HeldSince (m : Machine) (before wait : List Move) : Prop where
  idle : (m.run before).frameWait = .idle
  held : (m.run before).holds = true
  stands :
    Along (fun s => s.frameWait ≠ .idle ∧ s.pc = (m.run before).pc ∧
      s.next? = (m.run before).next?) (m.run before).step wait

theorem HeldSince.concat {m : Machine} {before wait : List Move} {mv : Move}
    (h : m.HeldSince before wait)
    (waits : ((m.run (before ++ .step :: wait)).move mv).frameWait ≠ .idle)
    (pc : ((m.run (before ++ .step :: wait)).move mv).pc = (m.run (before ++ .step :: wait)).pc)
    (next : ((m.run (before ++ .step :: wait)).move mv).next? =
      (m.run (before ++ .step :: wait)).next?) :
    m.HeldSince before (wait ++ [mv]) := by
  have here : m.run (before ++ .step :: wait) = (m.run before).step.run wait := by
    rw [run_append]
    rfl
  rw [here] at waits pc next
  obtain ⟨-, pc', next'⟩ := h.stands.last
  exact { h with stands := along_concat.mpr ⟨h.stands, waits, pc.trans pc', next.trans next'⟩ }

/-- A wait goes back to a step that held the sprite, and it is ripe only if a frame has ended
since. -/
theorem exists_held {m : Machine} {ms : List Move} (idle : m.frameWait = .idle)
    (owned : Along Owned m ms) (waits : (m.run ms).frameWait ≠ .idle) :
    ∃ before wait, ms = before ++ .step :: wait ∧ m.HeldSince before wait ∧
      ((m.run ms).frameWait = .ready → .endFrame ∈ wait) := by
  -- By induction on the moves from the last one back: it begins the wait or carries it on.
  induction ms using List.reverseRecOn with
  | nil => exact absurd idle waits
  | append_singleton ms mv ih =>
    have earlier := (along_concat.mp owned).1
    have now : m.run (ms ++ [mv]) = (m.run ms).move mv := run_append m ms [mv]
    rw [now] at waits ⊢
    cases waitAfter_move owned.at mv with
    | ends idle => exact absurd idle waits
    | begins idle step holds pending =>
      subst step
      refine ⟨ms, [], rfl, ⟨idle, holds, waits, ?_, ?_⟩, ?_⟩
      · exact (pending_of_holds holds).2.1
      · exact (pending_of_holds holds).2.2
      · intro ready
        cases pending ▸ ready
    | lasts same pc next =>
      obtain ⟨before, wait, rfl, held, ended⟩ := ih earlier (same ▸ waits)
      refine ⟨before, wait ++ [mv], by simp, held.concat waits pc next, ?_⟩
      intro ready
      exact List.mem_append_left _ (ended (same ▸ ready))
    | ripens pending endFrame ready pc next =>
      obtain ⟨before, wait, rfl, held, -⟩ := ih earlier (by simp [pending])
      refine ⟨before, wait ++ [mv], by simp, held.concat waits pc next, ?_⟩
      intro _
      rw [← endFrame]
      exact List.mem_append_right wait List.mem_cons_self

/-! ## How many sprites are drawn -/

/-- How many sprites a move draws. -/
def drawnBy (m : Machine) : Move → Nat
  | .step => m.draws.toNat
  | _ => 0

/-- How many sprites some moves draw. -/
def drawn (m : Machine) : List Move → Nat
  | [] => 0
  | mv :: ms => m.drawnBy mv + (m.move mv).drawn ms

/-- How many sprites a machine may draw before the frame ends. -/
def due (m : Machine) : Nat :=
  if m.frameWait = .ready then 1 else 0

theorem drawnBy_le {m : Machine} (owned : m.Owned) (vblank : m.dialect.vblank = true)
    (mv : Move) :
    m.drawnBy mv + (m.move mv).due ≤ (if mv.endsFrame then 1 else 0) + m.due := by
  by_cases draws : mv = .step ∧ m.draws = true
  · obtain ⟨rfl, draws⟩ := draws
    have idle := idle_of_draws vblank draws
    simp only [drawnBy, due, move, draws, ready_of_draws vblank draws, idle]
    decide
  · have none : m.drawnBy mv = 0 := by
      cases mv with
      | step => simpa [drawnBy] using draws
      | _ => rfl
    rw [none, Nat.zero_add]
    cases waitAfter_move owned mv with
    | ends idle => simp [due, idle]
    | begins _ _ _ pending => simp [due, pending]
    | lasts same => simp [due, same]
    | ripens _ endFrame =>
      subst endFrame
      simp only [due, Move.endsFrame, ↓reduceIte]
      split <;> omega

/-- Every sprite drawn takes the end of a frame. -/
theorem drawn_le {m : Machine} {ms : List Move} (owned : Along Owned m ms)
    (vblank : Along (fun s => s.dialect.vblank = true) m ms) :
    m.drawn ms + (m.run ms).due ≤ ms.countP Move.endsFrame + m.due := by
  induction ms generalizing m with
  | nil => simp [drawn, run]
  | cons mv ms ih =>
    have first := drawnBy_le owned.start vblank.start mv
    have later : (m.move mv).drawn ms + (m.run (mv :: ms)).due ≤
        ms.countP Move.endsFrame + (m.move mv).due := ih owned.2 vblank.2
    rw [drawn, List.countP_cons]
    omega

/-! ## Within a turn -/

theorem not_ready_step {m : Machine} (owned : m.Owned) (awake : m.awake = true) :
    m.step.frameWait ≠ .ready := by
  intro ready
  cases waitAfter_step owned with
  | ends idle => cases idle ▸ ready
  | begins _ _ _ pending => cases pending ▸ ready
  | ripens _ endFrame => cases endFrame
  | lasts same =>
    have before : m.frameWait = .ready := same ▸ ready
    obtain ⟨vblank, sprite⟩ := owned (by simp [before])
    cases attempt (attempts_of_awake awake sprite) with
    | held hold => simp [Processor.holdsSprites, before] at hold
    | drawn _ _ draws => cases idle_of_draws vblank draws ▸ ready

theorem not_ready_run {m : Machine} {ms : List Move} (owned : Along Owned m ms)
    (before : m.frameWait ≠ .ready) (within : ∀ mv ∈ ms, mv.endsFrame = false) :
    (m.run ms).frameWait ≠ .ready := by
  induction ms generalizing m with
  | nil => exact before
  | cons mv ms ih =>
    refine ih owned.2 ?_ fun mv' h => within mv' (List.mem_cons_of_mem mv h)
    intro ready
    cases ready_move owned.start before ready
    cases within _ List.mem_cons_self

/-- A turn draws a sprite with its first instruction or not at all. -/
theorem draws_first {m : Machine} {t : Turn} {past rest : List Move}
    (owned : Along Owned m (m.turnMoves t)) (vblank : (m.run past).dialect.vblank = true)
    (split : m.turnMoves t = past ++ .step :: rest) (draws : (m.run past).draws = true) :
    past = [] := by
  rcases before_step split with first | ⟨awake, later, rfl, within⟩
  · exact first
  · rw [split] at owned
    have held := not_ready_step owned.start awake
    have still := not_ready_run (along_append.mp owned).1.2 held within
    exact absurd (ready_of_draws vblank draws) still

/-! ## The protocol -/

/-- How sprites and the ends of frames follow each other in a history. -/
structure SpriteProtocol (m : Machine) (h : List Turn) : Prop where
  /-- While a sprite waits, execution stands at one. -/
  waits_at_sprite : Along (fun s => s.frameWait ≠ .idle → s.atSprite = true) m (m.history h)
  /-- No sprite is drawn that has not waited. -/
  draws_ready : Along (fun s => s.draws = true → s.frameWait = .ready) m (m.history h)
  /-- Getting past a sprite means to draw it. -/
  draws_sprite :
    Along (fun s => s.draws = true → ∃ x y n, s.next? = some (.sprite x y n) ∧
      s.step.display = (s.drawSprite x y n).display ∧ s.step.v = (s.drawSprite x y n).v)
      m (m.history h)
  /-- What lets a waiting sprite be drawn is the end of a batch that an awake machine played. -/
  ready_last {before : List Turn} {t : Turn} {later : List Turn} {past : List Move} {mv : Move}
    {rest : List Move} (turn : h = before ++ t :: later)
    (split : (m.after before).turnMoves t = past ++ mv :: rest)
    (wait : ((m.after before).run past).frameWait ≠ .ready)
    (ready : (((m.after before).run past).move mv).frameWait = .ready) :
    t.ticks = true ∧ (m.after before).awake = true ∧ rest = []
  /-- A frame has ended since the first attempt to draw a sprite when it is drawn. -/
  draws_after {past rest : List Move} (split : m.history h = past ++ .step :: rest)
    (draws : (m.run past).draws = true) :
    ∃ before wait, past = before ++ .step :: wait ∧ m.HeldSince before wait ∧ .endFrame ∈ wait
  /-- No more sprites are drawn than batches are played. -/
  drawn_le_ticks : m.drawn (m.history h) ≤ h.countP Turn.ticks
  /-- A batch draws a sprite with its first instruction or not at all. -/
  draws_at_start {before : List Turn} {t : Turn} {later : List Turn} {past rest : List Move}
    (turn : h = before ++ t :: later)
    (split : (m.after before).turnMoves t = past ++ .step :: rest)
    (draws : ((m.after before).run past).draws = true) : past = []
  /-- Holding a sprite back changes nothing else. -/
  held_same :
    Along (fun s => s.holds = true → s.step =
      { s with
        latch := s.memory.word s.pc
        cycles := s.cycles + 1
        frameWait := .pending
        disassembly := s.disassembly.visit s.memory s.pc
        monitor := { s.monitor with log := s.step.monitor.log } }) m (m.history h)

/-- **Sprites wait for the end of the frame.** From a machine in which none waits, and as long as
the dialect makes them wait, whatever the host does. -/
theorem sprite_protocol {m : Machine} {h : List Turn} (idle : m.frameWait = .idle)
    (vblank : ∀ past, past <+: h → (m.after past).dialect.vblank = true) :
    m.SpriteProtocol h := by
  have vblank' : Along (fun s => s.dialect.vblank = true) m (m.history h) := by
    apply along_history _ vblank
    intro s mv own vblank
    rw [(s.settings_of_own own).1]
    exact vblank
  have owned : Along Owned m (m.history h) :=
    owned_along (fun waits => absurd idle waits) (vblank'.mono fun _ vblank _ => vblank)
  have ripe {past rest : List Move} (split : m.history h = past ++ .step :: rest)
      (draws : (m.run past).draws = true) : (m.run past).frameWait = .ready :=
    ready_of_draws (Along.at (split ▸ vblank')) draws
  constructor
  case waits_at_sprite => exact owned.mono fun _ owned waits => (owned waits).2
  case draws_ready => exact vblank'.mono fun _ => ready_of_draws
  case draws_sprite => exact vblank'.mono fun _ _ => sprite_of_draws
  case held_same => exact vblank'.mono fun _ _ => step_of_holds
  case ready_last =>
    intro before t later past mv rest turn split wait ready
    subst turn
    have here : ((m.after before).run past).Owned := Along.at (split ▸ owned.turn)
    cases ready_move here wait ready
    exact endFrame_of_turnMoves split
  case draws_after =>
    intro past rest split draws
    have ready := ripe split draws
    have earlier : Along Owned m past := (along_append.mp (split ▸ owned)).1
    obtain ⟨before, wait, rfl, held, ended⟩ := exists_held idle earlier (by simp [ready])
    exact ⟨before, wait, rfl, held, ended ready⟩
  case drawn_le_ticks =>
    have drawn := drawn_le owned vblank'
    have ended := m.countP_history h
    simp only [due, idle, reduceCtorEq, ↓reduceIte] at drawn
    omega
  case draws_at_start =>
    intro before t later past rest turn split draws
    subst turn
    exact draws_first owned.turn (Along.at (split ▸ vblank'.turn)) split draws

/-- A machine that has loaded a sprite, in a dialect that makes it wait. -/
def beforeSprite : Machine :=
  (fresh default).after
    [.operation (.load ⟨#[0xD0, 0x15].toList, none⟩), .operation (.switchAll [.vblank] true)]

theorem beforeSprite_eq :
    beforeSprite =
      { (fresh default).start ⟨#[0xD0, 0x15], by decide⟩ with
        romPath := none
        dialect := { vblank := true } } := by
  have loaded := (fresh default).apply_load_bytes ⟨#[0xD0, 0x15], by decide⟩
  simp only [beforeSprite, after, List.foldl, turn, loaded]
  rfl

theorem awake_beforeSprite : beforeSprite.awake = true := by
  rw [beforeSprite_eq]
  rfl

theorem idle_beforeSprite : beforeSprite.frameWait = .idle := by
  rw [beforeSprite_eq]
  rfl

theorem vblank_beforeSprite : beforeSprite.dialect.vblank = true := by
  rw [beforeSprite_eq]

theorem atSprite_beforeSprite : beforeSprite.atSprite = true := by
  have next : beforeSprite.next? =
      (Memory.ofRom ⟨#[0xD0, 0x15], by decide⟩).instruction? 0x200 := by
    rw [beforeSprite_eq]
    rfl
  rw [Memory.instruction?_ofRom] at next
  rw [atSprite, next]
  decide

theorem holds_beforeSprite : beforeSprite.holds = true := by
  apply holds_of_attempts (attempts_of_awake awake_beforeSprite atSprite_beforeSprite)
  simp [Processor.holdsSprites, vblank_beforeSprite, idle_beforeSprite]

theorem sprite_protocol_beforeSprite :
    beforeSprite.frameWait = .idle ∧ beforeSprite.atSprite = true ∧
    beforeSprite.SpriteProtocol [.operation (.tick 1), .operation (.tick 1)] := by
  refine ⟨idle_beforeSprite, atSprite_beforeSprite, sprite_protocol idle_beforeSprite ?_⟩
  intro past played
  have ticks : ∀ t ∈ past, t.ticks = true := by
    intro t h
    have mem := played.subset h
    simp only [List.mem_cons, List.not_mem_nil, or_false, or_self] at mem
    rw [mem]
    rfl
  rw [dialect_after _ ticks, vblank_beforeSprite]

end Machine

end XoChip
