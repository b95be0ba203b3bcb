import XoChip.Proofs.Lockstep
import XoChip.Proofs.Unseen

/-!
Batches in a row. A batch cut in two stops where the whole one stops (`batchMoves_add`), and the end
of a frame in between is noticed by no one while the dialect makes no sprite wait for it
(`Ripened`). Main statement: `tick_tick`.
-/

namespace XoChip.Machine

/-! ## A batch cut in two -/

section
variable {m : Machine}

theorem batchMoves_add (awake : m.awake = true) (a b : Nat) :
    m.batchMoves (a + b) =
      m.batchMoves a ++ if (m.batch a).awake then (m.batch a).batchMoves b else [] := by
  -- By induction on the first part: what ends it before the cut ends the whole batch.
  induction a generalizing m with
  | zero =>
    rw [Nat.zero_add, batch, if_pos awake]
    rfl
  | succ a ih =>
    rw [Nat.succ_add, batchMoves, batchMoves, List.cons_append, batch]
    refine congrArg (Move.step :: ·) ?_
    cases stepped : m.step.awake with
    | false => simp [stepped]
    | true =>
      simp only [Bool.not_true, Bool.false_eq_true, ↓reduceIte, findBreakpoint]
      split
      · exact ih stepped
      · cases m.step.breakpoint? with
        | some b => rfl
        | none => exact ih stepped

theorem batch_add (awake : m.awake = true) (a b : Nat) :
    m.batch (a + b) = if (m.batch a).awake then (m.batch a).batch b else m.batch a := by
  rw [← run_batchMoves, batchMoves_add awake, run_append, run_batchMoves]
  split
  · exact run_batchMoves _ b
  · rfl

end

/-! ## The end of a frame in between -/

/-- Two machines are alike but for a wait that is over on the second one, in a dialect that makes no
sprite wait. -/
structure Ripened (m m' : Machine) : Prop where
  free : m.dialect.vblank = false
  same : m' = m ∨ m.frameWait = .pending ∧ m' = { m with frameWait := .ready }

section
variable {m m' : Machine}

theorem ripened_endFrame (free : m.dialect.vblank = false) :
    m.Ripened (m.move .endFrame) := by
  refine ⟨free, ?_⟩
  simp only [move, Processor.endFrame]
  split
  · rename_i pending
    exact .inr ⟨pending, rfl⟩
  · exact .inl rfl

theorem Ripened.endFrame (h : m.Ripened m') : m'.move .endFrame = m.move .endFrame := by
  rcases h.same with rfl | ⟨pending, rfl⟩
  · rfl
  · simp only [move, Processor.endFrame, pending, reduceCtorEq, ↓reduceIte]

theorem Ripened.abreast (h : m.Ripened m') : m.Abreast m' := by
  rcases h.same with rfl | ⟨pending, rfl⟩
  · exact ⟨rfl, rfl, fun _ => rfl, rfl, rfl⟩
  · refine ⟨rfl, rfl, fun a => ?_, rfl, rfl⟩
    simp only [heldAt, pending]
    rfl

theorem Ripened.fetched (h : m.Ripened m') : m.fetched.Ripened m'.fetched := by
  refine ⟨m.fetched_sameSettings.dialect ▸ h.free, ?_⟩
  rcases h.same with rfl | ⟨pending, rfl⟩
  · exact .inl rfl
  · have wait := m.unseen_fetched.2.1
    exact .inr ⟨wait.trans pending, m.fetched_onUnseen id (fun _ => .ready) id⟩

theorem Ripened.execute (h : m.Ripened m') (i : Instruction) :
    (m.execute i).Ripened (m'.execute i) := by
  refine ⟨(m.execute_sameSettings i).dialect ▸ h.free, ?_⟩
  rcases h.same with rfl | ⟨pending, rfl⟩
  · exact .inl rfl
  cases blind : i.sees with
  | false =>
    have wait := (m.unseen_execute blind).2.1
    exact .inr ⟨wait.trans pending, m.execute_onUnseen id (fun _ => .ready) id blind⟩
  | true =>
    cases i with
    | scrollDown | scrollUp | clear | scrollRight | scrollLeft | lores | hires | random =>
      exact .inr ⟨pending, rfl⟩
    | exit => exact .inl rfl
    | sprite x y n =>
      -- Held back, it would wait on one machine and be drawn on the other.
      have drawn {s : Machine} (free : s.dialect.vblank = false) :
          s.execute (.sprite x y n) = s.drawSprite x y n := by
        simp only [Machine.execute, sprite, Processor.holdsSprites, free, Bool.false_and,
          Bool.false_eq_true, ↓reduceIte]
      rw [drawn h.free, drawn (s := { m with frameWait := .ready }) h.free]
      refine .inr ?_
      simp only [drawSprite, h.free, pending, Bool.false_eq_true, ↓reduceIte, and_self]
    | _ => cases blind

theorem Ripened.step (h : m.Ripened m') : m.step.Ripened m'.step := by
  have waiting : m'.waiting = m.waiting := by
    rcases h.same with rfl | ⟨-, rfl⟩ <;> rfl
  have next : m'.next? = m.next? := by
    rcases h.same with rfl | ⟨-, rfl⟩ <;> rfl
  refine step_related waiting next h h.fetched (fun i _ => h.fetched.execute i) ?_
  rintro s s' ⟨free, rfl | ⟨pending, rfl⟩⟩
  · exact ⟨free, .inl rfl⟩
  · exact ⟨free, .inr ⟨pending, rfl⟩⟩

theorem Ripened.move (h : m.Ripened m') {mv : Move} (own : mv.own = true) :
    (m.move mv).Ripened (m'.move mv) := by
  cases mv with
  | step => exact h.step
  | stop b =>
    refine ⟨h.free, .inl ?_⟩
    rcases h.same with rfl | ⟨-, rfl⟩ <;> rfl
  | endFrame =>
    rw [h.endFrame]
    exact ⟨(m.settings_of_own own).1 ▸ h.free, .inl rfl⟩
  | host | files => cases own

theorem Ripened.batch (h : m.Ripened m') (n : Nat) :
    m'.batchMoves n = m.batchMoves n ∧ (m.batch n).Ripened (m'.batch n) := by
  have steps : AtSteps (fun _ => True) m (m.batchMoves n) :=
    atSteps_of_forall (fun _ => trivial) _
  have same := batchMoves_related (fun h => h.abreast) (fun h _ => h.step) h steps
  have ran := run_related (fun mem h _ => h.move (own_batchMoves mem).1) h steps
  rw [run_batchMoves, ← same, run_batchMoves] at ran
  exact ⟨same, ran⟩

end

/-! ## Ticks in a row -/

theorem tick_eq (m : Machine) (n : Nat) :
    m.tick n = if m.awake then (m.batch n).move .endFrame else m := rfl

theorem awake_endFrame (m : Machine) : (m.move .endFrame).awake = m.awake := by
  simp only [move, Processor.endFrame]
  split <;> rfl

/-- But for the end of the frame, a tick is a batch. -/
theorem filter_tickMoves (m : Machine) (n : Nat) :
    (m.tickMoves n).filter (!·.endsFrame) = if m.awake then m.batchMoves n else [] := by
  unfold tickMoves
  split
  · have within : (m.batchMoves n).filter (!·.endsFrame) = m.batchMoves n :=
      List.filter_eq_self.mpr fun mv mem => by rw [(own_batchMoves mem).2]; rfl
    rw [List.filter_append, within]
    exact List.append_nil _
  · rfl

/-- **Ticks add up.** In a dialect that makes no sprite wait, a tick after a tick comes to the same
as one tick of as many cycles as both, and but for the end of a frame in between it consists of the
same moves: wherever one stops, so does the other. -/
theorem tick_tick {m : Machine} (free : m.dialect.vblank = false) (a b : Nat) :
    (m.tick a).tick b = m.tick (a + b) ∧
    (m.tickMoves a ++ (m.tick a).tickMoves b).filter (!·.endsFrame) =
      (m.tickMoves (a + b)).filter (!·.endsFrame) := by
  cases awake : m.awake with
  | false =>
    have still (n : Nat) : m.tick n = m := by rw [tick_eq, awake]; rfl
    have nothing (n : Nat) : m.tickMoves n = [] := by rw [tickMoves, awake]; rfl
    simp only [still, nothing, List.append_nil, and_self]
  | true =>
    have first : m.tick a = (m.batch a).move .endFrame := by rw [tick_eq, awake]; rfl
    have free' : (m.batch a).dialect.vblank = false := by
      rw [← run_batchMoves, (m.settings_run fun _ mem => (own_batchMoves mem).1).1]
      exact free
    obtain ⟨moves, later⟩ := (ripened_endFrame free').batch b
    constructor
    · rw [tick_eq m (a + b), awake, batch_add awake, first, tick_eq, awake_endFrame, later.endFrame]
      cases (m.batch a).awake with
      | true => rfl
      | false => rfl
    · rw [List.filter_append, filter_tickMoves, filter_tickMoves, filter_tickMoves, awake, first,
        awake_endFrame, moves]
      exact (batchMoves_add awake a b).symm

/-- `1200`, come to while a sprite waits. -/
def ripening : Machine :=
  { loaded ⟨#[0x12, 0x00], by decide⟩ with frameWait := .pending }

theorem tick_tick_ripening :
    ripening.awake = true ∧ ripening.dialect.vblank = false ∧
    (ripening.tick 1).tick 2 = ripening.tick 3 ∧
    (ripening.tickMoves 1 ++ (ripening.tick 1).tickMoves 2).filter (!·.endsFrame) =
      (ripening.tickMoves 3).filter (!·.endsFrame) := by
  have awake : ripening.awake = true := by
    rw [ripening, loaded_eq]
    rfl
  have free : ripening.dialect.vblank = false := by
    rw [ripening, loaded_eq]
    rfl
  exact ⟨awake, free, tick_tick free 1 2⟩

end XoChip.Machine
