import XoChip.Proofs.SpriteWait

/-!
Waits and changes of dialect. The machine itself never lets go of the sprite that waits; a wait
comes to belong to no sprite exactly when the host, while one waits, changes to a dialect that makes
no sprite wait (`owned_iff`).
-/

namespace XoChip

/-- Whether a turn changes the dialect and leaves execution where it is. -/
def Turn.switches : Turn → Bool
  | .operation (.setProfile _) | .operation (.switchAll _ _) => true
  | _ => false

namespace Machine

/-- Whenever the dialect is changed while a sprite waits, the new one makes sprites wait as well. -/
def RespectsWaits (m : Machine) (h : List Turn) : Prop :=
  ∀ before t later, h = before ++ t :: later → t.switches = true →
    (m.after before).frameWait ≠ .idle → (m.after (before ++ [t])).dialect.vblank = true

/-! ## Turn by turn -/

theorem vblank_of_holds {m : Machine} (h : m.holds = true) : m.dialect.vblank = true := by
  cases attempt (attempts_of_holds h) with
  | held hold => exact (Bool.and_eq_true_iff.mp hold).1
  | drawn _ holds => cases holds ▸ h

theorem owned_own {m : Machine} {mv : Move} (own : mv.own = true) (owned : m.Owned) :
    (m.move mv).Owned := by
  refine owned_move owned mv fun waits => ?_
  rw [(m.settings_of_own own).1]
  cases waitAfter_move owned mv with
  | ends idle => exact absurd idle waits
  | begins _ _ holds => exact vblank_of_holds holds
  | lasts same => exact (owned (same ▸ waits)).1
  | ripens pending => exact (owned (by simp [pending])).1

/-- Apart from the changes of dialect, the host changes it only by starting over. -/
theorem apply_dialect (m : Machine) {o : Operation} (quiet : o.runs = false)
    (other : (Turn.operation o).switches = false) :
    (m.apply o).frameWait = .idle ∨ (m.apply o).dialect = m.dialect := by
  cases o with
  | step | tick | frame => cases quiet
  | setProfile | switchAll => cases other
  | load source =>
    rcases m.apply_load source with h | ⟨rom, h⟩ <;> rw [h]
    · exact .inr rfl
    · exact .inl rfl
  | loadFile path =>
    rcases m.apply_loadFile path with h | ⟨rom, h⟩ <;> rw [h]
    · exact .inr rfl
    · exact .inl rfl
  | reset | unload => exact .inl rfl
  | pressKey key =>
    rw [apply, pressKey_eq]
    exact .inr rfl
  | findBreakpoint =>
    rw [apply, findBreakpoint_eq]
    exact .inr rfl
  | _ => exact .inr rfl

theorem frameWait_of_switches (m : Machine) {t : Turn} (switches : t.switches = true) :
    (m.turn t).frameWait = m.frameWait := by
  cases t with
  | files fs => cases switches
  | operation o => cases o <;> first | rfl | cases switches

theorem owned_turn {m : Machine} (owned : m.Owned) (t : Turn)
    (respects : t.switches = true → m.frameWait ≠ .idle → (m.turn t).dialect.vblank = true) :
    (m.turn t).Owned := by
  cases t with
  | files fs => exact owned
  | operation o =>
    cases runs : o.runs with
    | true =>
      have along : Along Owned m (m.operationMoves o) :=
        along_of_own (fun s mv => owned_own) (fun mv => own_operationMoves runs) owned
      rw [turn, ← run_operationMoves]
      exact along.last
    | false =>
      refine owned_move owned (.host o runs) fun waits => ?_
      cases switches : (Turn.operation o).switches with
      | true => exact respects switches (m.frameWait_of_switches switches ▸ waits)
      | false =>
        rcases m.apply_dialect runs switches with idle | dialect
        · exact absurd idle waits
        · rcases m.apply_frameWait runs with idle | ⟨same, -, -⟩
          · exact absurd idle waits
          · rw [move, dialect]
            exact (owned (same ▸ waits)).1

/-! ## Over a history -/

theorem owned_after {m : Machine} {h : List Turn} (owned : m.Owned) (respects : m.RespectsWaits h) :
    ∀ past, past <+: h → (m.after past).Owned := by
  induction h generalizing m with
  | nil =>
    intro past early
    cases List.prefix_nil.mp early
    exact owned
  | cons t ts ih =>
    intro past early
    rcases List.prefix_cons_iff.mp early with rfl | ⟨past, rfl, early'⟩
    · exact owned
    · refine ih (owned_turn owned t (respects [] t ts rfl)) ?_ past early'
      intro before t' later split
      exact respects (t :: before) t' later (by rw [split]; rfl)

theorem respectsWaits_of_owned {m : Machine} {h : List Turn}
    (owned : ∀ past, past <+: h → (m.after past).Owned) : m.RespectsWaits h := by
  intro before t later split switches waits
  have early : before ++ [t] <+: h := ⟨later, by simp [split]⟩
  have same : (m.after (before ++ [t])).frameWait = (m.after before).frameWait := by
    rw [after_append]
    exact (m.after before).frameWait_of_switches switches
  exact (owned _ early (same ▸ waits)).1

/-- **Which waits outlive their sprite.** All along a history a wait belongs to the sprite execution
stands at, in a dialect that makes it wait, if and only if the host respects waits; and if it does,
no sprite that has to wait is drawn before a frame has ended since its first attempt. -/
theorem owned_iff {m : Machine} {h : List Turn} (idle : m.frameWait = .idle) :
    ((∀ past, past <+: h → (m.after past).Owned) ↔ m.RespectsWaits h) ∧
    (m.RespectsWaits h → ∀ past rest, m.history h = past ++ .step :: rest →
      (m.run past).dialect.vblank = true → (m.run past).draws = true →
      ∃ before wait, past = before ++ .step :: wait ∧ m.HeldSince before wait ∧
        .endFrame ∈ wait) := by
  have start : m.Owned := fun waits => absurd idle waits
  refine ⟨⟨respectsWaits_of_owned, owned_after start⟩, ?_⟩
  intro respects past rest split vblank draws
  have along : Along Owned m (m.history h) :=
    along_history (fun s mv => owned_own) (owned_after start respects)
  have ready := ready_of_draws vblank draws
  have earlier : Along Owned m past := (along_append.mp (split ▸ along)).1
  obtain ⟨before, wait, rfl, held, ended⟩ := exists_held idle earlier (by simp [ready])
  exact ⟨before, wait, rfl, held, ended ready⟩

/-! ## A wait left behind -/

/-- A sprite held by the only step of a batch may be drawn in the next one. -/
theorem ready_tick_one {m : Machine} (awake : m.awake = true) (holds : m.holds = true) :
    (m.tick 1).frameWait = .ready := by
  have same := step_of_holds holds
  have awake' : m.step.awake = true := by
    rw [same]
    exact awake
  have held : m.step.heldAt m.pc = true := by
    obtain ⟨pending, pc, -⟩ := pending_of_holds holds
    simp [heldAt, pending, pc]
  have batch : m.batch 1 = m.step := by
    simp [Machine.batch, awake', held]
  simp only [tick, awake, batch, ↓reduceIte, Processor.endFrame]
  simp [(pending_of_holds holds).1]

/-- The turns that hold a sprite back and then change to a dialect that would not. -/
def leavingWait : List Turn :=
  [.operation (.load ⟨#[0xD0, 0x15].toList, none⟩), .operation (.switchAll [.vblank] true),
    .operation (.tick 1), .operation (.switchAll [.vblank] false)]

/-- A wait can outlive its sprite. -/
theorem leavingWait_not_owned :
    ¬∀ (random : Random) (h : List Turn), ((fresh random).after h).Owned := by
  intro owned
  have last : (fresh default).after leavingWait =
      (beforeSprite.tick 1).apply (.switchAll [.vblank] false) := rfl
  have kept (m : Machine) : (m.apply (.switchAll [.vblank] false)).frameWait = m.frameWait := rfl
  have off (m : Machine) : (m.apply (.switchAll [.vblank] false)).dialect.vblank = false := rfl
  have ready := ready_tick_one awake_beforeSprite holds_beforeSprite
  have left := owned default leavingWait
  rw [last, Owned, kept, off, ready] at left
  cases (left nofun).1

/-- The turns that hold a sprite back and then change the dialect in another point. -/
def keepingWait : List Turn :=
  [.operation (.tick 1), .operation (.switchAll [.clip] true)]

theorem respectsWaits_keepingWait : beforeSprite.RespectsWaits keepingWait := by
  have ticked : (beforeSprite.apply (.tick 1)).dialect = beforeSprite.dialect :=
    (beforeSprite.settings_apply rfl).1
  have clipped (m : Machine) :
      (m.apply (.switchAll [.clip] true)).dialect.vblank = m.dialect.vblank := rfl
  intro before t later split switches _
  cases before with
  | nil =>
    cases split
    cases switches
  | cons t' before =>
    obtain ⟨rfl, tail⟩ := List.cons.inj split
    cases before with
    | nil =>
      obtain ⟨rfl, -⟩ := List.cons.inj tail
      simp only [List.singleton_append, after, List.foldl, turn, clipped, ticked]
      exact vblank_beforeSprite
    | cons t'' before => cases before <;> cases tail

theorem owned_iff_keepingWait :
    beforeSprite.frameWait = .idle ∧ (beforeSprite.tick 1).frameWait = .ready ∧
    ∀ past, past <+: keepingWait → (beforeSprite.after past).Owned := by
  refine ⟨idle_beforeSprite, ready_tick_one awake_beforeSprite holds_beforeSprite, ?_⟩
  exact (owned_iff idle_beforeSprite).1.mpr respectsWaits_keepingWait

end Machine

end XoChip
