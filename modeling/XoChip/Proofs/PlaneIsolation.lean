import XoChip.Proofs.Lockstep
import XoChip.Proofs.SpriteXor
import XoChip.Proofs.Unseen

/-!
Isolation of planes. Only a sprite looks at pixels to decide anything, and only at those of the
planes it is drawn on. Main statement: machines that differ in the pixels of one plane stay alike in
everything else as long as no sprite is drawn on that plane, and what is drawn, cleared or scrolled
leaves the planes that are not selected alone (`plane_isolated`).
-/

namespace XoChip

namespace Display

/-- The display with another plane in place of one of its own. -/
def withPlane (d : Display) (p : Fin 2) (plane : Plane) : Display :=
  { d with planes := .ofFn fun q => if q = p then plane else d.plane q }

theorem plane_withPlane (d : Display) (p q : Fin 2) (plane : Plane) :
    (d.withPlane p plane).plane q = if q = p then plane else d.plane q := by
  rw [plane_eq, withPlane, Vector.getElem_ofFn]

theorem withPlane_eq (d : Display) (p : Fin 2) (plane : Plane) :
    d.withPlane p plane = { d with planes := d.planes.set p plane p.isLt } := by
  refine congrArg (fun planes => { d with planes := planes }) (Vector.ext fun q hq => ?_)
  simp only [Vector.getElem_ofFn, Vector.getElem_set, plane_eq, Fin.ext_iff, eq_comm]

theorem withPlane_self (d : Display) (p : Fin 2) : d.withPlane p (d.plane p) = d := by
  rw [withPlane_eq, plane_eq, Vector.set_getElem_self]

theorem withPlane_comm (d : Display) {p q : Fin 2} (apart : p ≠ q) (a b : Plane) :
    (d.withPlane p a).withPlane q b = (d.withPlane q b).withPlane p a := by
  have apart : p.val ≠ q.val := fun same => apart (Fin.ext same)
  simp only [withPlane_eq, Vector.set_comm a b apart]

theorem plot_eq_withPlane (d : Display) (p : Fin 2) (x y : Nat) :
    d.plot p x y =
      d.withPlane p
        ((d.plane p).paint d.hires (d.corner x y).1 (d.corner x y).2 (!d.lit p x y)) :=
  (d.plot_eq p x y).trans (withPlane_eq ..).symm

section
variable {d : Display} {p : Fin 2} (plane : Plane)

theorem onSelected_withPlane (f : Plane → Plane) :
    (d.withPlane p plane).onSelected f =
      (d.onSelected f).withPlane p (if d.selects p then f plane else plane) := by
  have selects : (d.withPlane p plane).selects = d.selects := rfl
  have planes : ((d.withPlane p plane).onSelected f).planes =
      ((d.onSelected f).withPlane p (if d.selects p then f plane else plane)).planes := by
    refine planes_ext fun q => ?_
    rw [plane_onSelected, plane_withPlane, plane_withPlane, plane_onSelected, selects]
    by_cases same : q = p
    · subst same
      simp only [↓reduceIte]
    · simp only [if_neg same]
  exact congrArg (fun planes => { d with planes := planes }) planes

/-- A pixel of one plane has nothing to do with the others. -/
theorem plot_withPlane {q : Fin 2} (other : q ≠ p) (x y : Nat) :
    (d.withPlane p plane).lit q x y = d.lit q x y ∧
      (d.withPlane p plane).plot q x y = (d.plot q x y).withPlane p plane := by
  have corner : (d.withPlane p plane).corner = d.corner := rfl
  have kept : (d.withPlane p plane).plane q = d.plane q := by
    rw [plane_withPlane, if_neg other]
  have lit : (d.withPlane p plane).lit q x y = d.lit q x y := by
    rw [lit_eq, corner, kept, lit_eq]
  refine ⟨lit, ?_⟩
  rw [plot_eq_withPlane, plot_eq_withPlane, lit, corner, kept]
  exact d.withPlane_comm other.symm _ _

theorem plotAll_withPlane {pixels : List (Fin 2 × Nat × Nat)}
    (other : ∀ pixel ∈ pixels, pixel.1 ≠ p) :
    (d.withPlane p plane).plotAll pixels =
      ((d.plotAll pixels).1, (d.plotAll pixels).2.withPlane p plane) := by
  induction pixels generalizing d with
  | nil => rfl
  | cons pixel rest ih =>
    obtain ⟨q, x, y⟩ := pixel
    obtain ⟨lit, plot⟩ := plot_withPlane (d := d) plane (other _ List.mem_cons_self) x y
    have later := ih (d := d.plot q x y) fun pixel mem => other pixel (List.mem_cons_of_mem _ mem)
    simp only [plotAll, lit, plot, later]

/-- Plotting leaves a plane alone that no pixel is on. -/
theorem plane_plotAll {pixels : List (Fin 2 × Nat × Nat)}
    (other : ∀ pixel ∈ pixels, pixel.1 ≠ p) : (d.plotAll pixels).2.plane p = d.plane p := by
  have same := plotAll_withPlane (d := d) (d.plane p) other
  rw [withPlane_self] at same
  rw [congrArg Prod.snd same, plane_withPlane, if_pos rfl]

end

end Display

namespace Machine

/-- The machine with another plane in place of one of its own. -/
def withPlane (m : Machine) (p : Fin 2) (plane : Plane) : Machine :=
  { m with display := m.display.withPlane p plane }

/-- Two machines differ in the pixels of plane `p` at most. -/
def EqualBut (p : Fin 2) (m m' : Machine) : Prop :=
  ∃ plane, m' = m.withPlane p plane

/-- The next step draws no sprite on plane `p`. -/
def Spares (p : Fin 2) (m : Machine) : Prop :=
  m.draws = true → m.display.selects p = false

theorem EqualBut.refl (p : Fin 2) (m : Machine) : EqualBut p m m :=
  ⟨m.display.plane p, by rw [withPlane, Display.withPlane_self]⟩

theorem EqualBut.abreast {p : Fin 2} {m m' : Machine} (same : EqualBut p m m') :
    m.Abreast m' := by
  obtain ⟨plane, rfl⟩ := same
  exact ⟨rfl, rfl, fun _ => rfl, rfl, rfl⟩

/-- A sprite plots pixels on selected planes only. -/
theorem selects_of_plotted {m : Machine} {x y : Register} {n : Fin 16} {pixel : Fin 2 × Nat × Nat}
    (mem : pixel ∈ m.plotted x y n) : m.display.selects pixel.1 = true := by
  have selected : pixel.1 ∈ m.display.selected := by
    unfold plotted at mem
    split at mem
    · exact Sprite.mem_pixels (List.mem_filter.mp mem).1
    · exact Sprite.mem_pixels mem
  exact (List.mem_filter.mp selected).2

section
variable {p : Fin 2} {m m' : Machine}

theorem other_of_plotted (unselected : m.display.selects p = false) {x y : Register} {n : Fin 16} :
    ∀ pixel ∈ m.plotted x y n, pixel.1 ≠ p := by
  rintro pixel mem rfl
  cases unselected.symm.trans (selects_of_plotted mem)

theorem drawSprite_withPlane (unselected : m.display.selects p = false) (plane : Plane)
    (x y : Register) (n : Fin 16) :
    (m.withPlane p plane).drawSprite x y n = (m.drawSprite x y n).withPlane p plane := by
  have drawn := Display.plotAll_withPlane (d := m.display) plane
    (other_of_plotted unselected (x := x) (y := y) (n := n))
  -- A sprite comes to this for whatever its pixels do to the flag and to the display.
  exact congrArg
    (fun result : Bool × Display =>
      { m with
        display := result.2
        v := m.v.put Register.flag result.1.toUInt8
        frameWait := if m.dialect.vblank then .idle else m.frameWait })
    drawn

theorem execute_withPlane {i : Instruction} (blind : i.sees = false) (plane : Plane) :
    (m.withPlane p plane).execute i = (m.execute i).withPlane p plane :=
  m.execute_onUnseen (fun planes => .ofFn fun q => if q = p then plane else planes.get q) id id
    blind

theorem fetched_withPlane (plane : Plane) :
    (m.withPlane p plane).fetched = m.fetched.withPlane p plane :=
  m.fetched_onUnseen (fun planes => .ofFn fun q => if q = p then plane else planes.get q) id id

theorem withPlane_ne {plane : Plane} (other : plane ≠ m.display.plane p) :
    m.withPlane p plane ≠ m := by
  intro same
  have replaced := congrArg (fun s : Machine => s.display.plane p) same
  have now : (m.withPlane p plane).display.plane p = plane :=
    (m.display.plane_withPlane p p plane).trans (if_pos rfl)
  exact other (now.symm.trans replaced)

/-! ## Steps and moves -/

theorem execute_equalBut (same : EqualBut p m m') {i : Instruction}
    (spared : i.isSprite = true → m.holdsSprites = false → m.display.selects p = false) :
    EqualBut p (m.execute i) (m'.execute i) := by
  obtain ⟨plane, rfl⟩ := same
  cases blind : i.sees with
  | false => exact ⟨plane, execute_withPlane blind plane⟩
  | true =>
    have selected (f : Plane → Plane) :
        EqualBut p { m with display := m.display.onSelected f }
          { m with display := (m.display.withPlane p plane).onSelected f } :=
      ⟨_, congrArg (fun display => { m with display := display })
        (Display.onSelected_withPlane plane f)⟩
    cases i with
    | scrollDown | scrollUp | clear | scrollRight | scrollLeft => exact selected _
    | lores => exact .refl p (m.setHires false)
    | hires => exact .refl p (m.setHires true)
    | exit | random => exact ⟨plane, rfl⟩
    | sprite x y n =>
      -- Whether it is drawn does not depend on pixels, and if so it is not drawn on this plane.
      have hold : (m.withPlane p plane).holdsSprites = m.holdsSprites := rfl
      simp only [execute, sprite, hold]
      split
      · exact ⟨plane, rfl⟩
      · rename_i free
        exact ⟨plane, drawSprite_withPlane (spared rfl (Bool.eq_false_iff.mpr free)) plane x y n⟩
    | _ => cases blind

/-- A sprite that is not held back is drawn. -/
theorem draws_of_free {i : Instruction} (executed : m.executed? = some i)
    (sprite : i.isSprite = true) (free : m.holdsSprites = false) : m.draws = true := by
  obtain ⟨awaited, next⟩ := executed?_eq_some.mp executed
  have attempts : m.attempts = true := by
    simp only [attempts, awaited, atSprite, next, Option.any_some, sprite, Bool.not_false,
      Bool.and_self]
  cases attempt attempts with
  | held hold => cases free.symm.trans hold
  | drawn _ _ draws => exact draws

theorem step_equalBut (same : EqualBut p m m') (spared : m.Spares p) :
    EqualBut p m.step m'.step := by
  obtain ⟨plane, rfl⟩ := same
  have fetched : EqualBut p m.fetched (m.withPlane p plane).fetched :=
    ⟨plane, fetched_withPlane plane⟩
  refine step_related rfl rfl ⟨plane, rfl⟩ fetched (fun i executed => ?_) ?_
  · refine execute_equalBut fetched fun sprite free => ?_
    rw [fetched_eq] at free ⊢
    exact spared (draws_of_free executed sprite free)
  · rintro s s' ⟨plane, rfl⟩
    exact ⟨plane, rfl⟩

theorem apply_equalBut (same : EqualBut p m m') {o : Operation} (quiet : o.runs = false) :
    EqualBut p (m.apply o) (m'.apply o) := by
  obtain ⟨plane, rfl⟩ := same
  cases o with
  | step | tick | frame => cases quiet
  | load source =>
    simp only [apply, load]
    cases Rom.ofSource? source with
    | error e => exact ⟨plane, rfl⟩
    | ok rom => exact .refl p { m.start rom with romPath := none }
  | loadFile path =>
    have files : (m.withPlane p plane).files = m.files := rfl
    simp only [apply, loadFile, files]
    cases m.files.read path with
    | error e => exact ⟨plane, rfl⟩
    | ok bytes =>
      dsimp only
      cases Rom.ofSource? ⟨bytes, none⟩ with
      | error e => exact ⟨plane, rfl⟩
      | ok rom =>
        exact .refl p ({ m.start rom with romPath := some path }.notify (.running path))
  | reset => exact .refl p m.reset
  | unload => exact .refl p m.unload
  | setHires on => exact .refl p (m.setHires on)
  | findBreakpoint =>
    have breakpoint : (m.withPlane p plane).breakpoint? = m.breakpoint? := rfl
    simp only [apply, findBreakpoint, breakpoint]
    cases m.breakpoint? with
    | some b => exact ⟨plane, rfl⟩
    | none => exact ⟨plane, rfl⟩
  | _ => exact ⟨plane, rfl⟩

theorem move_equalBut {mv : Move} (same : EqualBut p m m') (spared : mv = .step → m.Spares p) :
    EqualBut p (m.move mv) (m'.move mv) := by
  cases mv with
  | step => exact step_equalBut same (spared rfl)
  | host o quiet => exact apply_equalBut same quiet
  | stop | files =>
    obtain ⟨plane, rfl⟩ := same
    exact ⟨plane, rfl⟩
  | endFrame =>
    obtain ⟨plane, rfl⟩ := same
    have wait : (m.withPlane p plane).frameWait = m.frameWait := rfl
    simp only [move, Processor.endFrame, wait]
    split <;> exact ⟨plane, rfl⟩

/-- A step that does not change the resolution leaves a plane alone that is not selected. -/
theorem plane_step (unselected : m.display.selects p = false)
    (lores : m.executed? ≠ some .lores) (hires : m.executed? ≠ some .hires) :
    m.step.display.plane p = m.display.plane p := by
  rcases m.step_same .cells with cells | ⟨i, executed, writer⟩
  · exact congrArg (Vector.get · p) cells
  · obtain ⟨display, read⟩ := display_step executed
    rw [← read] at unselected
    have passedOver (f : Plane → Plane) :
        (m.fetched.display.onSelected f).plane p = m.fetched.display.plane p := by
      rw [Display.plane_onSelected, unselected]
      rfl
    rw [display, ← read]
    cases i with
    | scrollDown | scrollUp | clear | scrollRight | scrollLeft => exact passedOver _
    | lores => exact absurd executed lores
    | hires => exact absurd executed hires
    | sprite x y n =>
      simp only [execute, sprite]
      split
      · rfl
      · exact Display.plane_plotAll (other_of_plotted unselected)
    | _ => cases writer

end

/-- **Planes are isolated.** Two machines that differ in the pixels of one plane at most, and on
which the same turns are played, carry out the same moves and differ in nothing else after any of
the turns, as long as no sprite is drawn on that plane. And a step that does not change the
resolution leaves a plane alone that is not selected. -/
theorem plane_isolated (p : Fin 2) :
    (∀ {m m' : Machine} {h : List Turn}, EqualBut p m m' → AtSteps (Spares p) m (m.history h) →
      m'.history h = m.history h ∧
      ∀ past, past <+: h → EqualBut p (m.after past) (m'.after past)) ∧
    (∀ {m : Machine}, m.display.selects p = false → m.executed? ≠ some .lores →
      m.executed? ≠ some .hires → m.step.display.plane p = m.display.plane p) := by
  refine ⟨fun same spared => ?_, plane_step⟩
  exact lockstep (fun same => same.abreast) (fun same spared => move_equalBut same spared) same
    spared

theorem plane_isolated_crossing :
    let m := loaded crossing
    let m' := m.withPlane 1 (Plane.blank.set 0 0 true)
    m.draws = true ∧ m' ≠ m ∧
    (EqualBut 1 m m' ∧ AtSteps (Spares 1) m (m.history [.operation .step]) ∧
      m'.history [.operation .step] = m.history [.operation .step] ∧
      ∀ past, past <+: [.operation .step] → EqualBut 1 (m.after past) (m'.after past)) ∧
    m.step.display.plane 1 = m.display.plane 1 := by
  intro m m'
  have executed : m.executed? = some (.sprite 0 1 5) := drawsFreely_crossing.executed
  obtain ⟨unselected, blank⟩ :
      m.display.selects 1 = false ∧ m.display.plane 1 = Plane.blank := by
    rw [show m = _ from loaded_eq crossing]
    exact ⟨rfl, rfl⟩
  have apart : m' ≠ m := by
    refine withPlane_ne fun same => ?_
    have lit := congrArg (fun plane : Plane => plane.lit 0 0) (same.trans blank)
    cases (Plane.lit_set _ 0 0 0 0 true).symm.trans lit
  have same : EqualBut 1 m m' := ⟨_, rfl⟩
  have spared : AtSteps (Spares 1) m (m.history [.operation .step]) :=
    ⟨fun _ _ => unselected, trivial⟩
  refine ⟨draws_of_free executed rfl (holdsSprites_loaded crossing), apart, ?_, ?_⟩
  · exact ⟨same, spared, (plane_isolated 1).1 same spared⟩
  · refine (plane_isolated 1).2 unselected ?_ ?_ <;> rw [executed] <;> nofun

end Machine

end XoChip
