import XoChip.Proofs.WriteSet

/-!
Pixels, the wait of a sprite and the source of random bytes: parts of the machine that only a few
instructions look at. The others do what they do whatever these parts are (`execute_withUnseen`).
-/

namespace XoChip

/-- Whether an instruction looks at pixels, at the wait of a sprite or at random bytes, or changes
them. -/
def Instruction.sees : Instruction → Bool
  | .scrollDown _ | .scrollUp _ | .clear | .scrollRight | .scrollLeft | .lores | .hires
  | .sprite _ _ _ | .exit | .random _ _ => true
  | _ => false

namespace Machine

/-- A machine with other pixels, another wait and another source of random bytes. -/
def withUnseen (m : Machine) (planes : Vector Plane 2) (wait : FrameWait) (random : Random) :
    Machine :=
  { m with
    display := { m.display with planes := planes }
    frameWait := wait
    random := random }

section
variable (m : Machine) (planes : Vector Plane 2) (wait : FrameWait) (random : Random)

theorem skipIf_withUnseen (condition : Bool) :
    (m.withUnseen planes wait random).skipIf condition =
      (m.skipIf condition).withUnseen planes wait random := by
  unfold skipIf
  split <;> rfl

theorem advanceIndex_withUnseen (x : Register) :
    (m.withUnseen planes wait random).advanceIndex x =
      (m.advanceIndex x).withUnseen planes wait random := by
  have dialect : (m.withUnseen planes wait random).dialect = m.dialect := rfl
  unfold advanceIndex
  rw [dialect]
  split <;> rfl

theorem addIndex_withUnseen (x : Register) :
    (m.withUnseen planes wait random).addIndex x =
      (m.addIndex x).withUnseen planes wait random := by
  have dialect : (m.withUnseen planes wait random).dialect = m.dialect := rfl
  unfold addIndex
  rw [dialect]
  dsimp only
  split <;> rfl

theorem saveFlags_withUnseen (x : Register) :
    (m.withUnseen planes wait random).saveFlags x =
      (m.saveFlags x).withUnseen planes wait random := by
  have flagsPath : (m.withUnseen planes wait random).flagsPath = m.flagsPath := rfl
  have files : (m.withUnseen planes wait random).files = m.files := rfl
  have v : (m.withUnseen planes wait random).v = m.v := rfl
  unfold saveFlags
  rw [flagsPath, files, v]
  cases m.flagsPath with
  | none => rfl
  | some path =>
    dsimp only
    cases m.files.write path (flags m.v x) <;> rfl

theorem loadFlags_withUnseen (x : Register) :
    (m.withUnseen planes wait random).loadFlags x =
      (m.loadFlags x).withUnseen planes wait random := by
  have flagsPath : (m.withUnseen planes wait random).flagsPath = m.flagsPath := rfl
  have files : (m.withUnseen planes wait random).files = m.files := rfl
  unfold loadFlags
  rw [flagsPath, files]
  cases m.flagsPath with
  | none => rfl
  | some path =>
    dsimp only
    cases m.files.read path <;> rfl

/-- An instruction that does not see these parts does the same whatever they are. -/
theorem execute_withUnseen {i : Instruction} (blind : i.sees = false) :
    (m.withUnseen planes wait random).execute i =
      (m.execute i).withUnseen planes wait random := by
  cases i with
  | scrollDown | scrollUp | clear | scrollRight | scrollLeft | lores | hires | sprite | exit
  | random => cases blind
  | skipEqual | skipNotEqual | skipSame | skipDifferent | skipPressed | skipReleased =>
    exact skipIf_withUnseen ..
  | store x =>
    exact advanceIndex_withUnseen { m with toBus := m.toBus.writeBlock m.i (m.v.upTo x) } ..
  | fetch x =>
    exact advanceIndex_withUnseen
      { m with v := m.v.overwrite x (m.memory.readBlock m.i (x.val + 1)) } ..
  | addIndex x => exact addIndex_withUnseen ..
  | saveFlags x => exact saveFlags_withUnseen ..
  | loadFlags x => exact loadFlags_withUnseen ..
  | _ => rfl

/-- Such an instruction leaves them as they are. -/
theorem unseen_execute {i : Instruction} (blind : i.sees = false) :
    (m.execute i).display.planes = m.display.planes ∧ (m.execute i).frameWait = m.frameWait ∧
    (m.execute i).random = m.random := by
  have same : m.execute i =
      (m.execute i).withUnseen m.display.planes m.frameWait m.random :=
    m.execute_withUnseen m.display.planes m.frameWait m.random blind
  rw [same]
  exact ⟨rfl, rfl, rfl⟩

theorem fetched_withUnseen :
    (m.withUnseen planes wait random).fetched = m.fetched.withUnseen planes wait random := by
  have next : (m.withUnseen planes wait random).next? = m.next? := rfl
  unfold fetched report
  rw [next]
  cases m.next? <;> rfl

theorem unseen_fetched :
    m.fetched.display = m.display ∧ m.fetched.frameWait = m.frameWait ∧
    m.fetched.random = m.random := by
  rw [fetched_eq]
  exact ⟨rfl, rfl, rfl⟩

end

/-! ## Changing these parts -/

/-- The machine with each of these parts changed in some way. -/
def onUnseen (m : Machine) (planes : Vector Plane 2 → Vector Plane 2)
    (wait : FrameWait → FrameWait) (random : Random → Random) : Machine :=
  m.withUnseen (planes m.display.planes) (wait m.frameWait) (random m.random)

section
variable (m : Machine) (planes : Vector Plane 2 → Vector Plane 2) (wait : FrameWait → FrameWait)
  (random : Random → Random)

theorem execute_onUnseen {i : Instruction} (blind : i.sees = false) :
    (m.onUnseen planes wait random).execute i = (m.execute i).onUnseen planes wait random := by
  obtain ⟨samePlanes, sameWait, sameRandom⟩ := m.unseen_execute blind
  unfold onUnseen
  rw [execute_withUnseen _ _ _ _ blind, samePlanes, sameWait, sameRandom]

theorem fetched_onUnseen :
    (m.onUnseen planes wait random).fetched = m.fetched.onUnseen planes wait random := by
  obtain ⟨sameDisplay, sameWait, sameRandom⟩ := m.unseen_fetched
  unfold onUnseen
  rw [fetched_withUnseen, sameDisplay, sameWait, sameRandom]

end

end Machine

end XoChip
