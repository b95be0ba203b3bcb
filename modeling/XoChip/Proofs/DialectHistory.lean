import XoChip.Proofs.HostMoves

/-!
Where the dialect in force comes from: a profile whose dialect was adopted as a whole, and what the
host has switched since, call by call. Main statement: `dialect_history`.
-/

namespace XoChip

/-- What becomes of one variation in some calls, each of which switches those it lists. -/
def Variation.switchedBy (v : Variation) (start : Bool)
    (calls : List (List Variation × Bool)) : Bool :=
  calls.foldl (fun now (vs, on) => if v ∈ vs then on else now) start

/-- The variations a move switches, and whether it switches them on. -/
def Move.switched? : Move → Option (List Variation × Bool)
  | .host (.switchAll vs on) _ => some (vs, on)
  | _ => none

/-- The profile a move asks for. -/
def Move.profile? : Move → Option Profile
  | .host (.setProfile p) _ => some p
  | _ => none

namespace Dialect

/-- A call switches the variations it lists and no other. -/
theorem follows_switchAll (d : Dialect) (vs : List Variation) (on : Bool) (v : Variation) :
    (d.switchAll vs on).follows v = if v ∈ vs then on else d.follows v := by
  induction vs generalizing d with
  | nil => simp [switchAll]
  | cons w vs ih =>
    have rest : d.switchAll (w :: vs) on = (d.switch w on).switchAll vs on := rfl
    rw [rest, ih, follows_switch]
    by_cases listed : v ∈ vs
    · simp [listed]
    · by_cases same : w = v
      · simp [same]
      · simp [listed, same, Ne.symm same]

end Dialect

namespace Machine

/-- The dialect of the profile takes the place of any other: the host sets a profile or starts
over. -/
def Adopts (m : Machine) (mv : Move) : Prop :=
  m.Renews mv ∨ ∃ p, mv = .host (.setProfile p) rfl

section
variable {m : Machine} {mv : Move}

/-! ## From move to move -/

/-- What a move makes of the profile and the dialect unless the host starts over with it. -/
theorem choices_move (goesOn : ¬m.Renews mv) :
    (m.move mv).profile = mv.profile?.getD m.profile ∧
    (m.move mv).dialect =
      match mv.profile?, mv.switched? with
      | some p, _ => p.dialect
      | none, some (vs, on) => m.dialect.switchAll vs on
      | none, none => m.dialect := by
  cases mv with
  | step => exact ⟨m.step_sameSettings.profile, m.step_sameSettings.dialect⟩
  | stop | files => exact ⟨rfl, rfl⟩
  | endFrame => exact ⟨rfl, (m.settings_of_own rfl).1⟩
  | host o quiet =>
    have goesOn : m.startsOver o = false := eq_false_of_ne_true goesOn
    cases o with
    | step | tick | frame => cases quiet
    | reset | unload => cases goesOn
    | load | loadFile =>
      have same := apply_of_not_isOk (m := m) goesOn
      exact ⟨congrArg profile same, congrArg (·.dialect) same⟩
    | pressKey key =>
      rw [move, apply, pressKey_eq]
      exact ⟨rfl, rfl⟩
    | findBreakpoint =>
      rw [move, apply, findBreakpoint_eq]
      exact ⟨rfl, rfl⟩
    | _ => exact ⟨rfl, rfl⟩

theorem profile_move (m : Machine) (mv : Move) :
    (m.move mv).profile = mv.profile?.getD m.profile := by
  by_cases renews : m.Renews mv
  · cases mv with
    | host o quiet =>
      have unasked : (Move.host o quiet).profile? = none := by
        cases o with
        | setProfile => cases renews
        | _ => rfl
      rw [unasked]
      exact (startedOver renews).profile
    | step | stop | endFrame | files => cases renews
  · exact (choices_move renews).1

theorem dialect_of_adopts (adopts : m.Adopts mv) :
    (m.move mv).dialect = (m.move mv).profile.dialect := by
  rcases adopts with renews | ⟨p, rfl⟩
  · cases mv with
    | host o quiet =>
      have left := startedOver renews
      have dialect : (m.apply o).dialect = m.profile.dialect :=
        congrArg Processor.dialect left.processor
      rw [move, dialect, left.profile]
    | step | stop | endFrame | files => cases renews
  · rfl

/-- Otherwise the profile stays, and so does the dialect but for what is switched. -/
theorem dialect_of_not_adopts (keeps : ¬m.Adopts mv) :
    (m.move mv).profile = m.profile ∧
    (m.move mv).dialect =
      match mv.switched? with
      | some (vs, on) => m.dialect.switchAll vs on
      | none => m.dialect := by
  obtain ⟨goesOn, unset⟩ := not_or.mp keeps
  have unasked : mv.profile? = none := by
    cases mv with
    | host o quiet =>
      cases o with
      | setProfile p => exact absurd ⟨p, rfl⟩ unset
      | _ => rfl
    | _ => rfl
  obtain ⟨profile, dialect⟩ := choices_move goesOn
  rw [unasked] at profile dialect
  refine ⟨profile, dialect.trans ?_⟩
  cases mv.switched? <;> rfl

/-! ## Over a history -/

theorem profile_run (m : Machine) (ms : List Move) :
    (m.run ms).profile = (ms.filterMap Move.profile?).getLast?.getD m.profile := by
  induction ms using List.reverseRecOn with
  | nil => rfl
  | append_singleton ms mv ih =>
    have last : m.run (ms ++ [mv]) = (m.run ms).move mv := run_append m ms [mv]
    rw [last, profile_move, ih]
    cases asked : mv.profile? <;> simp [List.filterMap_append, asked]

theorem follows_run {ms : List Move} (keeps : m.Avoids Adopts ms) (v : Variation) :
    (m.run ms).profile = m.profile ∧
    (m.run ms).dialect.follows v =
      v.switchedBy (m.dialect.follows v) (ms.filterMap Move.switched?) := by
  induction ms generalizing m with
  | nil => exact ⟨rfl, rfl⟩
  | cons mv ms ih =>
    obtain ⟨profile, dialect⟩ := dialect_of_not_adopts keeps.1
    obtain ⟨profile', later⟩ := ih keeps.2
    refine ⟨profile'.trans profile, later.trans ?_⟩
    rw [dialect]
    cases switched : mv.switched? with
    | none => simp [switched]
    | some call =>
      obtain ⟨vs, on⟩ := call
      simp [switched, Variation.switchedBy, Dialect.follows_switchAll]

/-- What moves end with that adopt a dialect, or a machine just switched on, has the dialect of its
profile. -/
theorem dialect_of_endsWith {random : Random} {past : List Move}
    (ends : (fresh random).EndsWith Adopts past) :
    ((fresh random).run past).dialect = ((fresh random).run past).profile.dialect := by
  rcases ends with rfl | ⟨before, mv, rfl, adopts⟩
  · rfl
  · rw [run_append]
    exact dialect_of_adopts adopts

end

/-- **Where the dialect comes from.** After any history the profile is the one asked for last, and
the dialect is that of the profile but for what was switched since it was last adopted: on setting
a profile, on starting over, or on switching the machine on. A call switches what it lists and
nothing else. No instruction changes either, and no program that cannot be loaded changes
anything. -/
theorem dialect_history (random : Random) (h : List Turn) :
    (((fresh random).after h).profile =
      (((fresh random).history h).filterMap Move.profile?).getLast?.getD default) ∧
    (∃ past later, (fresh random).history h = past ++ later ∧
      (fresh random).EndsWith Adopts past ∧ ((fresh random).run past).Avoids Adopts later ∧
      ∀ v : Variation, ((fresh random).after h).dialect.follows v =
        v.switchedBy (((fresh random).after h).profile.dialect.follows v)
          (later.filterMap Move.switched?)) ∧
    (∀ (d : Dialect) (vs : List Variation) (on : Bool) (v : Variation),
      (d.switchAll vs on).follows v = if v ∈ vs then on else d.follows v) ∧
    (∀ (m : Machine) (i : Instruction),
      (m.execute i).dialect = m.dialect ∧ (m.execute i).profile = m.profile) ∧
    (∀ (m : Machine) (s : Source), (m.load s).isOk = false → m.apply (.load s) = m) ∧
    (∀ (m : Machine) (path : String), (m.loadFile path).isOk = false →
      m.apply (.loadFile path) = m) := by
  refine ⟨?_, ?_, Dialect.follows_switchAll, fun m i => ?_, fun m s => apply_of_not_isOk,
    fun m path => apply_of_not_isOk⟩
  · rw [← run_history, profile_run]
    rfl
  · obtain ⟨past, later, split, ends, keeps⟩ := exists_latest Adopts (fresh random)
      ((fresh random).history h)
    refine ⟨past, later, split, ends, keeps, fun v => ?_⟩
    obtain ⟨profile, follows⟩ := follows_run keeps v
    rw [← run_history, split, run_append, follows, profile, dialect_of_endsWith ends]
  · have same := m.execute_sameSettings i
    exact ⟨same.dialect, same.profile⟩

end Machine

end XoChip
