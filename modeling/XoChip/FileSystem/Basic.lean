import XoChip.FileSystem.Path

/-!
Files and directories by their places. A path leads to a place only through directories, so two
paths may lead to the same file. Main statements: what is written is read back by every path to its
place (`read_write`), and every other path reads what it read before (`read_write_of_ne`).
-/

namespace XoChip

inductive FileEntry
  | file (bytes : List UInt8)
  | directory
  deriving DecidableEq, Repr

inductive FileError
  | missing
  | notDirectory
  | isDirectory
  | alreadyThere
  | unusableName
  deriving DecidableEq, Repr

def FileError.message : FileError → String
  | missing => "no such file"
  | notDirectory => "not a directory"
  | isDirectory => "is a directory"
  | alreadyThere => "already there"
  | unusableName => "no usable name"

/-- What stands at each place; the first entry of a place counts. -/
structure FileSystem where
  entries : List (Place × FileEntry)
  deriving DecidableEq, Repr

namespace FileSystem

/-- A root with nothing in it. -/
def empty : FileSystem := ⟨[([], .directory)]⟩

instance : Inhabited FileSystem := ⟨empty⟩

def lookup? (fs : FileSystem) (place : Place) : Option FileEntry :=
  fs.entries.lookup place

def erase (fs : FileSystem) (place : Place) : FileSystem :=
  ⟨fs.entries.filter fun e => e.1 ≠ place⟩

def insert (fs : FileSystem) (place : Place) (e : FileEntry) : FileSystem :=
  ⟨(place, e) :: (fs.erase place).entries⟩

/-- Where the parts of a path lead from a place, each of them through a directory. -/
def walk (fs : FileSystem) (place : Place) : List String → Except FileError Place
  | [] => .ok place
  | part :: rest =>
    match fs.lookup? place with
    | some .directory => fs.walk (place.follow part) rest
    | some (.file _) => .error .notDirectory
    | none => .error .missing

/-- Where a path leads, whether or not something stands there. -/
def locate (fs : FileSystem) (path : String) : Except FileError Place :=
  if path.utf8ByteSize < Path.limit then fs.walk [] (Path.parts path) else .error .unusableName

/-- Puts an entry where nothing stands. -/
def create (fs : FileSystem) (place : Place) (e : FileEntry) : Except FileError FileSystem :=
  if place.nameable then .ok (fs.insert place e) else .error .unusableName

def read (fs : FileSystem) (path : String) : Except FileError (List UInt8) := do
  match fs.lookup? (← fs.locate path) with
  | some (.file bytes) => .ok bytes
  | some .directory => .error .isDirectory
  | none => .error .missing

/-- Replaces or creates a file. -/
def write (fs : FileSystem) (path : String) (bytes : List UInt8) : Except FileError FileSystem := do
  let place ← fs.locate path
  match fs.lookup? place with
  | some (.file _) => .ok (fs.insert place (.file bytes))
  | some .directory => .error .isDirectory
  | none => fs.create place (.file bytes)

def remove (fs : FileSystem) (path : String) : Except FileError FileSystem := do
  let place ← fs.locate path
  match fs.lookup? place with
  | some (.file _) => .ok (fs.erase place)
  | some .directory => .error .isDirectory
  | none => .error .missing

/-- Creates a directory in one that is there; slashes may stand behind its name. -/
def makeDirectory (fs : FileSystem) (path : String) : Except FileError FileSystem := do
  let place ← fs.locate (Path.trimmed path)
  match fs.lookup? place with
  | some _ => .error .alreadyThere
  | none => fs.create place .directory

/-- Puts an entry where the parts of a path lead from a place, with a directory wherever nothing
stands on the way. -/
def plantFrom (fs : FileSystem) (place : Place) (e : FileEntry) : List String → FileSystem
  | [] => fs.insert place e
  | part :: rest =>
    let fs := if (fs.lookup? place).isNone then fs.insert place .directory else fs
    fs.plantFrom (place.follow part) e rest

def plant (fs : FileSystem) (path : String) (e : FileEntry) : FileSystem :=
  fs.plantFrom [] e (Path.parts path)

theorem lookup?_erase (fs : FileSystem) (p q : Place) :
    (fs.erase p).lookup? q = if p = q then none else fs.lookup? q := by
  obtain ⟨es⟩ := fs
  simp only [lookup?, erase]
  induction es with
  | nil => simp
  | cons e es ih =>
    obtain ⟨place, entry⟩ := e
    by_cases h : place = p <;> by_cases hq : q = place <;> simp_all [List.lookup_cons]
    all_goals grind

theorem lookup?_insert (fs : FileSystem) (p q : Place) (e : FileEntry) :
    (fs.insert p e).lookup? q = if p = q then some e else fs.lookup? q := by
  have h := fs.lookup?_erase p q
  by_cases hq : p = q
  · simp [lookup?, insert, hq]
  · have hb : (q == p) = false := by simp [Ne.symm hq]
    simp only [hq, ↓reduceIte] at h ⊢
    rw [← h]
    simp [lookup?, insert, List.lookup_cons, hb]

/-- Files lie on no way, so none of them opens or closes one. -/
theorem walk_insert_file (fs : FileSystem) (p : Place) (bytes : List UInt8)
    (free : fs.lookup? p ≠ some .directory) (start q : Place) (parts : List String) :
    (fs.insert p (.file bytes)).walk start parts = .ok q ↔ fs.walk start parts = .ok q := by
  induction parts generalizing start with
  | nil => rfl
  | cons part rest ih =>
    simp only [walk, lookup?_insert]
    by_cases here : p = start
    · subst here
      cases stands : fs.lookup? p with
      | none => simp
      | some e => cases e <;> simp_all
    · simp only [here, ↓reduceIte]
      cases fs.lookup? start with
      | none => simp
      | some e => cases e <;> simp [ih]

/-- A write puts a file at the place its path leads to, where no directory stands. -/
theorem write_eq_ok {fs after : FileSystem} {path : String} {bytes : List UInt8}
    (h : fs.write path bytes = .ok after) :
    ∃ place, fs.locate path = .ok place ∧ fs.lookup? place ≠ some .directory ∧
      after = fs.insert place (.file bytes) := by
  simp only [write, bind, Except.bind] at h
  cases found : fs.locate path with
  | error e => simp [found] at h
  | ok place =>
    refine ⟨place, rfl, ?_⟩
    cases stands : fs.lookup? place with
    | none =>
      simp only [found, stands, create] at h
      split at h <;> simp_all
    | some e => cases e <;> simp_all

theorem locate_write {fs after : FileSystem} {path : String} {bytes : List UInt8}
    (h : fs.write path bytes = .ok after) (other : String) (q : Place) :
    after.locate other = .ok q ↔ fs.locate other = .ok q := by
  obtain ⟨place, -, free, rfl⟩ := write_eq_ok h
  simp only [locate]
  split
  · exact fs.walk_insert_file place bytes free [] q _
  · rfl

/-- Every path to the place of a file that was written reads what was written. -/
theorem read_write {fs after : FileSystem} {path : String} {bytes : List UInt8}
    (h : fs.write path bytes = .ok after) (other : String)
    (same : fs.locate other = fs.locate path) : after.read other = .ok bytes := by
  have ways := locate_write h other
  obtain ⟨place, found, -, rfl⟩ := write_eq_ok h
  simp [read, bind, Except.bind, (ways place).2 (same.trans found), lookup?_insert]

/-- Every path to another place reads what it read before. -/
theorem read_write_of_ne {fs after : FileSystem} {path : String} {bytes : List UInt8}
    (h : fs.write path bytes = .ok after) (other : String)
    (apart : fs.locate other ≠ fs.locate path) (content : List UInt8) :
    after.read other = .ok content ↔ fs.read other = .ok content := by
  have ways := locate_write h other
  obtain ⟨place, found, -, rfl⟩ := write_eq_ok h
  simp only [read, bind, Except.bind]
  cases led : fs.locate other with
  | error e =>
    cases leads : (fs.insert place (.file bytes)).locate other with
    | error e' => simp
    | ok q => simp_all
  | ok q =>
    have elsewhere : place ≠ q := fun same => apart (by rw [led, found, same])
    simp [(ways q).2 led, lookup?_insert, elsewhere]

end FileSystem

end XoChip
