import XoChip.CommandLine.Session

/-!
The report of a run as its reader takes it in, line by line. Main statement: the lines of the report
(`lines_report`), of which the report of a breakpoint, the wait for a key and the counts are known
by how they begin (`beginning_report`).
-/

namespace XoChip

/-- The lines of a text; the last one stands behind the last line break. -/
def textLines (text : String) : List (List Char) :=
  text.toList.splitOn '\n'

/-- The lines of a text that begin in some way. -/
def beginning (start text : String) : List (List Char) :=
  (textLines text).filter (start.toList.isPrefixOf ·)

/-- Lines that are printed are lines of the text, if none of them holds a line break. -/
theorem splitOn_flatMap {ls : List (List Char)} (whole : ∀ l ∈ ls, '\n' ∉ l) :
    (ls.flatMap (· ++ ['\n'])).splitOn '\n' = ls ++ [[]] := by
  induction ls with
  | nil => rfl
  | cons l ls ih =>
    have first : '\n' ∉ l := whole l List.mem_cons_self
    have rest : ∀ l ∈ ls, '\n' ∉ l := fun l h => whole l (List.mem_cons_of_mem _ h)
    rw [List.flatMap_cons, List.append_assoc, List.singleton_append,
      List.splitOn_append_cons_self_of_not_mem first, ih rest]
    rfl

/-! ## Texts without line breaks -/

namespace Hex

theorem digit_mem (d : Fin 16) : digit d.val ∈ "0123456789ABCDEF".toList := by
  decide +revert

theorem mem_digits {width n : Nat} {c : Char} (h : c ∈ digits width n) :
    c ∈ "0123456789ABCDEF".toList := by
  induction width generalizing n with
  | zero => cases h
  | succ width ih =>
    rcases List.mem_append.mp h with higher | last
    · exact ih higher
    · cases List.mem_singleton.mp last
      exact digit_mem ⟨n % 16, Nat.mod_lt n (by decide)⟩

/-- The decimal digits are digits of any number. -/
theorem mem_toString {n : Nat} {c : Char} (h : c ∈ (toString n).toList) :
    c ∈ "0123456789ABCDEF".toList := by
  have digits : ∀ code < 58, 48 ≤ code → Char.ofNat code ∈ "0123456789ABCDEF".toList := by decide
  rw [Nat.toString_eq_ofList_toDigits, String.toList_ofList] at h
  have digit := Nat.isDigit_of_mem_toDigits (by decide) (by decide) h
  simp only [Char.isDigit, Bool.and_eq_true, decide_eq_true_eq, UInt32.le_iff_toNat_le] at digit
  rw [← Char.ofNat_toNat c]
  exact digits c.toNat (Nat.lt_succ_of_le digit.2) digit.1

@[simp]
theorem newline_notMem_digits (width n : Nat) : '\n' ∉ digits width n := by
  intro h
  exact absurd (mem_digits h) (by decide)

end Hex

@[simp]
theorem newline_notMem_toDigits (n : Nat) : '\n' ∉ Nat.toDigits 10 n := by
  intro h
  exact absurd (Nat.isDigit_of_mem_toDigits (by decide) (by decide) h) (by decide)

theorem newline_notMem_intercalate {ls : List (List Char)} (whole : ∀ l ∈ ls, '\n' ∉ l) :
    '\n' ∉ [' '].intercalate ls := by
  induction ls with
  | nil => simp
  | cons l ls ih =>
    have first := whole l List.mem_cons_self
    have rest := ih fun l h => whole l (List.mem_cons_of_mem _ h)
    cases ls with
    | nil => simpa using first
    | cons => simp [List.intercalate_cons_cons, first, rest]

/-- What is written of an operand. -/
theorem Operand.mem_chars {o : Operand} {c : Char} (h : c ∈ o.chars) :
    c ∈ "0123456789ABCDEFx ()".toList := by
  have digits : ∀ c ∈ "0123456789ABCDEF".toList, c ∈ "0123456789ABCDEFx ()".toList := by simp
  have prefixed : ∀ c ∈ "0x".toList, c ∈ "0123456789ABCDEFx ()".toList := by simp
  have opened : ∀ c ∈ " (".toList, c ∈ "0123456789ABCDEFx ()".toList := by simp
  have closed : ∀ c ∈ [')'], c ∈ "0123456789ABCDEFx ()".toList := by simp
  have number {width n : Nat} (h : c ∈ chars.number width n) :
      c ∈ "0123456789ABCDEFx ()".toList := by
    simp only [chars.number, List.mem_append] at h
    rcases h with (((start | hex) | gap) | decimal) | last
    · exact prefixed c start
    · exact digits c (Hex.mem_digits hex)
    · exact opened c gap
    · exact digits c (Hex.mem_toString decimal)
    · exact closed c last
  cases o with
  | register d | nibble d =>
    cases List.mem_singleton.mp h
    exact digits _ (Hex.digit_mem d)
  | byte | short | word => exact number h

theorem Operand.newline_notMem_chars (o : Operand) : '\n' ∉ o.chars := by
  intro h
  exact absurd (mem_chars h) (by decide)

theorem Piece.newline_notMem_fill {ps : List Piece} (whole : ∀ p ∈ ps, '\n' ∉ p.letters.toList)
    (os : List Operand) : '\n' ∉ fill ps os := by
  induction ps generalizing os with
  | nil => simp [fill]
  | cons p ps ih =>
    have first := whole p List.mem_cons_self
    have rest := ih fun p h => whole p (List.mem_cons_of_mem _ h)
    cases p with
    | text s => simpa [fill, rest, letters] using first
    | x | y | n | nn | nnn | nnnn =>
      cases os with
      | nil => simpa [fill, rest] using first
      | cons o os => simp [fill, rest, o.newline_notMem_chars]

theorem Line.newline_notMem_text (l : Line) : '\n' ∉ l.text.toList := by
  have labels : ∀ f ∈ Form.table, ∀ p ∈ f.label, '\n' ∉ p.letters.toList := by decide
  unfold Line.text
  split
  · rename_i i _
    rw [Instruction.text, String.toList_ofList]
    exact Piece.newline_notMem_fill (labels _ (Form.form_mem_table i)) _
  · decide

theorem Line.newline_notMem_hex (l : Line) : '\n' ∉ l.hex.toList := by
  rw [Line.hex, String.toList_intercalate]
  refine newline_notMem_intercalate fun cs h => ?_
  obtain ⟨field, found, rfl⟩ := List.mem_map.mp h
  obtain ⟨b, -, rfl⟩ := List.mem_map.mp found
  simp [Hex.field]

/-! ## The report -/

namespace CommandLine

/-- What is printed about a breakpoint that stopped the run. -/
def stopLine (label : String) (address : Word) : String :=
  s!"stopped at {label} (0x{Hex.field 4 address.toNat})"

/-- What is printed if the run ended waiting for a key. -/
def waitLine : String :=
  "waiting for a key press"

/-- What is printed about how long the run was. -/
def countLine (frames instructions : Nat) : String :=
  s!"ran {frames} frames, {instructions} instructions"

namespace Session

/-- A line of the listing as it is printed. -/
def listingLine (l : Line) : List Char :=
  Hex.digits 4 l.address.toNat ++ [' ', ' '] ++ l.hex.toList.rightpad 11 ' ' ++ [' ', ' '] ++
    l.text.toList

/-- The lines that tell how the run ended. -/
def headLines (s : Session) : List (List Char) :=
  (s.machine.stoppedAt.elim [] fun b => [(stopLine b.label b.address).toList]) ++
    (if s.machine.waiting then [waitLine.toList] else []) ++
    [(countLine s.frames s.machine.cycles).toList]

/-- A line that does not tell how the run ended: it is not broken, and no small letter begins it. -/
def Body (l : List Char) : Prop :=
  '\n' ∉ l ∧ ∀ c, l.head? = some c → c.isLower = false

theorem exists_screen (d : Display) :
    ∃ ls : List (List Char), (screen d).toList = ls.flatMap (· ++ ['\n']) ∧ ∀ l ∈ ls, Body l := by
  have marked (first second : Bool) : mark first second ∈ " 12#".toList := by
    decide +revert
  have marks : ∀ c ∈ " 12#".toList, c ≠ '\n' ∧ c.isLower = false := by simp
  refine ⟨(List.range 32).map fun y => (d.planes[0][Fin.ofNat 64 (2 * y)].zipWith mark
    d.planes[1][Fin.ofNat 64 (2 * y)]).toList, by simp [screen, List.flatMap_map], fun l h => ?_⟩
  obtain ⟨y, -, rfl⟩ := List.mem_map.mp h
  have drawn {first second : Row} {c : Char} (h : c ∈ (first.zipWith mark second).toList) :
      c ≠ '\n' ∧ c.isLower = false := by
    obtain ⟨k, small, rfl⟩ := List.mem_iff_getElem.mp h
    rw [Vector.getElem_toList, Vector.getElem_zipWith]
    exact marks _ (marked _ _)
  exact ⟨fun h => (drawn h).1 rfl, fun c first => (drawn (List.mem_of_head? first)).2⟩

theorem body_listingLine (l : Line) : Body (listingLine l) := by
  have digits : ∀ c ∈ "0123456789ABCDEF".toList, c.isLower = false := by simp
  refine ⟨?_, fun c first => ?_⟩
  · simp [listingLine, l.newline_notMem_hex, l.newline_notMem_text]
  · cases field : Hex.digits 4 l.address.toNat with
    | nil => simpa [field] using Hex.length_digits 4 l.address.toNat
    | cons d ds =>
      simp only [listingLine, field, List.cons_append, List.head?_cons] at first
      cases first
      exact digits c (Hex.mem_digits (field ▸ List.mem_cons_self))

theorem toList_listed (l : Line) : (listed l).toList = listingLine l ++ ['\n'] := by
  simp [listed, listingLine, Hex.field, toString]

/-- The report tells how the run ended; the picture and the listing come after that. -/
theorem exists_body (s : Session) (o : Options) :
    ∃ body, (s.report o).toList = (s.headLines ++ body).flatMap (· ++ ['\n']) ∧
      ∀ l ∈ body, Body l := by
  obtain ⟨picture, drawn, plain⟩ := exists_screen s.machine.display
  have listing : (String.join (s.machine.disassembly.renumber.lines.map listed)).toList =
      (s.machine.disassembly.renumber.lines.map listingLine).flatMap (· ++ ['\n']) := by
    simp [List.flatMap_map, toList_listed]
  refine ⟨picture ++
    if o.disassemble then s.machine.disassembly.renumber.lines.map listingLine else [], ?_, ?_⟩
  · simp only [report, headLines, List.flatMap_append, String.toList_append, drawn]
    cases s.machine.stoppedAt <;> cases s.machine.waiting <;> cases o.disassemble <;>
      simp [stopLine, waitLine, countLine, listing, toString]
  · intro l h
    rcases List.mem_append.mp h with picture | listed
    · exact plain l picture
    · split at listed
      · obtain ⟨line, -, rfl⟩ := List.mem_map.mp listed
        exact body_listingLine line
      · cases listed

/-- The label of the breakpoint the report names does not break its line. -/
def Labelled (s : Session) : Prop :=
  ∀ b, s.machine.stoppedAt = some b → '\n' ∉ b.label.toList

section
variable {s : Session} (labelled : s.Labelled) (o : Options)
include labelled

theorem lines_report :
    ∃ body, textLines (s.report o) = s.headLines ++ body ∧ ∀ l ∈ body, Body l := by
  have whole : ∀ l ∈ s.headLines, '\n' ∉ l := by
    intro l h
    simp only [headLines, List.mem_append, List.mem_singleton] at h
    rcases h with (stopped | waiting) | rfl
    · cases reported : s.machine.stoppedAt with
      | none => simp [reported] at stopped
      | some b =>
        have label := labelled b reported
        simp only [reported, Option.elim, List.mem_singleton] at stopped
        subst stopped
        simp [stopLine, Hex.field, label, toString]
    · split at waiting
      · cases List.mem_singleton.mp waiting
        decide
      · cases waiting
    · simp [countLine, toString]
  obtain ⟨body, printed, plain⟩ := s.exists_body o
  refine ⟨body ++ [[]], ?_, fun l h => ?_⟩
  · rw [textLines, printed, splitOn_flatMap fun l h => ?_, List.append_assoc]
    rcases List.mem_append.mp h with head | body
    · exact whole l head
    · exact (plain l body).1
  · rcases List.mem_append.mp h with body | last
    · exact plain l body
    · cases List.mem_singleton.mp last
      exact ⟨List.not_mem_nil, nofun⟩

/-- What begins with a small letter is among the lines that tell how the run ended. -/
theorem beginning_eq {start : String} {first : Char} {rest : List Char}
    (letters : start.toList = first :: rest) (lower : first.isLower = true) :
    beginning start (s.report o) = s.headLines.filter (start.toList.isPrefixOf ·) := by
  obtain ⟨body, lines, plain⟩ := lines_report labelled o
  have other : ∀ l ∈ body, ¬start.toList.isPrefixOf l = true := by
    intro l h
    rw [letters]
    cases l with
    | nil => simp
    | cons c cs =>
      have upper := (plain _ h).2 c rfl
      have apart : first ≠ c := by
        rintro rfl
        cases lower.symm.trans upper
      simp [apart]
  rw [beginning, lines, List.filter_append, List.filter_eq_nil_iff.mpr other, List.append_nil]

theorem beginning_report :
    beginning "stopped at " (s.report o) =
      (s.machine.stoppedAt.elim [] fun b => [(stopLine b.label b.address).toList]) ∧
    beginning waitLine (s.report o) = (if s.machine.waiting then [waitLine.toList] else []) ∧
    beginning "ran " (s.report o) = [(countLine s.frames s.machine.cycles).toList] := by
  refine ⟨?_, ?_, ?_⟩
  all_goals
    rw [beginning_eq labelled o rfl rfl, headLines]
    cases s.machine.stoppedAt <;> cases s.machine.waiting <;>
      simp [stopLine, waitLine, countLine, toString]

end

end Session

end CommandLine

end XoChip
