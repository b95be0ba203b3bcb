import XoChip.Proofs.Checked.Listing
import XoChip.Proofs.Report

/-!
Texts of instructions, as replacements in their labels. Main statement: the operands go into a label
from left to right, none of them touched by a later replacement; no letter that stands for an
operand is left; and two instructions with one text have the same form and the same operands
(`text_unambiguous`).
-/

namespace XoChip

/-! ## Replacements -/

namespace Rendering

/-- Where one text first occurs in another. -/
def position? (old text : List Char) : Option Nat :=
  (List.range (text.length + 1)).find? fun k => old.isPrefixOf (text.drop k)

/-- Replaces the first occurrence of a text, if there is one. -/
def replaceFirst (old new text : List Char) : List Char :=
  match position? old text with
  | some k => text.take k ++ new ++ text.drop (k + old.length)
  | none => text

/-- What each operand is written in place of. Registers take the given letters in turn, and none
once these are used up. -/
def substitutions : List Piece → List Operand → List (Piece × Operand)
  | _, [] => []
  | r :: rs, .register x :: os => (r, .register x) :: substitutions rs os
  | [], .register _ :: os => substitutions [] os
  | rs, .nibble n :: os => (.n, .nibble n) :: substitutions rs os
  | rs, .byte b :: os => (.nn, .byte b) :: substitutions rs os
  | rs, .short a :: os => (.nnn, .short a) :: substitutions rs os
  | rs, .word w :: os => (.nnnn, .word w) :: substitutions rs os

def substitute (text : List Char) (s : Piece × Operand) : List Char :=
  replaceFirst s.1.letters.toList s.2.chars text

/-- Substitutions go through a label from left to right: each finds its letters for the first time
in the `rest` of the label, behind the operands that are in their places already. -/
inductive LeftToRight :
    (settled rest : List Char) → List (Piece × Operand) → (result : List Char) → Prop
  | done (settled rest : List Char) : LeftToRight settled rest [] (settled ++ rest)
  | place {settled before after result : List Char} {p : Piece} {o : Operand}
      {ss : List (Piece × Operand)}
      (found : position? p.letters.toList (settled ++ before ++ p.letters.toList ++ after) =
        some (settled ++ before).length)
      (later : LeftToRight (settled ++ before ++ o.chars) after ss result) :
      LeftToRight settled (before ++ p.letters.toList ++ after) ((p, o) :: ss) result

section
variable {settled rest result : List Char} {ss : List (Piece × Operand)}

theorem replaceFirst_of_position? {old front after : List Char} (new : List Char)
    (found : position? old (front ++ old ++ after) = some front.length) :
    replaceFirst old new (front ++ old ++ after) = front ++ new ++ after := by
  rw [replaceFirst, found]
  simp [List.drop_append]

theorem LeftToRight.foldl_eq (h : LeftToRight settled rest ss result) :
    ss.foldl substitute (settled ++ rest) = result := by
  induction h with
  | done => rfl
  | @place settled before after _ p o _ found _ ih =>
    have placed := replaceFirst_of_position? o.chars found
    rw [List.foldl_cons, substitute, ← List.append_assoc, ← List.append_assoc, placed, ih]

/-- Text that is passed over belongs to what comes before the next place. -/
theorem LeftToRight.pass {passed : List Char} (h : LeftToRight (settled ++ passed) rest ss result) :
    LeftToRight settled (passed ++ rest) ss result := by
  cases h with
  | done =>
    rw [List.append_assoc]
    exact .done settled (passed ++ rest)
  | @place _ before after _ p o ss found later =>
    rw [List.append_assoc settled] at found later
    have placed := LeftToRight.place found later
    simpa only [List.append_assoc] using placed

end

/-! ## Letters that stand for operands -/

/-- The letters that stand for operands in labels. -/
def marks : List Char :=
  ['X', 'Y', 'N']

/-- A text holds no letter that stands for an operand. -/
def Plain (text : List Char) : Prop :=
  ∀ c ∈ text, c ∉ marks

instance (text : List Char) : Decidable (Plain text) :=
  List.decidableBAll (· ∉ marks) text

theorem Plain.append {first second : List Char} (h : Plain first) (h' : Plain second) :
    Plain (first ++ second) := by
  intro c found
  rcases List.mem_append.mp found with found | found
  · exact h c found
  · exact h' c found

/-- What begins with such a letter does not occur before the first of them. -/
theorem position?_plain {plain : List Char} (h : Plain plain) {c : Char} (mark : c ∈ marks)
    (cs after : List Char) :
    position? (c :: cs) (plain ++ c :: cs ++ after) = some plain.length := by
  rw [position?, List.find?_range_eq_some]
  refine ⟨?_, ?_, fun k before => ?_⟩
  · simp
  · rw [List.mem_range, List.append_assoc, List.length_append]
    omega
  · have other : plain[k] ≠ c := fun same => h _ (List.getElem_mem before) (same ▸ mark)
    have head : (plain ++ c :: cs ++ after).drop k =
        plain[k] :: (plain.drop (k + 1) ++ (c :: cs ++ after)) := by
      rw [List.append_assoc, List.drop_append_of_le_length (Nat.le_of_lt before),
        List.drop_eq_getElem_cons before]
      rfl
    rw [Bool.not_eq_true', ← Bool.not_eq_true, List.isPrefixOf_iff_prefix, head,
      List.cons_prefix_cons]
    exact fun same => other same.1.symm

end Rendering

open Rendering

theorem Piece.exists_mark {p : Piece} {k : OperandKind} (kind : p.kind? = some k) :
    ∃ c cs, p.letters.toList = c :: cs ∧ c ∈ marks := by
  cases p with
  | text => cases kind
  | x | y | n | nn | nnn | nnnn => exact ⟨_, _, rfl, by decide⟩

theorem Operand.plain_chars (o : Operand) : Plain o.chars := by
  have apart : ∀ c ∈ marks, c ∉ "0123456789ABCDEFx ()".toList := by simp [marks]
  intro c found mark
  exact apart c mark (mem_chars found)

/-! ## Digits -/

/-- A text without its digits. -/
def strike (text : List Char) : List Char :=
  text.filter (· ∉ "0123456789ABCDEF".toList)

theorem strike_append (first second : List Char) :
    strike (first ++ second) = strike first ++ strike second :=
  List.filter_append ..

theorem strike_eq_nil {text : List Char}
    (digits : ∀ c ∈ text, c ∈ "0123456789ABCDEF".toList) : strike text = [] :=
  List.filter_eq_nil_iff.mpr fun c h struck => of_decide_eq_true struck (digits c h)

theorem Hex.digit_injective {d e : Fin 16} (same : digit d.val = digit e.val) : d = e := by
  decide +revert

/-- As many digits as a number needs tell the number. -/
theorem Hex.digits_injective {width n k : Nat} (small : n < 16 ^ width) (small' : k < 16 ^ width)
    (same : digits width n = digits width k) : n = k := by
  induction width generalizing n k with
  | zero => omega
  | succ width ih =>
    obtain ⟨higher, last⟩ := List.append_inj' same rfl
    have quotient := ih (n := n / 16) (k := k / 16) (by omega) (by omega) higher
    have remainder := congrArg Fin.val (digit_injective (d := ⟨n % 16, by omega⟩)
      (e := ⟨k % 16, by omega⟩) (List.singleton_inj.mp last))
    change n % 16 = k % 16 at remainder
    omega

namespace Operand

theorem strike_chars (o : Operand) :
    strike o.chars = match o.kind with
      | .register | .nibble => []
      | .byte | .short | .word => "x ()".toList := by
  have number (width n : Nat) : strike (chars.number width n) = "x ()".toList := by
    rw [chars.number, strike_append, strike_append, strike_append, strike_append,
      strike_eq_nil fun _ => Hex.mem_digits, strike_eq_nil fun _ => Hex.mem_toString]
    rfl
  cases o with
  | register d | nibble d =>
    refine strike_eq_nil fun c h => ?_
    cases List.mem_singleton.mp h
    exact Hex.digit_mem d
  | byte | short | word => exact number _ _

/-- Numbers of one width end where their digits tell. -/
theorem number_append_inj {width n k : Nat} {l l' : List Char} (small : n < 16 ^ width)
    (small' : k < 16 ^ width) (same : chars.number width n ++ l = chars.number width k ++ l') :
    n = k ∧ l = l' := by
  simp only [chars.number, List.append_assoc] at same
  have behind := List.append_cancel_left same
  have digits := (List.append_inj behind (by simp only [Hex.length_digits])).1
  obtain rfl := Hex.digits_injective small small' digits
  exact ⟨rfl, by simpa using behind⟩

/-- Operands of one kind are told by how a text begins with them. -/
theorem chars_append_inj {o o' : Operand} {l l' : List Char} (kind : o.kind = o'.kind)
    (same : o.chars ++ l = o'.chars ++ l') : o = o' ∧ l = l' := by
  cases o with
  | register d =>
    cases o' with
    | register d' =>
      obtain ⟨digit, rest⟩ := List.cons.inj same
      exact ⟨congrArg _ (Hex.digit_injective digit), rest⟩
    | _ => cases kind
  | nibble d =>
    cases o' with
    | nibble d' =>
      obtain ⟨digit, rest⟩ := List.cons.inj same
      exact ⟨congrArg _ (Hex.digit_injective digit), rest⟩
    | _ => cases kind
  | byte b =>
    cases o' with
    | byte b' =>
      obtain ⟨number, rest⟩ := number_append_inj b.toNat_lt b'.toNat_lt same
      exact ⟨congrArg _ (UInt8.toNat_inj.mp number), rest⟩
    | _ => cases kind
  | short a =>
    cases o' with
    | short a' =>
      obtain ⟨number, rest⟩ := number_append_inj a.isLt a'.isLt same
      exact ⟨congrArg _ (Fin.ext number), rest⟩
    | _ => cases kind
  | word w =>
    cases o' with
    | word w' =>
      obtain ⟨number, rest⟩ := number_append_inj w.toNat_lt w'.toNat_lt same
      exact ⟨congrArg _ (UInt16.toNat_inj.mp number), rest⟩
    | _ => cases kind

end Operand

/-! ## Labels and their operands -/

namespace Piece

/-- Every place of a label has an operand of its kind. -/
inductive Fits : List Piece → List Operand → Prop
  | nil : Fits [] []
  | text {s : String} {ps : List Piece} {os : List Operand} (rest : Fits ps os) :
      Fits (.text s :: ps) os
  | place {p : Piece} {o : Operand} {ps : List Piece} {os : List Operand}
      (kind : p.kind? = some o.kind) (rest : Fits ps os) : Fits (p :: ps) (o :: os)

section
variable {p : Piece} {o : Operand} {ps : List Piece} {os os' : List Operand}

theorem fits_of_kinds (kinds : ps.filterMap kind? = os.map Operand.kind) : Fits ps os := by
  induction ps generalizing os with
  | nil =>
    obtain rfl := List.map_eq_nil_iff.mp kinds.symm
    exact .nil
  | cons p ps ih =>
    cases place : p.kind? with
    | none =>
      rw [List.filterMap_cons_none place] at kinds
      cases p with
      | text => exact .text (ih kinds)
      | x | y | n | nn | nnn | nnnn => cases place
    | some k =>
      rw [List.filterMap_cons_some place] at kinds
      obtain ⟨o, os, rfl, rfl, rest⟩ := List.map_eq_cons_iff.mp kinds.symm
      exact .place place (ih rest.symm)

theorem fill_place (kind : p.kind? = some o.kind) :
    fill (p :: ps) (o :: os) = o.chars ++ fill ps os := by
  cases p with
  | text => cases kind
  | x | y | n | nn | nnn | nnnn => rfl

/-- The letters of a label. -/
def written (ps : List Piece) : List Char :=
  ps.flatMap fun p => p.letters.toList

theorem exists_substitutions {rs : List Piece} (os : List Operand) (kind : p.kind? = some o.kind)
    (registers : (p :: ps).filter (·.kind? = some .register) <+: rs) :
    ∃ rs', substitutions rs (o :: os) = (p, o) :: substitutions rs' os ∧
      ps.filter (·.kind? = some .register) <+: rs' := by
  cases o with
  | register r =>
    have register : p.kind? = some .register := kind
    rw [List.filter_cons_of_pos (by simpa using register)] at registers
    obtain ⟨rs', rfl⟩ := registers
    exact ⟨_, rfl, List.prefix_append ..⟩
  | nibble | byte | short | word =>
    cases p <;> cases kind
    exact ⟨rs, by cases rs <;> rfl, registers⟩

theorem leftToRight_fill {settled : List Char} {rs : List Piece} (h : Fits ps os)
    (plain : Plain settled) (texts : ∀ p ∈ ps, p.kind? = none → Plain p.letters.toList)
    (registers : ps.filter (·.kind? = some .register) <+: rs) :
    LeftToRight settled (written ps) (substitutions rs os) (settled ++ fill ps os) ∧
    Plain (settled ++ fill ps os) := by
  induction h generalizing settled rs with
  | nil =>
    have done := LeftToRight.done settled []
    rw [List.append_nil] at done
    simpa [substitutions, fill, written] using ⟨done, plain⟩
  | @text s ps os rest ih =>
    have passed := ih (plain.append (texts (.text s) List.mem_cons_self rfl))
      (fun p h => texts p (List.mem_cons_of_mem _ h)) registers
    rw [List.append_assoc] at passed
    exact ⟨passed.1.pass, passed.2⟩
  | @place p o ps os kind rest ih =>
    obtain ⟨c, cs, letters, mark⟩ := exists_mark kind
    obtain ⟨rs', next, left⟩ := exists_substitutions os kind registers
    have later := ih (plain.append o.plain_chars)
      (fun p h => texts p (List.mem_cons_of_mem _ h)) left
    have found := position?_plain plain mark cs (written ps)
    rw [List.append_assoc, ← fill_place kind] at later
    rw [next]
    refine ⟨?_, later.2⟩
    have placed : LeftToRight settled ([] ++ p.letters.toList ++ written ps)
        ((p, o) :: substitutions rs' os) (settled ++ fill (p :: ps) (o :: os)) := by
      refine .place ?_ ?_
      · simpa [letters] using found
      · simpa using later.1
    simpa [written] using placed

end

/-! ## What the digits are written around -/

/-- What is left of a piece and of any operand in its place when the digits are struck out. -/
def skeleton : Piece → List Char
  | text s => strike s.toList
  | x | y | n => []
  | nn | nnn | nnnn => "x ()".toList

theorem strike_fill {ps : List Piece} {os : List Operand} (h : Fits ps os) :
    strike (fill ps os) = ps.flatMap skeleton := by
  induction h with
  | nil => rfl
  | text rest ih => exact (List.filter_append ..).trans (congrArg _ ih)
  | @place p o ps os kind rest ih =>
    have struck : strike o.chars = p.skeleton := by
      rw [Operand.strike_chars]
      cases o <;> cases p <;> cases kind <;> rfl
    rw [fill_place kind, strike_append, struck, ih]
    rfl

/-- The operands are told by what is written in a label. -/
theorem fill_injective {ps : List Piece} {os os' : List Operand} (h : Fits ps os) (h' : Fits ps os')
    (same : fill ps os = fill ps os') : os = os' := by
  induction h generalizing os' with
  | nil =>
    cases h'
    rfl
  | text rest ih =>
    cases h' with
    | text rest' => exact ih rest' (List.append_cancel_left same)
    | place kind => cases kind
  | @place p o ps os kind rest ih =>
    cases h' with
    | text => cases kind
    | @place _ o' _ os' kind' rest' =>
      rw [fill_place kind, fill_place kind'] at same
      have kinds : o.kind = o'.kind := Option.some.inj (kind.symm.trans kind')
      obtain ⟨rfl, left⟩ := Operand.chars_append_inj kinds same
      rw [ih rest' left]

end Piece

/-- No two forms leave the same text when the digits are struck out. -/
theorem Form.eq_of_skeleton : ∀ f ∈ Form.table, ∀ g ∈ Form.table,
    f.label.flatMap Piece.skeleton = g.label.flatMap Piece.skeleton → f = g := by
  decide +kernel

/-! ## Lines -/

theorem toList_labelText (f : Form) : f.labelText.toList = Piece.written f.label := by
  simp [Form.labelText, Piece.written, List.flatMap_map]

theorem fits_formOf (found : Option Instruction) :
    Piece.Fits (Instruction.formOf found).label (Checked.operandsOf found) := by
  cases found with
  | none => exact .text .nil
  | some i => exact Piece.fits_of_kinds i.kinds_form

/-- Labels hold letters that stand for operands in their places only, and those of registers in
their order. -/
theorem label_plain (found : Option Instruction) :
    (∀ p ∈ (Instruction.formOf found).label, p.kind? = none → Plain p.letters.toList) ∧
    (Instruction.formOf found).label.filter (·.kind? = some .register) <+: [.x, .y] := by
  have table : ∀ f ∈ Form.invalid :: Form.table,
      (∀ p ∈ f.label, p.kind? = none → Plain p.letters.toList) ∧
      f.label.filter (·.kind? = some .register) <+: [.x, .y] := by
    decide
  cases found with
  | none => exact table _ List.mem_cons_self
  | some i => exact table _ (List.mem_cons_of_mem _ (Form.form_mem_table i))

/-- Instructions with one text have one form, since their texts differ in digits alone, and the form
tells where the operands are. -/
theorem Instruction.eq_of_text {i j : Instruction} (same : i.text = j.text) :
    i.form = j.form ∧ i.operands = j.operands := by
  have fits : Piece.Fits i.form.label i.operands := fits_formOf (some i)
  have fits' : Piece.Fits j.form.label j.operands := fits_formOf (some j)
  rw [text, text, String.ofList_inj] at same
  have struck := congrArg strike same
  rw [Piece.strike_fill fits, Piece.strike_fill fits'] at struck
  have form : i.form = j.form :=
    Form.eq_of_skeleton _ (Form.form_mem_table i) _ (Form.form_mem_table j) struck
  rw [← form] at same fits'
  exact ⟨form, Piece.fill_injective fits fits' same⟩

theorem text_of_instruction? {m : Memory} {a : Word} {i : Instruction}
    (found : m.instruction? a = some i) (index visit : Nat) :
    (Line.ofMemory m a index visit).text = i.text := by
  simp only [Line.text, Line.ofMemory, found]

/-- **Texts are unambiguous.** A text is made of a label by replacements, one for each operand, from
left to right: none of them touches an operand that is in its place already. No letter is left that
stands for an operand. Wherever two instructions stand in whatever memories, if they have one text,
they have one form, and the operands of one are those of the other. -/
theorem text_unambiguous (m m' : Memory) (a a' : Word) (index index' visit visit' : Nat) :
    (let label := (Instruction.formOf (m.instruction? a)).labelText.toList
     let ss := substitutions [.x, .y] (Checked.operandsOf (m.instruction? a))
     let text := (Line.ofMemory m a index visit).text.toList
     ss.foldl substitute label = text ∧ LeftToRight [] label ss text ∧ Plain text) ∧
    ∀ i j, m.instruction? a = some i → m'.instruction? a' = some j →
      (Line.ofMemory m a index visit).text = (Line.ofMemory m' a' index' visit').text →
      i.form = j.form ∧ i.operands = j.operands := by
  constructor
  · have rendered := Checked.text_ofMemory m a index visit
    generalize m.instruction? a = found at rendered
    obtain ⟨texts, registers⟩ := label_plain found
    obtain ⟨inOrder, plain⟩ :=
      Piece.leftToRight_fill (fits_formOf found) (show Plain [] from nofun) texts registers
    rw [rendered, String.toList_ofList, toList_labelText]
    exact ⟨inOrder.foldl_eq, inOrder, plain⟩
  · intro i j found found' same
    rw [text_of_instruction? found, text_of_instruction? found'] at same
    exact Instruction.eq_of_text same

/-- `00C5 0AC5`, where the second digit is not looked at. -/
def scrollingTwice : Rom :=
  ⟨#[0x00, 0xC5, 0x0A, 0xC5], by decide⟩

theorem decoded_scrollingTwice :
    (Memory.ofRom scrollingTwice).word 0x200 ≠ (Memory.ofRom scrollingTwice).word 0x202 ∧
    (Memory.ofRom scrollingTwice).instruction? 0x200 = some (.scrollDown 5) ∧
    (Memory.ofRom scrollingTwice).instruction? 0x202 = some (.scrollDown 5) := by
  simp only [Memory.word_ofRom, Memory.instruction?_ofRom]
  decide

theorem text_unambiguous_scrollingTwice :
    ∃ m : Memory, m.word 0x200 ≠ m.word 0x202 ∧
      ∃ i j, m.instruction? 0x200 = some i ∧ m.instruction? 0x202 = some j ∧
        (Line.ofMemory m 0x200 0 0).text = "scroll-down 5" ∧
        (Line.ofMemory m 0x202 1 1).text = "scroll-down 5" ∧
        i.form = j.form ∧ i.operands = j.operands := by
  obtain ⟨words, first, second⟩ := decoded_scrollingTwice
  have text : (Line.ofMemory (.ofRom scrollingTwice) 0x200 0 0).text = "scroll-down 5" :=
    (text_of_instruction? first 0 0).trans (by decide)
  have text' : (Line.ofMemory (.ofRom scrollingTwice) 0x202 1 1).text = "scroll-down 5" :=
    (text_of_instruction? second 1 1).trans (by decide)
  have same := (text_unambiguous _ _ 0x200 0x202 0 1 0 1).2 _ _ first second
    (text.trans text'.symm)
  exact ⟨_, words, _, _, first, second, text, text', same⟩

end XoChip
