import Mathlib.Algebra.Group.Nat.Defs
import XoChip.Instruction.Decode
import XoChip.Instruction.Encode

/-!
Decoding against the printed encodings, digit by digit. Main statements: what decoding sees of a
word is what the instruction it finds encodes to (`reads_of_decode?`), every form that a word
matches as far as decoding sees is found (`exists_of_matches`), and operands placed in an encoding
are found again (`exists_of_kinds`).
-/

namespace XoChip

/-! ## Words by their digits -/

namespace Word

/-- The word written with four digits. -/
def ofDigits (a b c d : Fin 16) : Word :=
  UInt16.ofNat (4096 * a.val + (256 * b.val + (16 * c.val + d.val)))

/-- The word with a zero for its second digit. -/
def withoutSecond (w : Word) : Word :=
  ofDigits (w.nibble 3) 0 (w.nibble 1) (w.nibble 0)

theorem val_nibble (w : Word) (place : Nat) :
    (w.nibble place).val = w.toNat / 16 ^ place % 16 := by
  simp only [nibble, Fin.val_ofNat, Nat.shiftRight_eq_div_pow, Nat.pow_mul]

theorem toNat_ofDigits (a b c d : Fin 16) :
    (ofDigits a b c d).toNat = 4096 * a.val + (256 * b.val + (16 * c.val + d.val)) := by
  simp only [ofDigits, UInt16.toNat_ofNat']
  omega

@[simp]
theorem nibble_ofDigits (a b c d : Fin 16) :
    (ofDigits a b c d).nibble 3 = a ∧ (ofDigits a b c d).nibble 2 = b ∧
    (ofDigits a b c d).nibble 1 = c ∧ (ofDigits a b c d).nibble 0 = d := by
  simp only [Fin.ext_iff, val_nibble, toNat_ofDigits]
  omega

theorem ofDigits_nibble (w : Word) :
    ofDigits (w.nibble 3) (w.nibble 2) (w.nibble 1) (w.nibble 0) = w := by
  have bound := w.toNat_lt
  simp only [← UInt16.toNat_inj, toNat_ofDigits, val_nibble]
  omega

theorem exists_ofDigits (w : Word) : ∃ a b c d, w = ofDigits a b c d :=
  ⟨_, _, _, _, w.ofDigits_nibble.symm⟩

theorem lowByte_ofDigits (a b c d : Fin 16) :
    (ofDigits a b c d).lowByte = UInt8.ofNat (16 * c.val + d.val) := by
  simp only [← UInt8.toNat_inj, lowByte, UInt16.toNat_toUInt8, toNat_ofDigits, UInt8.toNat_ofNat']
  omega

theorem short_ofDigits (a b c d : Fin 16) :
    (ofDigits a b c d).short = Fin.ofNat 0x1000 (256 * b.val + (16 * c.val + d.val)) := by
  simp only [Fin.ext_iff, short, Fin.val_ofNat, toNat_ofDigits]
  omega

theorem nibble_withoutSecond (w : Word) :
    w.withoutSecond.nibble 3 = w.nibble 3 ∧ w.withoutSecond.nibble 2 = 0 ∧
    w.withoutSecond.nibble 1 = w.nibble 1 ∧ w.withoutSecond.nibble 0 = w.nibble 0 :=
  nibble_ofDigits ..

theorem toNat_ofBytes (high low : UInt8) :
    (ofBytes high low).toNat = 256 * high.toNat + low.toNat := by
  have above := high.toNat_lt
  have shifted : (high.toUInt16 <<< 8).toNat = high.toNat <<< 8 := by
    rw [UInt16.toNat_shiftLeft, UInt8.toNat_toUInt16]
    change high.toNat <<< 8 % 65536 = _
    rw [Nat.mod_eq_of_lt]
    rw [Nat.shiftLeft_eq]
    omega
  rw [ofBytes, UInt16.toNat_or, shifted, UInt8.toNat_toUInt16,
    ← Nat.shiftLeft_add_eq_or_of_lt low.toNat_lt, Nat.shiftLeft_eq]
  omega

theorem ofBytes_bytes (w : Word) : ofBytes (w >>> 8).toUInt8 w.toUInt8 = w := by
  have bound := w.toNat_lt
  have high : (w >>> 8).toUInt8.toNat = w.toNat / 256 := by
    simp only [UInt16.toNat_toUInt8, UInt16.toNat_shiftRight, Nat.shiftRight_eq_div_pow]
    change w.toNat / 2 ^ 8 % 256 = _
    omega
  rw [← UInt16.toNat_inj, toNat_ofBytes, high, UInt16.toNat_toUInt8]
  omega

end Word

/-! A number is its digits, and the digits are those of the number. -/

theorem digit_of_val {d : Fin 16} {n : Nat} (h : d.val = n) : d = Fin.ofNat 16 n := by
  subst h
  exact (Fin.ofNat_val_eq_self d).symm

theorem byte_of_digits (b : UInt8) :
    UInt8.ofNat (16 * (Fin.ofNat 16 (b.toNat / 16)).val + (Fin.ofNat 16 b.toNat).val) = b := by
  have bound := b.toNat_lt
  simp only [← UInt8.toNat_inj, UInt8.toNat_ofNat', Fin.val_ofNat]
  omega

theorem digits_of_byte (c d : Fin 16) :
    Fin.ofNat 16 ((UInt8.ofNat (16 * c.val + d.val)).toNat / 16) = c ∧
    Fin.ofNat 16 (UInt8.ofNat (16 * c.val + d.val)).toNat = d := by
  simp only [Fin.ext_iff, Fin.val_ofNat, UInt8.toNat_ofNat']
  omega

theorem short_of_digits (a : ShortAddress) :
    Fin.ofNat 0x1000 (256 * (Fin.ofNat 16 (a.val / 16 / 16)).val +
      (16 * (Fin.ofNat 16 (a.val / 16)).val + (Fin.ofNat 16 a.val).val)) = a := by
  simp only [Fin.ext_iff, Fin.val_ofNat]
  omega

theorem digits_of_short (b c d : Fin 16) :
    Fin.ofNat 16 ((Fin.ofNat 0x1000 (256 * b.val + (16 * c.val + d.val))).val / 16 / 16) = b ∧
    Fin.ofNat 16 ((Fin.ofNat 0x1000 (256 * b.val + (16 * c.val + d.val))).val / 16) = c ∧
    Fin.ofNat 16 (Fin.ofNat 0x1000 (256 * b.val + (16 * c.val + d.val))).val = d := by
  simp only [Fin.ext_iff, Fin.val_ofNat]
  omega

/-! ## Forms by their digits -/

namespace Slot

/-- Whether a digit can stand in a slot. -/
def Admits : Slot → Fin 16 → Prop
  | digit d, e => e = d
  | x, _ | y, _ | n, _ => True

/-- The digit that goes into a slot while so much of the number is left. -/
def take (f : Fields) (left : Nat) : Slot → Fin 16
  | digit d => d
  | x => f.x
  | y => f.y
  | n => Fin.ofNat 16 left

/-- What is left of the number behind a slot. -/
def spend (left : Nat) : Slot → Nat
  | n => left / 16
  | digit _ | x | y => left

instance (s : Slot) (d : Fin 16) : Decidable (s.Admits d) :=
  match s with
  | digit e => inferInstanceAs (Decidable (d = e))
  | x | y | n => .isTrue trivial

theorem admits_take (f : Fields) (left : Nat) (s : Slot) : s.Admits (s.take f left) := by
  cases s <;> trivial

theorem fill_nil (f : Fields) : fill f [] = (0, f.number) := rfl

theorem fill_cons (f : Fields) (s : Slot) (ss : List Slot) :
    fill f (s :: ss) =
      (16 ^ ss.length * (s.take f (fill f ss).2).val + (fill f ss).1, s.spend (fill f ss).2) := by
  cases s <;> rfl

end Slot

namespace Form

/-- A word has the digits printed for a form, and any digits where its operands go. -/
def Matches (f : Form) (w : Word) : Prop :=
  ∀ k : Fin 4, f.encoding[k].Admits (w.nibble (3 - k))

instance (f : Form) (w : Word) : Decidable (f.Matches w) :=
  inferInstanceAs (Decidable (∀ k : Fin 4, f.encoding[k].Admits (w.nibble (3 - k))))

/-- Whether a zero is printed for the second digit. -/
def ZeroSecond (f : Form) : Prop :=
  f.encoding[1] = 0

instance (f : Form) : Decidable f.ZeroSecond :=
  inferInstanceAs (Decidable (f.encoding[1] = 0))

/-- What decoding sees of a word: all but its second digit where a zero is printed for it. -/
def seen (f : Form) (w : Word) : Word :=
  if f.ZeroSecond then w.withoutSecond else w

theorem exists_slots (e : Vector Slot 4) : ∃ a b c d, e = #v[a, b, c, d] := by
  refine ⟨e[0], e[1], e[2], e[3], ?_⟩
  ext1 k hk
  match k with
  | 0 | 1 | 2 | 3 => rfl

theorem fill_eq (a b c d : Slot) (label : List Piece) (os : List Operand) :
    (mk #v[a, b, c, d] label).fill os =
      Word.ofDigits
        (a.take (.ofOperands os) (b.spend (c.spend (d.spend (Fields.ofOperands os).number))))
        (b.take (.ofOperands os) (c.spend (d.spend (Fields.ofOperands os).number)))
        (c.take (.ofOperands os) (d.spend (Fields.ofOperands os).number))
        (d.take (.ofOperands os) (Fields.ofOperands os).number) := by
  simp [fill, Slot.fill_cons, Slot.fill_nil, Word.ofDigits]

theorem seen_ofDigits (f : Form) (a b c d : Fin 16) :
    f.seen (Word.ofDigits a b c d) =
      Word.ofDigits a (if f.ZeroSecond then 0 else b) c d := by
  unfold seen
  split <;> simp only [Word.withoutSecond, Word.nibble_ofDigits]

theorem matches_ofDigits (s t u v : Slot) (label : List Piece) (a b c d : Fin 16) :
    (mk #v[s, t, u, v] label).Matches (Word.ofDigits a b c d) ↔
      s.Admits a ∧ t.Admits b ∧ u.Admits c ∧ v.Admits d := by
  obtain ⟨first, second, third, fourth⟩ := Word.nibble_ofDigits a b c d
  simp [Matches, Fin.forall_fin_succ, first, second, third, fourth]

/-- Whatever the operands, a form matches the word they make of it. -/
theorem matches_fill (f : Form) (os : List Operand) : f.Matches (f.fill os) := by
  obtain ⟨encoding, label⟩ := f
  obtain ⟨s, t, u, v, rfl⟩ := exists_slots encoding
  rw [fill_eq, matches_ofDigits]
  exact ⟨s.admits_take _ _, t.admits_take _ _, u.admits_take _ _, v.admits_take _ _⟩

end Form

namespace Operand

theorem of_kind {o : Operand} {k : OperandKind} (h : o.kind = k) :
    match k with
    | .register => ∃ r, o = .register r
    | .nibble => ∃ n, o = .nibble n
    | .byte => ∃ b, o = .byte b
    | .short => ∃ a, o = .short a
    | .word => ∃ w, o = .word w := by
  subst h
  cases o <;> exact ⟨_, rfl⟩

end Operand

namespace Instruction

/-! ## From words to instructions -/

theorem decode?_ofDigits (a b c d : Fin 16) (next : Word) :
    decode? (Word.ofDigits a b c d) next =
      match a.val with
      | 0x0 => ofSystem? c d
      | 0x1 => some (.jump (Fin.ofNat 0x1000 (256 * b.val + (16 * c.val + d.val))))
      | 0x2 => some (.call (Fin.ofNat 0x1000 (256 * b.val + (16 * c.val + d.val))))
      | 0x3 => some (.skipEqual b (UInt8.ofNat (16 * c.val + d.val)))
      | 0x4 => some (.skipNotEqual b (UInt8.ofNat (16 * c.val + d.val)))
      | 0x5 => ofPair? b c d
      | 0x6 => some (.load b (UInt8.ofNat (16 * c.val + d.val)))
      | 0x7 => some (.add b (UInt8.ofNat (16 * c.val + d.val)))
      | 0x8 => ofArithmetic? b c d
      | 0x9 => if d = 0 then some (.skipDifferent b c) else none
      | 0xA => some (.setIndex (Fin.ofNat 0x1000 (256 * b.val + (16 * c.val + d.val))))
      | 0xB => some (.jumpPlus (Fin.ofNat 0x1000 (256 * b.val + (16 * c.val + d.val))))
      | 0xC => some (.random b (UInt8.ofNat (16 * c.val + d.val)))
      | 0xD => some (.sprite b c d)
      | 0xE => ofKey? b (UInt8.ofNat (16 * c.val + d.val))
      | _ => ofExtension? b (UInt8.ofNat (16 * c.val + d.val)) next := by
  have opened := decode?.eq_def (Word.ofDigits a b c d) next
  simp only [Word.nibble_ofDigits, Word.lowByte_ofDigits, Word.short_ofDigits] at opened
  exact opened

/-- An instruction is what decoding sees of a word and of the word after it. -/
structure Reads (i : Instruction) (w next : Word) : Prop where
  encode : i.encode = i.form.seen w
  follows : ∀ v, i.following? = some v → v = next

section
variable {b c d : Fin 16} {next : Word} {i : Instruction}

theorem reads_of_ofSystem? (h : ofSystem? c d = some i) : i.Reads (Word.ofDigits 0 b c d) next := by
  unfold ofSystem? at h
  split at h <;> cases h <;> refine ⟨?_, nofun⟩ <;> obtain rfl := digit_of_val ‹c.val = _›
  case h_1 | h_2 =>
    simp only [encode, form, operands, Form.fill_eq, Fields.ofOperands, Slot.take,
      Fin.ofNat_val_eq_self, Form.seen_ofDigits]
    rfl
  all_goals
    obtain rfl := digit_of_val ‹d.val = _›
    rw [Form.seen_ofDigits]
    rfl

theorem reads_of_ofPair? (h : ofPair? b c d = some i) : i.Reads (Word.ofDigits 5 b c d) next := by
  unfold ofPair? at h
  split at h <;> cases h
  all_goals
    obtain rfl := digit_of_val ‹d.val = _›
    exact ⟨rfl, nofun⟩

theorem reads_of_ofArithmetic? (h : ofArithmetic? b c d = some i) :
    i.Reads (Word.ofDigits 8 b c d) next := by
  unfold ofArithmetic? at h
  split at h <;> cases h
  all_goals
    obtain rfl := digit_of_val ‹d.val = _›
    exact ⟨rfl, nofun⟩

theorem reads_of_ofKey? (h : ofKey? b (UInt8.ofNat (16 * c.val + d.val)) = some i) :
    i.Reads (Word.ofDigits 0xE b c d) next := by
  obtain ⟨third, fourth⟩ := digits_of_byte c d
  unfold ofKey? at h
  split at h <;> cases h
  all_goals
    rename_i low
    rw [low] at third fourth
    subst third fourth
    exact ⟨rfl, nofun⟩

theorem reads_of_ofExtension?
    (h : ofExtension? b (UInt8.ofNat (16 * c.val + d.val)) next = some i) :
    i.Reads (Word.ofDigits 0xF b c d) next := by
  obtain ⟨third, fourth⟩ := digits_of_byte c d
  unfold ofExtension? at h
  split at h <;> cases h
  all_goals
    rename_i low
    rw [low] at third fourth
    subst third fourth
  case h_1 =>
    exact ⟨by rw [Form.seen_ofDigits]; rfl, fun v follows => (Option.some.inj follows).symm⟩
  case h_2 =>
    refine ⟨?_, nofun⟩
    simp only [encode, form, operands, Form.fill_eq, Fields.ofOperands, Slot.take, Slot.spend,
      Fin.ofNat_val_eq_self, Form.seen_ofDigits]
    rfl
  case h_3 => exact ⟨by rw [Form.seen_ofDigits]; rfl, nofun⟩
  all_goals exact ⟨rfl, nofun⟩

end

/-- What is decoded encodes to what decoding sees of the word. -/
theorem reads_of_decode? {w next : Word} {i : Instruction} (h : decode? w next = some i) :
    i.Reads w next := by
  obtain ⟨a, b, c, d, rfl⟩ := w.exists_ofDigits
  rw [decode?_ofDigits] at h
  split at h
  case h_1 family =>
    obtain rfl := digit_of_val family
    exact reads_of_ofSystem? h
  case h_6 family =>
    obtain rfl := digit_of_val family
    exact reads_of_ofPair? h
  case h_9 family =>
    obtain rfl := digit_of_val family
    exact reads_of_ofArithmetic? h
  case h_10 family =>
    obtain rfl := digit_of_val family
    split at h <;> cases h
    subst d
    exact ⟨rfl, nofun⟩
  case h_15 family =>
    obtain rfl := digit_of_val family
    exact reads_of_ofKey? h
  case h_16 =>
    obtain rfl : a = 15 := by grind
    exact reads_of_ofExtension? h
  -- What is left are the families told by their first digit alone.
  all_goals
    obtain rfl := digit_of_val ‹a.val = _›
    cases h
    refine ⟨?_, nofun⟩
    simp only [encode, form, operands, Form.fill_eq, Fields.ofOperands, Slot.take, Slot.spend,
      digits_of_byte, digits_of_short, Fin.ofNat_val_eq_self]
    rfl

/-! ## From forms to instructions -/

/-- A form in the table whose digits a word has, as far as decoding sees, is what it decodes to. -/
theorem exists_of_matches {f : Form} (entry : f ∈ Form.table) {w : Word} (next : Word)
    (h : f.Matches (f.seen w)) : ∃ i, decode? w next = some i ∧ i.form = f := by
  obtain ⟨a, b, c, d, rfl⟩ := w.exists_ofDigits
  obtain ⟨j, -, rfl⟩ := List.mem_map.mp entry
  rw [Form.seen_ofDigits] at h
  cases j
  all_goals
    obtain ⟨first, -, third, fourth⟩ := (Form.matches_ofDigits ..).mp h
    cases first
    cases third
    cases fourth
    rw [decode?_ofDigits]
    exact ⟨_, rfl, rfl⟩

/-- The forms a word decodes to are the ones it matches as far as decoding sees. -/
theorem exists_decode?_iff (w next : Word) (f : Form) :
    (∃ i, decode? w next = some i ∧ i.form = f) ↔ f ∈ Form.table ∧ f.Matches (f.seen w) := by
  constructor
  · rintro ⟨i, found, rfl⟩
    exact ⟨Form.form_mem_table i, (reads_of_decode? found).encode ▸ i.form.matches_fill _⟩
  · rintro ⟨entry, h⟩
    exact exists_of_matches entry next h

theorem decode?_eq_none_iff (w next : Word) :
    decode? w next = none ↔ ∀ f ∈ Form.table, ¬f.Matches (f.seen w) := by
  rw [Option.eq_none_iff_forall_ne_some]
  constructor
  · intro none f entry h
    obtain ⟨i, found, -⟩ := exists_of_matches entry next h
    exact none i found
  · intro none i found
    obtain ⟨entry, h⟩ := (exists_decode?_iff w next i.form).mp ⟨i, found, rfl⟩
    exact none i.form entry h

/-- Operands of the kinds of a form, placed in its encoding, are found again by decoding. -/
theorem exists_of_kinds {f : Form} (entry : f ∈ Form.table) {os : List Operand}
    (kinds : os.map Operand.kind = f.kinds) {next : Word}
    (follows : ∀ v, os = [.word v] → next = v) :
    ∃ i, decode? (f.fill os) next = some i ∧ i.form = f ∧ i.operands = os := by
  obtain ⟨j, -, rfl⟩ := List.mem_map.mp entry
  rw [kinds_form] at kinds
  -- The forms are taken apart by the kinds of their operands.
  cases j
  case clear | ret | scrollRight | scrollLeft | exit | lores | hires | audio =>
    obtain rfl := List.map_eq_nil_iff.mp kinds
    rw [form, Form.fill_eq, decode?_ofDigits]
    exact ⟨_, rfl, rfl, rfl⟩
  all_goals
    obtain ⟨o, rest, rfl, first, kinds⟩ := List.map_eq_cons_iff.mp kinds
    obtain ⟨a, rfl⟩ := Operand.of_kind first
  case setIndexLong =>
    obtain rfl := List.map_eq_nil_iff.mp ‹rest.map _ = []›
    obtain rfl := follows a rfl
    rw [form, Form.fill_eq, decode?_ofDigits]
    exact ⟨_, rfl, rfl, rfl⟩
  case jump | call | setIndex | jumpPlus =>
    obtain rfl := List.map_eq_nil_iff.mp ‹rest.map _ = []›
    rw [form, Form.fill_eq, decode?_ofDigits]
    exact ⟨_, rfl, rfl, congrArg (fun a => [Operand.short a]) (short_of_digits a)⟩
  case scrollDown | scrollUp | selectPlanes =>
    obtain rfl := List.map_eq_nil_iff.mp ‹rest.map _ = []›
    rw [form, Form.fill_eq, decode?_ofDigits]
    exact ⟨_, rfl, rfl, congrArg (fun a => [Operand.nibble a]) (Fin.ofNat_val_eq_self a)⟩
  case skipPressed | skipReleased | readDelay | awaitKey | setDelay | setSound | addIndex |
      smallDigit | largeDigit | decimal | setPitch | store | fetch | saveFlags | loadFlags =>
    obtain rfl := List.map_eq_nil_iff.mp ‹rest.map _ = []›
    rw [form, Form.fill_eq, decode?_ofDigits]
    exact ⟨_, rfl, rfl, rfl⟩
  all_goals
    obtain ⟨o, last, rfl, second, kinds⟩ := List.map_eq_cons_iff.mp ‹rest.map _ = _ :: _›
    obtain ⟨b, rfl⟩ := Operand.of_kind second
  case sprite =>
    obtain ⟨o, none, rfl, third, kinds⟩ := List.map_eq_cons_iff.mp ‹last.map _ = _ :: _›
    obtain ⟨c, rfl⟩ := Operand.of_kind third
    obtain rfl := List.map_eq_nil_iff.mp ‹none.map _ = []›
    rw [form, Form.fill_eq, decode?_ofDigits]
    exact ⟨_, rfl, rfl,
      congrArg (fun c => [Operand.register a, .register b, .nibble c]) (Fin.ofNat_val_eq_self c)⟩
  all_goals obtain rfl := List.map_eq_nil_iff.mp ‹last.map _ = []›
  case skipEqual | skipNotEqual | load | add | random =>
    rw [form, Form.fill_eq, decode?_ofDigits]
    exact ⟨_, rfl, rfl, congrArg (fun b => [Operand.register a, .byte b]) (byte_of_digits b)⟩
  all_goals
    rw [form, Form.fill_eq, decode?_ofDigits]
    exact ⟨_, rfl, rfl, rfl⟩

end Instruction

end XoChip
