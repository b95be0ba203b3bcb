import Mathlib.Data.Nat.Digits.Defs
import XoChip.CommandLine.Options

/-!
Addresses on the command line by their grammar: which texts write one, and what is said of a text
that does not. Main statement: `address_grammar`.
-/

namespace XoChip.CommandLine.Address

/-! ## The grammar -/

/-- The marks of hexadecimal notation. -/
def marks : List (List Char) :=
  ["0x".toList, "0X".toList, "$".toList]

/-- What stands behind the mark of a text. It has one mark at most. -/
inductive Behind : List Char → List Char → Prop
  | mark (mark rest : List Char) (known : mark ∈ marks) : Behind (mark ++ rest) rest
  | nothing (cs : List Char) (plain : ∀ mark ∈ marks, ¬ mark <+: cs) : Behind cs cs

/-- A hexadecimal digit of either case and the number it stands for. -/
def StandsFor (c : Char) (d : Nat) : Prop :=
  "0123456789ABCDEF".toList[d]? = some c ∨ "0123456789abcdef".toList[d]? = some c

instance (c : Char) (d : Nat) : Decidable (StandsFor c d) :=
  inferInstanceAs (Decidable (_ ∨ _))

/-- Digits, the most significant one first, and the number they write. -/
def Writes (cs : List Char) (n : Nat) : Prop :=
  ∃ ds, List.Forall₂ StandsFor cs ds ∧ Nat.ofDigits 16 ds.reverse = n

/-- One digit or more, after a plus sign or none. -/
def Numeral (cs : List Char) (n : Nat) : Prop :=
  ∃ digits, (cs = digits ∨ cs = '+' :: digits) ∧ digits ≠ [] ∧ Writes digits n

/-- After a plus sign or none, the digits at the front write more than a word holds, whatever stands
behind them. -/
def TooLarge (cs : List Char) : Prop :=
  ∃ digits, (cs = digits ∨ cs = '+' :: digits) ∧
    ∃ front n, front <+: digits ∧ Writes front n ∧ 0xFFFF < n

theorem behind_iff {cs rest : List Char} : Behind cs rest ↔ rest = unmarked cs := by
  constructor
  · intro behind
    cases behind with
    | mark mark rest known =>
      simp only [marks, List.mem_cons, List.not_mem_nil, or_false] at known
      rcases known with rfl | rfl | rfl <;> rfl
    | nothing _ plain =>
      unfold unmarked
      split
      · exact absurd ⟨_, rfl⟩ (plain "0x".toList (by decide))
      · exact absurd ⟨_, rfl⟩ (plain "0X".toList (by decide))
      · exact absurd ⟨_, rfl⟩ (plain "$".toList (by decide))
      · rfl
  · rintro rfl
    unfold unmarked
    split
    · exact .mark "0x".toList _ (by decide)
    · exact .mark "0X".toList _ (by decide)
    · exact .mark "$".toList _ (by decide)
    · next lower upper dollar =>
      refine .nothing cs fun mark known => ?_
      simp only [marks, List.mem_cons, List.not_mem_nil, or_false] at known
      rintro ⟨rest, rfl⟩
      rcases known with rfl | rfl | rfl
      · exact lower rest rfl
      · exact upper rest rfl
      · exact dollar rest rfl

/-! ## Digits -/

section
variable {v d n : Nat} {c : Char} {cs : List Char}

theorem standsFor_of_digit? (found : digit? c = some d) : StandsFor c d := by
  have row {first base length : Nat}
      (all : ∀ i < length, StandsFor (Char.ofNat (first + i)) (base + i)) (low : first ≤ c.toNat)
      (high : c.toNat < first + length) : StandsFor c (base + (c.toNat - first)) := by
    have digit := all (c.toNat - first) (by omega)
    rwa [Nat.add_sub_cancel' low, Char.ofNat_toNat] at digit
  have decimal : ∀ i < 10, StandsFor (Char.ofNat (48 + i)) (0 + i) := by decide
  have upper : ∀ i < 6, StandsFor (Char.ofNat (65 + i)) (10 + i) := by decide
  have lower : ∀ i < 6, StandsFor (Char.ofNat (97 + i)) (10 + i) := by decide
  unfold digit? at found
  split at found
  · next range =>
    have low : 48 ≤ c.toNat := range.1
    obtain rfl : 0 + (c.toNat - 48) = d := by injection found; omega
    exact row decimal low (Nat.lt_succ_of_le range.2)
  split at found
  · next range =>
    have low : 65 ≤ c.toNat := range.1
    obtain rfl : 10 + (c.toNat - 65) = d := by injection found; omega
    exact row upper low (Nat.lt_succ_of_le range.2)
  split at found
  · next range =>
    have low : 97 ≤ c.toNat := range.1
    obtain rfl : 10 + (c.toNat - 97) = d := by injection found; omega
    exact row lower low (Nat.lt_succ_of_le range.2)
  · cases found

theorem digit?_eq_some_iff : digit? c = some d ↔ StandsFor c d := by
  refine ⟨standsFor_of_digit?, ?_⟩
  have upper : ∀ d : Fin 16, digit? "0123456789ABCDEF".toList[d.val] = some d.val := by decide
  have lower : ∀ d : Fin 16, digit? "0123456789abcdef".toList[d.val] = some d.val := by decide
  rintro (stands | stands)
  · obtain ⟨few, rfl⟩ := List.getElem?_eq_some_iff.mp stands
    exact upper ⟨d, few⟩
  · obtain ⟨few, rfl⟩ := List.getElem?_eq_some_iff.mp stands
    exact lower ⟨d, few⟩

/-- Digits taken up behind a number, and the number they make of it. -/
inductive Extends : Nat → List Char → Nat → Prop
  | nil (n : Nat) : Extends n [] n
  | cons {v d n : Nat} {c : Char} {cs : List Char} (digit : StandsFor c d)
      (rest : Extends (16 * v + d) cs n) : Extends v (c :: cs) n

theorem Extends.le (taken : Extends v cs n) : v ≤ n := by
  induction taken with
  | nil => exact Nat.le_refl _
  | cons digit rest ih => omega

theorem extends_nil : Extends v [] n ↔ v = n :=
  ⟨fun taken => by cases taken; rfl, fun same => same ▸ .nil v⟩

theorem extends_cons :
    Extends v (c :: cs) n ↔ ∃ d, digit? c = some d ∧ Extends (16 * v + d) cs n := by
  constructor
  · intro taken
    cases taken with
    | cons digit rest => exact ⟨_, digit?_eq_some_iff.mpr digit, rest⟩
  · rintro ⟨d, found, rest⟩
    exact .cons (digit?_eq_some_iff.mp found) rest

theorem extends_iff : Extends v cs n ↔
    ∃ ds, List.Forall₂ StandsFor cs ds ∧ ds.foldl (fun m d => 16 * m + d) v = n := by
  constructor
  · intro taken
    induction taken with
    | nil n => exact ⟨[], .nil, rfl⟩
    | cons digit _ ih =>
      obtain ⟨ds, digits, value⟩ := ih
      exact ⟨_ :: ds, .cons digit digits, value⟩
  · rintro ⟨ds, digits, rfl⟩
    induction digits generalizing v with
    | nil => exact .nil v
    | cons digit _ ih => exact .cons digit ih

/-- What digits write does not depend on which end they are read from. -/
theorem writes_iff : Writes cs n ↔ Extends 0 cs n := by
  have horner (ds : List Nat) :
      Nat.ofDigits 16 ds.reverse = ds.foldl (fun m d => 16 * m + d) 0 := by
    rw [Nat.ofDigits_eq_foldr, List.foldr_reverse]
    simp only [Nat.cast_id, Nat.add_comm]
  simp only [Writes, extends_iff, horner]

/-- With some of the digits that follow, a number is more than a word holds. -/
def Exceeds (v : Nat) (cs : List Char) : Prop :=
  ∃ front n, front <+: cs ∧ Extends v front n ∧ 0xFFFF < n

theorem exceeds_of_lt (large : 0xFFFF < v) : Exceeds v cs :=
  ⟨[], v, List.nil_prefix, .nil v, large⟩

theorem exceeds_nil : Exceeds v [] ↔ 0xFFFF < v := by
  refine ⟨?_, exceeds_of_lt⟩
  rintro ⟨front, n, start, taken, large⟩
  rw [List.prefix_nil.mp start, extends_nil] at taken
  exact taken ▸ large

theorem exceeds_cons (fits : v ≤ 0xFFFF) :
    Exceeds v (c :: cs) ↔ ∃ d, digit? c = some d ∧ Exceeds (16 * v + d) cs := by
  constructor
  · rintro ⟨front, n, start, taken, large⟩
    cases taken with
    | nil => exact absurd fits (Nat.not_le.mpr large)
    | cons digit rest =>
      obtain ⟨rfl, later⟩ := List.cons_prefix_cons.mp start
      exact ⟨_, digit?_eq_some_iff.mpr digit, _, n, later, rest, large⟩
  · rintro ⟨d, found, front, n, start, taken, large⟩
    exact ⟨c :: front, n, List.cons_prefix_cons.mpr ⟨rfl, start⟩,
      .cons (digit?_eq_some_iff.mp found) taken, large⟩

end

/-! ## Taking up digits -/

section
variable {v w : Word} {cs : List Char}

theorem takeUp_eq_ok_iff : takeUp v cs = .ok w ↔ Extends v.toNat cs w.toNat := by
  fun_induction takeUp v cs with
  | case1 v => rw [Except.ok.injEq, extends_nil, UInt16.toNat_inj]
  | case2 v c cs none =>
    rw [extends_cons, none]
    exact ⟨nofun, nofun⟩
  | case3 v c cs d found larger small ih =>
    rw [ih, UInt16.toNat_ofNat_of_lt' small, extends_cons, found]
    simp only [Option.some.injEq, exists_eq_left', larger]
  | case4 v c cs d found larger large =>
    refine ⟨nofun, fun taken => ?_⟩
    obtain ⟨d, same, rest⟩ := extends_cons.mp taken
    cases found.symm.trans same
    have grown := rest.le
    have fits := w.toNat_lt
    omega

/-- A digit is looked at before what it makes of the number, so a fault behind the digits that make
it too large is not found. -/
theorem takeUp_eq_tooLarge_iff : takeUp v cs = .error .tooLarge ↔ Exceeds v.toNat cs := by
  have fits (v : Word) : v.toNat ≤ 0xFFFF := Nat.le_of_lt_succ v.toNat_lt
  fun_induction takeUp v cs with
  | case1 v =>
    rw [exceeds_nil]
    exact ⟨nofun, fun large => absurd (fits v) (Nat.not_le.mpr large)⟩
  | case2 v c cs none =>
    rw [exceeds_cons (fits v), none]
    exact ⟨nofun, nofun⟩
  | case3 v c cs d found larger small ih =>
    refine ih.trans ?_
    rw [UInt16.toNat_ofNat_of_lt' small, exceeds_cons (fits v), found]
    simp only [Option.some.injEq, exists_eq_left', larger]
  | case4 v c cs d found larger large =>
    have exceeds : Exceeds larger cs := exceeds_of_lt (Nat.lt_of_not_le (by omega))
    exact ⟨fun _ => (exceeds_cons (fits v)).mpr ⟨d, found, exceeds⟩, fun _ => rfl⟩

theorem takeUp_ne_empty : takeUp v cs ≠ .error .empty := by
  fun_induction takeUp v cs with
  | case1 | case2 | case4 => nofun
  | case3 v c cs d found larger small ih => exact ih

end

/-! ## Numbers -/

section
variable {cs : List Char}

/-- What stands behind the plus sign, if there is one. -/
def unsigned : List Char → List Char
  | '+' :: cs => cs
  | cs => cs

theorem unsigned_of_plain (plain : ∀ rest, cs ≠ '+' :: rest) : unsigned cs = cs := by
  unfold unsigned
  split
  · exact absurd rfl (plain _)
  · rfl

theorem number_of_digits (digits : unsigned cs ≠ []) : number cs = takeUp 0 (unsigned cs) := by
  unfold number
  split
  · exact absurd rfl digits
  · exact absurd rfl digits
  · rfl
  · next plain => rw [unsigned_of_plain plain]

theorem number_of_nothing (nothing : unsigned cs = []) :
    number cs = .error (if cs = [] then .empty else .invalidDigit) := by
  unfold unsigned at nothing
  split at nothing
  · subst nothing
    rfl
  · subst nothing
    rfl

/-- Where a plus sign is no part of what is looked for, it can only be the sign in front. -/
theorem exists_unsigned {P : List Char → Prop} (plain : ∀ cs, ¬ P ('+' :: cs)) :
    (∃ digits, (cs = digits ∨ cs = '+' :: digits) ∧ P digits) ↔ P (unsigned cs) := by
  constructor
  · rintro ⟨digits, rfl | rfl, holds⟩
    · rwa [unsigned_of_plain]
      rintro rest rfl
      exact plain rest holds
    · exact holds
  · intro holds
    unfold unsigned at holds
    split at holds
    · exact ⟨_, .inr rfl, holds⟩
    · exact ⟨cs, .inl rfl, holds⟩

theorem digit?_plus : digit? '+' = none := by decide

theorem numeral_iff {n : Nat} :
    Numeral cs n ↔ unsigned cs ≠ [] ∧ Extends 0 (unsigned cs) n := by
  simp only [Numeral, writes_iff]
  refine exists_unsigned (P := fun digits => digits ≠ [] ∧ Extends 0 digits n) fun cs => ?_
  simp only [extends_cons, digit?_plus]
  nofun

theorem tooLarge_iff : TooLarge cs ↔ Exceeds 0 (unsigned cs) := by
  simp only [TooLarge, writes_iff]
  refine exists_unsigned (P := Exceeds 0) fun cs => ?_
  rw [exceeds_cons (Nat.zero_le _), digit?_plus]
  nofun

theorem number_eq_ok_iff {w : Word} : number cs = .ok w ↔ Numeral cs w.toNat := by
  rw [numeral_iff]
  rcases eq_or_ne (unsigned cs) [] with nothing | digits
  · rw [number_of_nothing nothing]
    exact ⟨nofun, fun numeral => absurd nothing numeral.1⟩
  · rw [number_of_digits digits, takeUp_eq_ok_iff, and_iff_right digits]
    rfl

theorem number_eq_tooLarge_iff : number cs = .error .tooLarge ↔ TooLarge cs := by
  rw [tooLarge_iff]
  rcases eq_or_ne (unsigned cs) [] with nothing | digits
  · rw [number_of_nothing nothing, nothing, exceeds_nil]
    split <;> exact ⟨nofun, nofun⟩
  · rw [number_of_digits digits, takeUp_eq_tooLarge_iff]
    rfl

theorem number_eq_empty_iff : number cs = .error .empty ↔ cs = [] := by
  constructor
  · intro empty
    rcases eq_or_ne (unsigned cs) [] with nothing | digits
    · by_contra lone
      rw [number_of_nothing nothing, if_neg lone] at empty
      cases empty
    · rw [number_of_digits digits] at empty
      exact absurd empty takeUp_ne_empty
  · rintro rfl
    rfl

theorem number_eq_invalidDigit_iff : number cs = .error .invalidDigit ↔
    cs ≠ [] ∧ ¬ TooLarge cs ∧ ∀ w : Word, ¬ Numeral cs w.toNat := by
  simp only [ne_eq, ← number_eq_empty_iff, ← number_eq_tooLarge_iff, ← number_eq_ok_iff]
  cases number cs with
  | ok w => simp
  | error e => cases e <;> simp

end

/-! ## Answers -/

def complaint (s reason : String) : String :=
  s!"bad address '{s}': {reason}"

/-- What is said of a text: the address that it writes, or a complaint. -/
def answer (s : String) : Except String Word :=
  (parse s).mapError fun e => (UsageError.badAddress s e).message

section
variable {s : String}

theorem answer_eq_ok_iff {a : Word} : answer s = .ok a ↔ parse s = .ok a := by
  unfold answer
  cases parse s with
  | ok b => simp only [Except.mapError, Except.ok.injEq]
  | error e => exact ⟨nofun, nofun⟩

theorem message_inj {e e' : AddressError} : e.message = e'.message ↔ e = e' := by
  cases e <;> cases e' <;> decide

theorem answer_eq_complaint_iff {e : AddressError} :
    answer s = .error (complaint s e.message) ↔ parse s = .error e := by
  unfold answer
  cases parse s with
  | ok b => exact ⟨nofun, nofun⟩
  | error r =>
    change Except.error (complaint s r.message) = _ ↔ _
    rw [Except.error.injEq, Except.error.injEq, ← message_inj]
    exact String.append_right_inj ("bad address '" ++ s ++ "': ")

end

/-- What is said of a text is told by `rest`. -/
structure FollowsGrammar (s : String) (rest : List Char) : Prop where
  accepted (a : Word) : answer s = .ok a ↔ Numeral rest a.toNat
  empty :
    answer s = .error (complaint s "cannot parse integer from empty string") ↔ rest = []
  tooLarge :
    answer s = .error (complaint s "number too large to fit in target type") ↔ TooLarge rest
  invalidDigit :
    answer s = .error (complaint s "invalid digit found in string") ↔
      rest ≠ [] ∧ ¬ TooLarge rest ∧ ∀ a : Word, ¬ Numeral rest a.toNat

/-- **The grammar of addresses.** One rest of a text stands behind its mark, or is all of a text
that has none. That rest tells which address the text writes or, if it writes none, what the
complaint is. -/
theorem address_grammar (s : String) :
    ∃ rest, (∀ cs, Behind s.toList cs ↔ cs = rest) ∧ FollowsGrammar s rest := by
  refine ⟨unmarked s.toList, fun cs => behind_iff, ?_⟩
  constructor
  case accepted => exact fun a => answer_eq_ok_iff.trans number_eq_ok_iff
  case empty => exact (answer_eq_complaint_iff (e := .empty)).trans number_eq_empty_iff
  case tooLarge => exact (answer_eq_complaint_iff (e := .tooLarge)).trans number_eq_tooLarge_iff
  case invalidDigit =>
    exact (answer_eq_complaint_iff (e := .invalidDigit)).trans number_eq_invalidDigit_iff

example : answer "0x+000002A0" = .ok 0x2A0 := by
  rfl

example : answer "$0x10" = .error (complaint "$0x10" "invalid digit found in string") := by
  rfl

end XoChip.CommandLine.Address
