/-!
Upper-case hexadecimal fields of a fixed width.
-/

namespace XoChip.Hex

/-- The character of a digit below sixteen. -/
def digit (d : Nat) : Char :=
  if d < 10 then Char.ofNat (48 + d) else Char.ofNat (55 + d)

/-- The last `width` hexadecimal digits of `n`, most significant first. -/
def digits : (width n : Nat) → List Char
  | 0, _ => []
  | width + 1, n => digits width (n / 16) ++ [digit (n % 16)]

def field (width n : Nat) : String :=
  String.ofList (digits width n)

theorem length_digits (width n : Nat) : (digits width n).length = width := by
  induction width generalizing n with
  | zero => rfl
  | succ width ih => simp [digits, ih]

end XoChip.Hex
