import XoChip.Word

/-!
Addresses as the command line takes them: hexadecimal digits of either case after at most one `0x`,
`0X` or `$` and at most one plus sign.
-/

namespace XoChip

inductive AddressError
  | empty
  | invalidDigit
  | tooLarge
  deriving DecidableEq, Repr

def AddressError.message : AddressError → String
  | empty => "cannot parse integer from empty string"
  | invalidDigit => "invalid digit found in string"
  | tooLarge => "number too large to fit in target type"

namespace CommandLine.Address

/-- What is left after a leading mark of hexadecimal notation. -/
def unmarked : List Char → List Char
  | '0' :: 'x' :: rest => rest
  | '0' :: 'X' :: rest => rest
  | '$' :: rest => rest
  | cs => cs

def digit? (c : Char) : Option Nat :=
  if '0' ≤ c ∧ c ≤ '9' then some (c.toNat - 48)
  else if 'A' ≤ c ∧ c ≤ 'F' then some (c.toNat - 55)
  else if 'a' ≤ c ∧ c ≤ 'f' then some (c.toNat - 87)
  else none

/-- Takes up digits from left to right and stops at the first fault. -/
def takeUp (value : Word) : List Char → Except AddressError Word
  | [] => .ok value
  | c :: cs =>
    match digit? c with
    | none => .error .invalidDigit
    | some d =>
      let larger := 16 * value.toNat + d
      if larger < 0x10000 then takeUp (UInt16.ofNat larger) cs else .error .tooLarge

/-- A number with an optional plus sign. -/
def number : List Char → Except AddressError Word
  | [] => .error .empty
  | ['+'] => .error .invalidDigit
  | '+' :: cs => takeUp 0 cs
  | cs => takeUp 0 cs

def parse (s : String) : Except AddressError Word :=
  number (unmarked s.toList)

end CommandLine.Address

end XoChip
