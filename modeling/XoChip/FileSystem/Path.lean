/-!
Paths. A path is taken part by part from the root: an empty part and a dot stay, two dots go up, and
any other part is a name.
-/

namespace XoChip

/-- Where something stands: the names on the way from the root, the last one first. -/
abbrev Place := List String

namespace Place

/-- One part further on. The root is above itself. -/
def follow (place : Place) (part : String) : Place :=
  if part = "" ∨ part = "." then place
  else if part = ".." then place.tail
  else part :: place

/-- A name has at most 255 bytes, none of them zero. -/
def nameable : Place → Bool
  | [] => true
  | name :: _ => name.utf8ByteSize ≤ 255 && !name.toList.contains '\x00'

end Place

namespace Path

/-- The bytes a path stays below. -/
def limit : Nat := 4096

/-- What stands between slashes, empty where nothing does. -/
def split : List Char → List (List Char)
  | [] => [[]]
  | c :: cs =>
    if c = '/' then [] :: split cs
    else
      match split cs with
      | [] => [[c]]
      | part :: rest => (c :: part) :: rest

def parts (path : String) : List String :=
  (split path.toList).map String.ofList

/-- The path without slashes at its end. -/
def trimmed (path : String) : String :=
  String.ofList (path.toList.reverse.dropWhile (· = '/')).reverse

/-- The name a path ends in, if it does not end on the way up. -/
def name? (path : String) : Option String :=
  match ((parts path).filter fun part => part ≠ "" ∧ part ≠ ".").getLast? with
  | some ".." => none
  | name => name

end Path

end XoChip
