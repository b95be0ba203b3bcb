import Mathlib.Algebra.Group.Nat.Defs

/-!
Checked arithmetic and checked access. A number that does not fit in the bits of its type, or a
place that is not there, is no result; so a computation made of these has one only if no step of it
goes wrong.
-/

namespace XoChip.Checked

def add (width a b : Nat) : Option Nat :=
  if a + b < 2 ^ width then some (a + b) else none

def sub (a b : Nat) : Option Nat :=
  if b ≤ a then some (a - b) else none

def mul (width a b : Nat) : Option Nat :=
  if a * b < 2 ^ width then some (a * b) else none

def shiftRight (width a places : Nat) : Option Nat :=
  if places < width then some (a >>> places) else none

def remainder (a b : Nat) : Option Nat :=
  if b = 0 then none else some (a % b)

theorem add_eq {width a b : Nat} (h : a + b < 2 ^ width) : add width a b = some (a + b) :=
  if_pos h

theorem sub_eq {a b : Nat} (h : b ≤ a) : sub a b = some (a - b) :=
  if_pos h

theorem mul_eq {width a b : Nat} (h : a * b < 2 ^ width) : mul width a b = some (a * b) :=
  if_pos h

theorem shiftRight_eq {width a places : Nat} (h : places < width) :
    shiftRight width a places = some (a >>> places) :=
  if_pos h

theorem remainder_eq {a b : Nat} (h : b ≠ 0) : remainder a b = some (a % b) :=
  if_neg h

-- Not by `rfl`, so that checking a rewrite with it never looks into `f`.
theorem some_bind {α β : Type} (a : α) (f : α → Option β) : (some a >>= f) = f a := by
  rw [Option.bind_eq_bind, Option.bind_some]

section
variable {α : Type} {n : Nat}

def put (xs : Vector α n) (k : Nat) (a : α) : Option (Vector α n) :=
  if h : k < n then some (xs.set k a) else none

/-- The elements from one place up to another. -/
def slice (xs : Vector α n) (first last : Nat) : Option (List α) :=
  if first ≤ last ∧ last ≤ n then some ((xs.toList.take last).drop first) else none

/-- Writes over the elements from one place up to another, as many as are given. -/
def blit (xs : Vector α n) (first last : Nat) (as : List α) : Option (Vector α n) :=
  if h : first ≤ last ∧ last ≤ n ∧ as.length = last - first then
    some (Vector.ofFn fun k =>
      if h' : first ≤ k.val ∧ k.val < last then as[k.val - first] else xs[k])
  else none

theorem put_eq (xs : Vector α n) {k : Nat} (a : α) (h : k < n) : put xs k a = some (xs.set k a) :=
  dif_pos h

theorem slice_eq (xs : Vector α n) {first last : Nat} (h : first ≤ last) (h' : last ≤ n) :
    slice xs first last = some ((xs.toList.take last).drop first) :=
  if_pos ⟨h, h'⟩

theorem blit_eq (xs : Vector α n) {first last : Nat} {as : List α} (h : first ≤ last)
    (h' : last ≤ n) (length : as.length = last - first) :
    blit xs first last as =
      some (Vector.ofFn fun k =>
        if h : first ≤ k.val ∧ k.val < last then as[k.val - first] else xs[k]) :=
  dif_pos ⟨h, h', length⟩

theorem put_fin (xs : Vector α n) (k : Fin n) (a : α) : put xs k.val a = some (xs.set k a) :=
  put_eq xs a k.isLt

theorem getElem?_fin (xs : Vector α n) (k : Fin n) : xs[k.val]? = some xs[k] :=
  Vector.getElem?_eq_getElem k.isLt

end

/-- A loop that sets one element after another. -/
theorem getElem_setEach {α : Type} {n : Nat} (f : Nat → α) (xs : Vector α n) {rounds k : Nat}
    (hk : k < n) :
    ((List.range rounds).foldl (fun xs y => xs.setIfInBounds y (f y)) xs)[k] =
      if k < rounds then f k else xs[k] := by
  induction rounds with
  | zero => rfl
  | succ rounds ih =>
    rw [List.range_succ, List.foldl_append, List.foldl_cons, List.foldl_nil,
      Vector.getElem_setIfInBounds hk, ih]
    grind

theorem put_setIfInBounds {α : Type} {n : Nat} (xs : Vector α n) {k : Nat} (a : α) (h : k < n) :
    put xs k a = some (xs.setIfInBounds k a) := by
  rw [put_eq xs a h]
  refine congrArg some (Vector.ext fun j hj => ?_)
  rw [Vector.getElem_set, Vector.getElem_setIfInBounds hj]

/-- A loop over what `view` shows, none of whose rounds goes wrong. -/
theorem foldlM_eq {σ τ α : Type} (view : σ → τ) {f : τ → α → Option τ} {g : σ → α → σ}
    {xs : List α} (round : ∀ s, ∀ x ∈ xs, f (view s) x = some (view (g s x))) (s : σ) :
    xs.foldlM f (view s) = some (view (xs.foldl g s)) := by
  induction xs generalizing s with
  | nil => rfl
  | cons x xs ih =>
    rw [List.foldlM_cons, round s x List.mem_cons_self]
    exact ih (fun s y h => round s y (List.mem_cons_of_mem x h)) (g s x)

end XoChip.Checked
