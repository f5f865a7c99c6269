import TailLisp.Fault
import TailLisp.Value

/-! # Equality — the language's `=`

    Values of different kinds differ, functions are equal only to themselves and
    lists are compared item by item.  A list made by a call is equal to itself
    without a look at its items; any other comparison of nested lists takes a
    level for each level of nesting. -/

namespace TailLisp.Value

/-- Decides whether two lists of values are one, at once where they are the same
    object in memory. -/
def identical (xs ys : List Value) : Bool :=
  withPtrEq xs ys (fun _ => sameItems xs ys) (sameItems_iff_eq xs ys).2

theorem identical_iff_eq (xs ys : List Value) : identical xs ys = true ↔ xs = ys :=
  sameItems_iff_eq xs ys

/-- Whether two lists come from the same call. -/
def sameList (i j : Option Serial) (xs ys : List Value) : Bool :=
  i.isSome && i == j && identical xs ys

theorem eq_of_sameList {i j : Option Serial} {xs ys : List Value}
    (h : sameList i j xs ys = true) : xs = ys := by
  simp only [sameList, Bool.and_eq_true] at h
  exact (identical_iff_eq xs ys).1 h.2

mutual

/-- Whether two values are equal, compared with `room` levels of lists. -/
def equal (room : Nat) : Value → Value → Except Fault Bool
  | .nil, .nil => .ok true
  | .bool a, .bool b => .ok (a == b)
  | .int a, .int b => .ok (a == b)
  | .str a, .str b => .ok (a == b)
  | .sym a, .sym b => .ok (a == b)
  | .builtin a, .builtin b => .ok (a == b)
  | .closure i _ _ _, .closure j _ _ _ => .ok (i == j)
  | .list i xs, .list j ys =>
    if sameList i j xs ys then .ok true
    else if xs.length ≠ ys.length then .ok false
    else
      match room with
      | 0 => .error .stackOverflow
      | room + 1 => equalItems room xs ys
  | .foreign a, .foreign b => .ok (a == b)
  | _, _ => .ok false

/-- Whether the items of two lists are equal in pairs, up to the first that are not. -/
def equalItems (room : Nat) : List Value → List Value → Except Fault Bool
  | x :: xs, y :: ys => do
    if ← equal room x y then equalItems room xs ys else return false
  | _, _ => .ok true

end

end TailLisp.Value
