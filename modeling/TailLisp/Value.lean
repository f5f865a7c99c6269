import TailLisp.Builtin

/-! # Values — programs and data of the language

    One type serves both: a program is a list, and evaluating it gives a value
    of the same type.  Two kinds of value are told apart by more than their
    contents.  A closure is the closure of one evaluation of a `fn*`, and a list
    built by a call is the list of that call; both carry the serial number
    they were made with.  A list that was only written down carries none. -/

namespace TailLisp

/-- The number of a frame in the store. -/
abbrev FrameId := Nat

/-- The number that a closure or a built list was made with. -/
abbrev Serial := Nat

/-- A value of the language, which is also a form to evaluate. -/
inductive Value where
  | nil
  | bool (b : Bool)
  | int (n : Int)
  | str (text : String)
  | sym (name : String)
  | list (serial : Option Serial) (items : List Value)
  | builtin (b : Builtin)
  | closure (serial : Serial) (params : List String) (body : Value) (home : FrameId)
  /-- Something that is no value of the language, known by what it is called. -/
  | foreign (shown : String)
deriving Inhabited

namespace Value

/-- Integers; a truth value is none. -/
def isInteger : Value → Bool
  | .int _ => true
  | _ => false

/-- Only `nil` and `false` count as false. -/
def isTruthy : Value → Bool
  | .nil | .bool false => false
  | _ => true

/-! ## Deciding equality of values

    `same` compares every part, serial numbers and home frames included, so
    it decides equality of values as mathematical objects.  The language's own
    `=` is coarser, see `Value.equal`. -/

mutual

/-- Whether two values agree in every part. -/
def same : Value → Value → Bool
  | .nil, .nil => true
  | .bool a, .bool b => a == b
  | .int a, .int b => a == b
  | .str a, .str b => a == b
  | .sym a, .sym b => a == b
  | .list i xs, .list j ys => i == j && sameItems xs ys
  | .builtin a, .builtin b => a == b
  | .closure i ps x e, .closure j qs y f => i == j && ps == qs && same x y && e == f
  | .foreign a, .foreign b => a == b
  | _, _ => false

/-- Whether two lists of values agree in every part. -/
def sameItems : List Value → List Value → Bool
  | [], [] => true
  | x :: xs, y :: ys => same x y && sameItems xs ys
  | _, _ => false

end

mutual

theorem same_iff_eq : ∀ a b : Value, same a b = true ↔ a = b
  | .list i xs, b => by
    cases b <;> simp [same, sameItems_iff_eq]
  | .closure i ps x e, b => by
    cases b <;> simp [same, same_iff_eq x, and_assoc]
  | .nil, b => by cases b <;> simp [same]
  | .bool _, b => by cases b <;> simp [same]
  | .int _, b => by cases b <;> simp [same]
  | .str _, b => by cases b <;> simp [same]
  | .sym _, b => by cases b <;> simp [same]
  | .builtin _, b => by cases b <;> simp [same]
  | .foreign _, b => by cases b <;> simp [same]

theorem sameItems_iff_eq : ∀ xs ys : List Value, sameItems xs ys = true ↔ xs = ys
  | [], ys => by cases ys <;> simp [sameItems]
  | x :: xs, [] => by simp [sameItems]
  | x :: xs, y :: ys => by simp [sameItems, same_iff_eq x, sameItems_iff_eq xs]

end

instance : DecidableEq Value := fun a b =>
  decidable_of_iff _ (same_iff_eq a b)

end Value

end TailLisp
