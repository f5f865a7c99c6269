import TailLisp.Eval
import TailLisp.Value.Equality

/-! # Calling builtins — what each of them computes

    The number of arguments is judged before any of them is looked at, and
    operands are judged from the left.  Only `list` takes a serial number and only
    `prn` prints; the others leave the store alone. -/

namespace TailLisp.Builtin

open Eval

/-- Two operands that must both be integers. -/
def operands (room : Nat) (b : Builtin) : Value → Value → Eval (Int × Int)
  | .int m, .int n => return (m, n)
  | .int _, y => do fail (.notInteger b 2 (← y.print room))
  | x, _ => do fail (.notInteger b 1 (← x.print room))

/-- The result of an operation on two integers. -/
def arithmetic (room : Nat) (b : Builtin) (op : Int → Int → Int) (x y : Value) : Eval Value := do
  let (m, n) ← operands room b x y
  return .int (op m n)

/-- The result of comparing two integers. -/
def comparison (room : Nat) (b : Builtin) (holds : Int → Int → Bool) (x y : Value) :
    Eval Value := do
  let (m, n) ← operands room b x y
  return .bool (holds m n)

/-- The quotient of the magnitudes, with a minus if the signs differ.  Zero counts as positive. -/
def quotient (m n : Int) : Int :=
  let q : Int := (m.natAbs / n.natAbs : Nat)
  if m < 0 ↔ n < 0 then q else -q

/-- So it is rounded toward zero.  Where the dividend is zero, its sign does not matter. -/
theorem quotient_eq_tdiv (m n : Int) : quotient m n = m.tdiv n := by
  cases m with
  | ofNat a =>
    have ha : ¬ Int.ofNat a < 0 := Int.not_lt.mpr (Int.natCast_nonneg a)
    cases n with
    | ofNat b =>
      have hb : ¬ Int.ofNat b < 0 := Int.not_lt.mpr (Int.natCast_nonneg b)
      rw [quotient, if_pos (iff_of_false ha hb)]
      rfl
    | negSucc b =>
      rw [quotient, if_neg fun hsigns => ha (hsigns.mpr (Int.negSucc_lt_zero b))]
      rfl
  | negSucc a =>
    have ha : Int.negSucc a < 0 := Int.negSucc_lt_zero a
    cases n with
    | ofNat b =>
      have hb : ¬ Int.ofNat b < 0 := Int.not_lt.mpr (Int.natCast_nonneg b)
      rw [quotient, if_neg fun hsigns => hb (hsigns.mp ha)]
      rfl
    | negSucc b =>
      rw [quotient, if_pos (iff_of_true ha (Int.negSucc_lt_zero b))]
      rfl

/-- The quotient of two integers, unless the second is zero. -/
def division (room : Nat) (x y : Value) : Eval Value := do
  let (m, n) ← operands room .div x y
  if n = 0 then fail .divisionByZero else return .int (quotient m n)

/-- What a builtin does with its arguments, given `room` levels to spare.  It takes the
    arguments by position and relies on their number. -/
def compute (room : Nat) (b : Builtin) (args : List Value) : Eval Value :=
  match b, args with
  | .add, [x, y] => arithmetic room .add (· + ·) x y
  | .sub, [x, y] => arithmetic room .sub (· - ·) x y
  | .mul, [x, y] => arithmetic room .mul (· * ·) x y
  | .div, [x, y] => division room x y
  | .less, [x, y] => comparison room .less (fun m n => m < n) x y
  | .lessEq, [x, y] => comparison room .lessEq (fun m n => m ≤ n) x y
  | .greater, [x, y] => comparison room .greater (fun m n => n < m) x y
  | .greaterEq, [x, y] => comparison room .greaterEq (fun m n => n ≤ m) x y
  | .equal, [x, y] => do return .bool (← x.equal room y)
  | .list, items => do return .list (some (← newSerial)) items
  | .isList, [.list ..] => return .bool true
  | .isList, [_] => return .bool false
  | .isEmpty, [.list _ items] => return .bool items.isEmpty
  | .isEmpty, [x] => do fail (.notList .isEmpty (← x.print room))
  | .count, [.nil] => return .int 0
  | .count, [.list _ items] => return .int items.length
  | .count, [x] => do fail (.notList .count (← x.print room))
  | .prn, [x] => do
    x.checkText room
    modify (·.record x)
    return .nil
  | .interrupt, [] => throw .interrupted
  | _, _ => throw .outOfRange

/-- Calls a builtin with evaluated arguments and `room` levels to spare. -/
def call (room : Nat) (b : Builtin) (args : List Value) : Eval Value :=
  if b.arity.Admits args.length then compute room b args
  else fail (.arity b.name b.arity args.length)

end TailLisp.Builtin
