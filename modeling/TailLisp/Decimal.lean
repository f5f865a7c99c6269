/-! # Decimals — integers as text

    An integer is written with an optional minus sign and decimal digits.  More
    than `maxDigits` digits are neither read nor written; arithmetic itself
    knows no such bound. -/

namespace TailLisp.Decimal

/-- The most digits that an integer may have where it is read or written. -/
def maxDigits : Nat := 4300

/-- The first natural number with too many digits. -/
def bound : Nat := Nat.pow 10 maxDigits

/-- Whether an integer is short enough to be written. -/
def isWritable (n : Int) : Bool :=
  n.natAbs < bound

/-- The text of a natural number. -/
def ofNat (n : Nat) : List Char :=
  Nat.toDigits 10 n

/-- The text of an integer, a minus sign in front of negative ones. -/
def ofInt (n : Int) : List Char :=
  if n < 0 then '-' :: ofNat n.natAbs else ofNat n.natAbs

/-- Sign and digits of a text that is an optional minus sign and at least one digit. -/
def split? : List Char → Option (Bool × List Char)
  | '-' :: digits => if isDigits digits then some (true, digits) else none
  | digits => if isDigits digits then some (false, digits) else none
where
  /-- A digit is one of the ten ASCII digits. -/
  isDigits (cs : List Char) : Bool :=
    !cs.isEmpty && cs.all Char.isDigit

/-- The integer with the given sign and digits. -/
def toInt (negative : Bool) (digits : List Char) : Int :=
  let n := Nat.ofDigitChars 10 digits 0
  if negative then -(n : Int) else n

end TailLisp.Decimal
