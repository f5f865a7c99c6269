import TailLisp.Fault
import TailLisp.Decimal
import TailLisp.StringLiteral
import TailLisp.Token
import TailLisp.Value

/-! # Atoms — the value of a single token

    A word that is no literal and no integer is a symbol, so only strings and
    overlong integers can be refused here. -/

namespace TailLisp.Token

/-- The value of a symbol token's text: a literal, an integer or a symbol. -/
def readWord (word : String) : Except Fault Value :=
  if word = "nil" then .ok .nil
  else if word = "true" then .ok (.bool true)
  else if word = "false" then .ok (.bool false)
  else
    match Decimal.split? word.toList with
    | some (negative, digits) =>
      if digits.length ≤ Decimal.maxDigits then .ok (.int (Decimal.toInt negative digits))
      else .error .digitLimit
    | none => .ok (.sym word)

/-- The value of a string token's text. -/
def readString (literal : String) : Except Fault Value :=
  (StringLiteral.decode literal.toList).map fun text => .str (String.ofList text)

/-- What a token does to the list being read. -/
inductive Role where
  | opens
  | closes
  | atom (value : Value)

/-- The role of a token. -/
def role (token : Token) : Except Fault Role :=
  match token.kind with
  | .opening => .ok .opens
  | .closing => .ok .closes
  | .symbol => (readWord token.text).map .atom
  | .string => (readString token.text).map .atom
  | .other name => .error (.unreadable (.unknownToken name token.text))

end TailLisp.Token
