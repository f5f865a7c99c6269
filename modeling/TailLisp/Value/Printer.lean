import TailLisp.Fault
import TailLisp.Decimal
import TailLisp.StringLiteral
import TailLisp.Value

/-! # Printer — values as program text

    `text` is the text of any value.  Printing asks first whether the value can
    be written at all: it must not be nested too deep, hold too long an integer or
    something from outside the language.  What comes first from the left decides.

    Functions have no text of their own and show as a placeholder.  Every other
    value reads back from its readable text, if its symbols are words that the
    reader takes for symbols. -/

namespace TailLisp

/-- Whether strings are shown as literals or as they are. -/
inductive TextStyle where
  | readable
  | plain
deriving DecidableEq

namespace Value

/-- What every function is printed as. -/
def functionText : String := "#<function>"

/-- The text of a string in a given style. -/
def stringText (style : TextStyle) (s : String) : String :=
  match style with
  | .readable => String.ofList (StringLiteral.encode s.toList)
  | .plain => s

mutual

/-- The text of a value. -/
def text (style : TextStyle) : Value → String
  | .nil => "nil"
  | .bool b => if b then "true" else "false"
  | .int n => String.ofList (Decimal.ofInt n)
  | .str s => stringText style s
  | .sym name => name
  | .list _ items => "(" ++ textItems style items ++ ")"
  | .builtin _ | .closure .. => functionText
  | .foreign shown => shown

/-- The texts of the items of a list, a space between each two. -/
def textItems (style : TextStyle) : List Value → String
  | [] => ""
  | [item] => text style item
  | item :: next :: rest => text style item ++ " " ++ textItems style (next :: rest)

end

mutual

/-- Succeeds if a value can be printed with `room` levels of lists. -/
def checkText (room : Nat) : Value → Except Fault Unit
  | .int n => if Decimal.isWritable n then .ok () else .error .digitLimit
  | .list _ items =>
    match room with
    | 0 => .error .stackOverflow
    | room + 1 => checkTextItems room items
  | .foreign shown => .error (.foreign shown)
  | _ => .ok ()

/-- Succeeds if all items of a list can be printed. -/
def checkTextItems (room : Nat) : List Value → Except Fault Unit
  | [] => .ok ()
  | item :: rest => do
    checkText room item
    checkTextItems room rest

end

/-- The text of a value that can be printed with `room` levels of lists. -/
def printAs (style : TextStyle) (room : Nat) (v : Value) : Except Fault String := do
  checkText room v
  return text style v

/-- The readable text of a value that can be printed with `room` levels of lists. -/
def print (room : Nat) (v : Value) : Except Fault String :=
  printAs .readable room v

end Value

end TailLisp
