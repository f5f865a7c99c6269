import TailLisp.Text.Quoted
import TailLisp.Value.Printer

/-! # Inspection — values as they are shown to a programmer

    Unlike the printer's text, this one tells all kinds of values apart and
    shows what functions are made of.  Frames are listed with it, and an invalid
    name is shown with it. -/

namespace TailLisp.Value

open Text

/-- A function as a form, given the text of its body. -/
def lambdaText (params : List String) (body : String) : String :=
  "(fn* (" ++ " ".intercalate params ++ ") " ++ body ++ ")"

mutual

/-- The inspection text of a value. -/
def inspectText : Value → String
  | .nil => "nil"
  | .bool b => if b then "True" else "False"
  | .int n => String.ofList (Decimal.ofInt n)
  | .str s => Quoted.quote s
  | .sym name => "Symbol(" ++ Quoted.quote name ++ ")"
  | .list _ items => "[" ++ inspectItems items ++ "]"
  | .builtin b => "<Native " ++ b.name ++ ">"
  | .closure _ params body _ => "<Closure " ++ lambdaText params (inspectText body) ++ ">"
  | .foreign shown => shown

/-- The inspection texts of the items of a list, a comma and a space between each two. -/
def inspectItems : List Value → String
  | [] => ""
  | [item] => inspectText item
  | item :: next :: rest => inspectText item ++ ", " ++ inspectItems (next :: rest)

end

mutual

/-- Succeeds if a value can be inspected with `room` levels of lists and functions. -/
def checkInspect (room : Nat) : Value → Except Fault Unit
  | .int n => if Decimal.isWritable n then .ok () else .error .digitLimit
  | .list _ items =>
    match room with
    | 0 => .error .stackOverflow
    | room + 1 => checkInspectItems room items
  | .closure _ _ body _ =>
    match room with
    | 0 => .error .stackOverflow
    | room + 1 => checkInspect room body
  | _ => .ok ()

/-- Succeeds if all items of a list can be inspected. -/
def checkInspectItems (room : Nat) : List Value → Except Fault Unit
  | [] => .ok ()
  | item :: rest => do
    checkInspect room item
    checkInspectItems room rest

end

/-- The inspection text of a value that can be inspected with `room` levels. -/
def inspect (room : Nat) (v : Value) : Except Fault String := do
  checkInspect room v
  return inspectText v

/-- A value as it stands alone in a line: strings and symbols as they are, functions as
    forms, everything else as inspected. -/
def display (room : Nat) (v : Value) : Except Fault String := do
  checkInspect room v
  return match v with
    | .str s => s
    | .sym name => name
    | .closure _ params body _ => lambdaText params (inspectText body)
    | v => inspectText v

end TailLisp.Value
