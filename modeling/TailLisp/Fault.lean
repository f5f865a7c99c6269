import TailLisp.Builtin
import TailLisp.SpecialForm

/-! # Faults — why reading, evaluating or printing stops

    Errors of the language are causes with one wording, `LispError.message`.
    They are kept apart from what lies outside the language: nesting that is
    too deep, integers too long to be written, a value from outside, a user's
    interruption, a look beyond the end of a list, and fuel that ran out. -/

namespace TailLisp

/-- Why a text cannot be read into forms. -/
inductive ReadError where
  | unterminatedString
  | unknownEscape (c : Char)
  | unclosedList
  | unexpectedClose
  | unknownToken (kind text : String)
deriving DecidableEq

/-- What is wrong with the arguments of a special form. -/
inductive Defect where
  | firstNotSymbol
  | firstNotList
  | oddBindings
  | bindingNotSymbol (index : Nat)
  | parameterNotSymbol (index : Nat)
  | duplicateParameter (name : String)
deriving DecidableEq

/-- An error of the language: what a program or its text did wrong. -/
inductive LispError where
  | unreadable (cause : ReadError)
  | invalidSymbol (shown : String)
  | unbound (name : String)
  | arity (callee : String) (takes : Arity) (got : Nat)
  | notInteger (callee : Builtin) (position : Nat) (shown : String)
  | notList (callee : Builtin) (shown : String)
  | malformed (form : SpecialForm) (defect : Defect)
  | notCallable (shown : String)
  | divisionByZero
deriving DecidableEq

/-- Everything that can end a computation before its value. -/
inductive Fault where
  | error (cause : LispError)
  /-- More nested levels than the limit allows. -/
  | stackOverflow
  /-- An integer with more decimal digits than are read or written. -/
  | digitLimit
  /-- Something that is no value of the language was to be printed. -/
  | foreign (shown : String)
  | interrupted
  /-- Something was asked of a list or a text that lies beyond its end. -/
  | outOfRange
  | outOfFuel
deriving DecidableEq

/-- The wording of a reading error. -/
def ReadError.message : ReadError → String
  | .unterminatedString => "expected '\"', got EOF"
  | .unknownEscape c => "unknown escape sequence \\" ++ String.singleton c
  | .unclosedList => "expected ')', got EOF"
  | .unexpectedClose => "unexpected ')'"
  | .unknownToken kind text => "Unknown token: " ++ kind ++ " " ++ text

/-- The wording of a defect. -/
def Defect.message : Defect → String
  | .firstNotSymbol => "first arg isn't a symbol"
  | .firstNotList => "first arg isn't a list"
  | .oddBindings => "first arg doesn't have an even number of items"
  | .bindingNotSymbol i => "binding " ++ i.repr ++ " isn't a symbol"
  | .parameterNotSymbol i => "parameter " ++ i.repr ++ " isn't a symbol"
  | .duplicateParameter name => "duplicate parameter " ++ name

/-- The wording of an error of the language. -/
def LispError.message : LispError → String
  | .unreadable cause => cause.message
  | .invalidSymbol shown => "Cannot define " ++ shown ++ " as a symbol"
  | .unbound name => "'" ++ name ++ "' not found"
  | .arity callee takes got =>
    callee ++ " takes " ++ takes.text ++ " args, got " ++ got.repr
  | .notInteger callee position shown =>
    callee.name ++ ": argument " ++ position.repr ++ " isn't an integer: " ++ shown
  | .notList callee shown => callee.name ++ ": argument isn't a list: " ++ shown
  | .malformed form defect => form.name ++ ": " ++ defect.message
  | .notCallable shown => shown ++ " is not a function"
  | .divisionByZero => Builtin.div.name ++ ": division by zero"

/-- The wording of a fault; some have none. -/
def Fault.message? : Fault → Option String
  | .error cause => some cause.message
  | .foreign shown => some ("not a malt value: " ++ shown)
  | _ => none

/-- The fault of a text that cannot be read. -/
abbrev Fault.unreadable (cause : ReadError) : Fault :=
  .error (.unreadable cause)

end TailLisp
