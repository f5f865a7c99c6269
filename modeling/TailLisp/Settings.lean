import TailLisp.Path
import TailLisp.Text.Blank
import TailLisp.Decimal
import TailLisp.Text.Digit
import TailLisp.Text.Quoted
import TailLisp.Text.Uppercase

/-! # Settings — what environment variables choose

    Each setting has a variable and a default for when the variable is not
    there.  A variable that is there but empty is a value like any other for the
    prompt and the log level, and counts as missing for the rest. -/

namespace TailLisp

/-- Environment variables by name. -/
abbrev Variables := List (String × String)

/-- Why a setting cannot be used. -/
inductive SettingsError where
  | unknownLevel (name : String)
  | limitNotInteger (text : String)
  | limitNotPositive (n : Int)
deriving DecidableEq

/-- The wording of an unusable setting. -/
def SettingsError.message : SettingsError → String
  | .unknownLevel name => "MALT_LOG_LEVEL: unknown level " ++ Text.Quoted.quote name
  | .limitNotInteger text => "MALT_RECURSION_LIMIT: not an integer: " ++ Text.Quoted.quote text
  | .limitNotPositive n =>
    "MALT_RECURSION_LIMIT: must be positive, got " ++ String.ofList (Decimal.ofInt n)

namespace Settings

open Text

/-- The value of a variable, unless it is missing or empty. -/
def nonempty? (vars : Variables) (name : String) : Option String :=
  (vars.lookup name).filter (· ≠ "")

/-! ## Prompt and log level -/

/-- What the user is asked with. -/
def prompt (vars : Variables) : String :=
  (vars.lookup "MALT_PROMPT").getD "user> "

/-- The names of the log levels, in upper case. -/
def levels : List (String × Nat) :=
  [("CRITICAL", 50), ("FATAL", 50), ("ERROR", 40), ("WARN", 30), ("WARNING", 30),
    ("INFO", 20), ("DEBUG", 10), ("NOTSET", 0)]

/-- The log level, named in letters of any case. -/
def logLevel (vars : Variables) : Except SettingsError Nat :=
  let name := upper ((vars.lookup "MALT_LOG_LEVEL").getD "WARNING")
  match levels.lookup name with
  | some level => .ok level
  | none => .error (.unknownLevel name)

/-! ## Recursion limit -/

/-- The blanks that may surround an integer: all but the information separators. -/
def isPadding (c : Char) : Bool :=
  isBlank c && !(0x1C ≤ c.toNat && c.toNat ≤ 0x1F)

/-- The worths of digits, between two of which a single underscore may stand. -/
def digits? : List Char → Option (List Nat)
  | [] => none
  | [c] => (digitValue? c).map ([·])
  | c :: '_' :: rest => do return (← digitValue? c) :: (← digits? rest)
  | c :: rest => do return (← digitValue? c) :: (← digits? rest)

/-- The integer that a text denotes: padding, a sign, digits. -/
def integer? (text : String) : Option Int :=
  match trim isPadding text.toList with
  | '-' :: rest => (natural? rest).map fun n => -(n : Int)
  | '+' :: rest => (natural? rest).map Int.ofNat
  | rest => (natural? rest).map Int.ofNat
where
  /-- The number with the given digits, if there are not too many. -/
  natural? (cs : List Char) : Option Nat := do
    let digits ← digits? cs
    if digits.length ≤ Decimal.maxDigits then some (digits.foldl (10 * · + ·) 0) else none

/-- The recursion limit, if one is set. -/
def recursionLimit (vars : Variables) : Except SettingsError (Option Nat) :=
  match nonempty? vars "MALT_RECURSION_LIMIT" with
  | none => .ok none
  | some text =>
    match integer? text with
    | none => .error (.limitNotInteger text)
    | some n => if 0 < n then .ok (some n.toNat) else .error (.limitNotPositive n)

/-! ## Prelude path -/

/-- The parts of a text between colons, `before` standing in front of the first, reversed. -/
def splitColons (before : List Char) : List Char → List (List Char)
  | [] => [before.reverse]
  | c :: rest =>
    if c = ':' then before.reverse :: splitColons [] rest
    else splitColons (c :: before) rest

/-- The paths of a list separated by colons; blank ones do not count. -/
def pathList (text : String) : List Path :=
  let parts := (splitColons [] text.toList).map (trim isBlank)
  (parts.filter (!·.isEmpty)).map fun part => Path.ofString (String.ofList part)

/-- The prelude paths, if any are set. -/
def preludePaths? (vars : Variables) : Option (List Path) :=
  (nonempty? vars "MALT_PRELUDE_PATH").map pathList

end Settings

end TailLisp
