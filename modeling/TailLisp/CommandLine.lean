import TailLisp.Dialogue
import TailLisp.Prelude

/-! # Command line — a dialogue set up from environment variables

    The settings are judged before anything is shown: the log level first, then
    the recursion limit, then the prelude. -/

namespace TailLisp.CommandLine

/-- Why a dialogue does not begin. -/
inductive StartError where
  | settings (cause : SettingsError)
  | prelude (cause : Prelude.Missing)
deriving DecidableEq

/-- What a dialogue begins with. -/
structure Setup where
  limits : Limits
  prompt : String
  prelude : String

/-- The limits that the variables choose. -/
def limits (vars : Variables) : Except SettingsError Limits := do
  let _ ← Settings.logLevel vars
  match ← Settings.recursionLimit vars with
  | some n => return .ofRecursionLimit n
  | none => return .standard

/-- The beginning that the variables choose. -/
def setup (tree : FileTree) (vars : Variables) : Except StartError Setup := do
  let limits ← (limits vars).mapError .settings
  let prelude ← (Prelude.source tree vars).mapError .prelude
  return ⟨limits, Settings.prompt vars, prelude⟩

/-- Loads a prelude and goes on from the store it leaves; a fault in it is the whole
    transcript. -/
def afterPrelude (limits : Limits) (prelude : String) (go : Store → Dialogue.Transcript) :
    Dialogue.Transcript :=
  match (Program.load limits prelude).run .initial with
  | .ok () store =>
    let later := go store
    { later with events := Dialogue.printedBetween .initial store ++ later.events }
  | .error fault store => ⟨Dialogue.printedBetween .initial store, store, some fault⟩

/-- The dialogue with a user who types the given text and then closes the input. -/
def run (tree : FileTree) (vars : Variables) (input : String) :
    Except StartError Dialogue.Transcript := do
  let s ← setup tree vars
  return afterPrelude s.limits s.prelude fun store =>
    Dialogue.run s.limits s.prompt store ((Text.lines input).map .line)

end TailLisp.CommandLine
