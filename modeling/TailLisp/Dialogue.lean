import TailLisp.Program

/-! # Dialogue — a user types lines and reads the results

    Each line is evaluated and its last value shown.  Errors of the language,
    an overflow and an interruption are reported and the dialogue goes on; only
    the other faults end it early.

    A dialogue is recorded as a transcript of events.  What programs print and
    what the dialogue itself says go different ways, which the views keep apart. -/

namespace TailLisp.Dialogue

/-- What the user does when asked for a line. -/
inductive Input where
  | line (text : String)
  | interruption
deriving DecidableEq

/-- What is seen to happen. -/
inductive Event where
  /-- The user is asked for a line. -/
  | asked (prompt : String)
  /-- A program prints. -/
  | printed (text : String)
  /-- The dialogue answers. -/
  | said (text : String)
deriving DecidableEq

/-- What an event shows on the screen. -/
def Event.text : Event → String
  | .asked text | .printed text | .said text => text

/-- The events of a dialogue, the store it leaves, and the fault that ended it early. -/
structure Transcript where
  events : List Event
  store : Store
  ended : Option Fault

/-- What is said about a fault that does not end the dialogue. -/
def report? : Fault → Option String
  | .error cause => some ("error: " ++ cause.message)
  | .stackOverflow => some "error: stack overflow"
  | .interrupted => some "interrupted"
  | _ => none

/-- The printing events between two stores, the second grown out of the first. -/
def printedBetween (before after : Store) : List Event :=
  (after.printed.toList.drop before.printed.size).map (.printed <| Store.lineOf ·)

/-- An answer on a line of its own. -/
def sayLine (text : String) : Event := .said (text ++ "\n")

/-- The reaction to one input. -/
def turn (limits : Limits) (store : Store) : Input → Transcript
  | .interruption => ⟨[sayLine ""], store, none⟩
  | .line text =>
    match (Program.rep limits text).run store with
    | .ok shown after => ⟨printedBetween store after ++ shown.toList.map sayLine, after, none⟩
    | .error fault after =>
      match report? fault with
      | some report => ⟨printedBetween store after ++ [sayLine report], after, none⟩
      | none => ⟨printedBetween store after, after, some fault⟩

/-- A dialogue over the given inputs, closed by the end of input. -/
def run (limits : Limits) (prompt : String) (store : Store) : List Input → Transcript
  | [] => ⟨[.asked prompt, sayLine ""], store, none⟩
  | input :: rest =>
    let now := turn limits store input
    match now.ended with
    | some fault => ⟨.asked prompt :: now.events, now.store, some fault⟩
    | none =>
      let later := run limits prompt now.store rest
      { later with events := .asked prompt :: now.events ++ later.events }

namespace Transcript

/-- The prompts, in order. -/
def prompts (t : Transcript) : List String :=
  t.events.filterMap fun
    | .asked prompt => some prompt
    | _ => none

/-- What the dialogue itself said. -/
def said (t : Transcript) : String :=
  String.join <| t.events.filterMap fun
    | .said text => some text
    | _ => none

/-- What programs printed. -/
def printed (t : Transcript) : String :=
  String.join <| t.events.filterMap fun
    | .printed text => some text
    | _ => none

/-- What was said and printed, as it happened. -/
def spoken (t : Transcript) : String :=
  String.join <| t.events.filterMap fun
    | .asked _ => none
    | .printed text | .said text => some text

/-- Everything on one screen, prompts included. -/
def screen (t : Transcript) : String :=
  String.join (t.events.map Event.text)

end Transcript

end TailLisp.Dialogue
