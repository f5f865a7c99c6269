import TailLisp.CommandLine

/-! # Main — the dialogue on standard input and output

    Reads the variables and the prelude file, then asks for one line after
    another.  Everything that is decided is decided by `CommandLine` and
    `Dialogue`. -/

namespace TailLisp.Main

/-- The variables that choose settings. -/
def variableNames : List String :=
  ["MALT_PROMPT", "MALT_LOG_LEVEL", "MALT_RECURSION_LIMIT", "MALT_PRELUDE_PATH"]

/-- The variables that are there. -/
def environment : IO Variables :=
  variableNames.filterMapM fun name => do
    return (← IO.getEnv name).map fun value => (name, value)

/-- Whether a path leads to a directory. -/
def isDirectory (p : Path) : IO Bool := do
  (← IO.FS.realPath p.toString).isDir

/-- The text of the prelude that the variables choose. -/
def prelude (vars : Variables) : IO String := do
  match Settings.preludePaths? vars with
  | none => return Prelude.core
  | some [] => throw (.userError "MALT_PRELUDE_PATH: no path")
  | some (p :: _) =>
    let file := (Prelude.directoryOf p (← isDirectory p)).child Prelude.fileName
    return Prelude.ofFile (← IO.FS.readFile file.toString)

/-- Shows events as they happen. -/
def display (stdout : IO.FS.Stream) (events : List Dialogue.Event) : IO Unit := do
  for event in events do
    stdout.putStr event.text
  stdout.flush

/-- Goes on with the lines already read, then with those still to be typed. -/
partial def converse (stdin stdout : IO.FS.Stream) (limits : Limits) (prompt : String)
    (store : Store) (waiting : List String) : IO (Option Fault) := do
  display stdout [.asked prompt]
  let lines ← if waiting.isEmpty then Text.lines <$> stdin.getLine else pure waiting
  match lines with
  | [] =>
    display stdout [Dialogue.sayLine ""]
    return none
  | line :: rest =>
    let turn := Dialogue.turn limits store (.line line)
    display stdout turn.events
    match turn.ended with
    | some fault => return some fault
    | none => converse stdin stdout limits prompt turn.store rest

/-- Loads the prelude and starts the dialogue. -/
def start (limits : Limits) (prompt preludeText : String) : IO (Option Fault) := do
  let stdout ← IO.getStdout
  let loaded := CommandLine.afterPrelude limits preludeText fun store => ⟨[], store, none⟩
  display stdout loaded.events
  match loaded.ended with
  | some fault => return some fault
  | none => converse (← IO.getStdin) stdout limits prompt loaded.store []

end TailLisp.Main

/-- Talks to the user until the input ends.  A setting that cannot be used, or a fault that
    ends the dialogue early, makes the exit code 1. -/
def main : IO UInt32 := do
  let vars ← TailLisp.Main.environment
  let stderr ← IO.getStderr
  match TailLisp.CommandLine.limits vars with
  | .error cause =>
    stderr.putStrLn cause.message
    return 1
  | .ok limits =>
    let prelude ← TailLisp.Main.prelude vars
    match ← TailLisp.Main.start limits (TailLisp.Settings.prompt vars) prelude with
    | none => return 0
    | some fault =>
      stderr.putStrLn (fault.message?.getD "the dialogue was ended by a fault")
      return 1
