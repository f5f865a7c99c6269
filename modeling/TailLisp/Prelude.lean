import TailLisp.FileTree
import TailLisp.Settings
import TailLisp.Text.Lines

/-! # Prelude — definitions that a session starts with

    Where no prelude path is set the built-in text is used.  Otherwise the first
    path of the list names the directory of the prelude file, or a file beside
    it. -/

namespace TailLisp.Prelude

/-- The built-in prelude. -/
def core : String :=
  ";; Core definitions written in malt itself.\n" ++
    ";; Loaded into the root environment after the native builtins.\n" ++
    "\n" ++
    "(def! not (fn* (a) (if a false true)))\n"

/-- The name of the prelude file. -/
def fileName : String := "core.mal"

/-- Why there is no prelude. -/
inductive Missing where
  | noPath
  | unreadable (problem : FileTree.Problem)
deriving DecidableEq

/-- The directory that a path stands for: itself, or the one that should hold it. -/
def directoryOf (p : Path) (isDirectory : Bool) : Path :=
  if isDirectory then p else p.parent

/-- The prelude directory, given the paths that are set. -/
def directory (tree : FileTree) (paths : List Path) : Except Missing Path :=
  match paths with
  | [] => .error .noPath
  | p :: _ => .ok (directoryOf p (tree.isDirectory p))

/-- The prelude file, given the paths that are set. -/
def file (tree : FileTree) (paths : List Path) : Except Missing Path :=
  (directory tree paths).map (·.child fileName)

/-- The text of a prelude file as it is read. -/
def ofFile (text : String) : String :=
  String.ofList (Text.unifyLineEnds text.toList)

/-- The text of the prelude that the variables choose. -/
def source (tree : FileTree) (vars : Variables) : Except Missing String :=
  match Settings.preludePaths? vars with
  | none => .ok core
  | some paths => do
    match tree.read (← file tree paths) with
    | .ok text => return ofFile text
    | .error problem => throw (.unreadable problem)

end TailLisp.Prelude
