/-! # Paths — places in a tree of files

    A path is a sequence of names, counted from the top if slashes lead it.
    Repeated slashes and the name `.` mean nothing and are dropped; `..` is kept.
    Exactly two leading slashes are kept apart from one. -/

namespace TailLisp

/-- A path by its leading slashes and its names. -/
structure Path where
  slashes : Nat
  names : List String
deriving DecidableEq

namespace Path

/-- The names between slashes, `before` standing in front of the first, reversed. -/
def splitNames (before : List Char) : List Char → List String
  | [] => [String.ofList before.reverse]
  | c :: rest =>
    if c = '/' then String.ofList before.reverse :: splitNames [] rest
    else splitNames (c :: before) rest

/-- One or two leading slashes count as they are, more of them as one. -/
def leadingSlashes (text : List Char) : Nat :=
  let n := (text.takeWhile (· == '/')).length
  if n ≤ 2 then n else 1

/-- The path that a text denotes. -/
def ofString (text : String) : Path where
  slashes := leadingSlashes text.toList
  names := (splitNames [] text.toList).filter fun name => name ≠ "" ∧ name ≠ "."

/-- The text of a path; the path without names is the place itself. -/
def toString (p : Path) : String :=
  if p.slashes = 0 ∧ p.names = [] then "."
  else String.ofList (List.replicate p.slashes '/') ++ "/".intercalate p.names

/-- The path without its last name. -/
def parent (p : Path) : Path :=
  { p with names := p.names.dropLast }

/-- The path with one more name. -/
def child (p : Path) (name : String) : Path :=
  { p with names := p.names ++ [name] }

end Path

end TailLisp
