import TailLisp.Path

/-! # File trees — files and directories known by their names

    A tree lists its files and directories by their names from the top.  All
    directories on the way to an entry exist.  Nothing is known of what lies
    outside the tree but that there is a directory above it. -/

namespace TailLisp

/-- The files with their texts, and further directories. -/
structure FileTree where
  files : List (List String × String)
  directories : List (List String)

namespace FileTree

/-- Why a file cannot be read. -/
inductive Problem where
  | absent
  | notDirectory
  | isDirectory
deriving DecidableEq

/-- What a path leads to. -/
inductive Place where
  | inside (names : List String)
  | outside
  | file (text : String)
  | none (problem : Problem)

/-- A tree with nothing in it. -/
def empty : FileTree := ⟨[], []⟩

/-- Whether there is a directory with the given names. -/
def hasDirectory (tree : FileTree) (names : List String) : Bool :=
  tree.directories.any (names.isPrefixOf ·) ||
    tree.files.any (fun (file, _) => names.isPrefixOf file && names.length < file.length) ||
    names.isEmpty

/-- One name further on. -/
def go (tree : FileTree) (here : Place) (name : String) : Place :=
  match here with
  | .inside names =>
    if name = ".." then
      if names.isEmpty then .outside else .inside names.dropLast
    else
      let names := names ++ [name]
      if tree.hasDirectory names then .inside names
      else match tree.files.lookup names with
        | some text => .file text
        | Option.none => .none .absent
  | .outside => if name = ".." then .outside else .none .absent
  | .file _ => .none .notDirectory
  | .none problem => .none problem

/-- What a path leads to, from the top of the tree. -/
def find (tree : FileTree) (p : Path) : Place :=
  p.names.foldl tree.go (if p.slashes = 0 then .inside [] else .outside)

/-- Whether a path leads to a directory. -/
def isDirectory (tree : FileTree) (p : Path) : Bool :=
  match tree.find p with
  | .inside _ | .outside => true
  | _ => false

/-- The text of a file. -/
def read (tree : FileTree) (p : Path) : Except Problem String :=
  match tree.find p with
  | .file text => .ok text
  | .inside _ | .outside => .error .isDirectory
  | .none problem => .error problem

end FileTree

end TailLisp
