import TailLisp.Arity

/-! # Builtin — the functions the language starts with

    Names and arities only; what each one computes is in `Builtin.Call`.
    `table` lists the functions that a fresh root frame binds.  `interrupt` is
    not among them: it stands for a user who breaks off an evaluation, and is
    bound only where a loop is driven by hand. -/

namespace TailLisp

/-- A function that is not written in the language itself. -/
inductive Builtin where
  | add | sub | mul | div
  | equal
  | less | lessEq | greater | greaterEq
  | list | isList | isEmpty | count
  | prn
  | interrupt
deriving DecidableEq

namespace Builtin

/-- The symbol under which the function is bound. -/
def name : Builtin → String
  | .add => "+"
  | .sub => "-"
  | .mul => "*"
  | .div => "/"
  | .equal => "="
  | .less => "<"
  | .lessEq => "<="
  | .greater => ">"
  | .greaterEq => ">="
  | .list => "list"
  | .isList => "list?"
  | .isEmpty => "empty?"
  | .count => "count"
  | .prn => "prn"
  | .interrupt => "interrupt!"

/-- Only `list` takes any number of arguments. -/
def arity : Builtin → Arity
  | .add | .sub | .mul | .div => .exactly 2
  | .equal | .less | .lessEq | .greater | .greaterEq => .exactly 2
  | .list => .any
  | .isList | .isEmpty | .count | .prn => .exactly 1
  | .interrupt => .exactly 0

/-- The builtins of a fresh root frame, in the order in which they are bound. -/
def table : List Builtin :=
  [.add, .sub, .mul, .div, .equal, .less, .lessEq, .greater, .greaterEq,
    .list, .isList, .isEmpty, .count, .prn]

/-- The builtin of the table that has the given name. -/
def ofName? (name : String) : Option Builtin :=
  table.find? (·.name = name)

end Builtin

end TailLisp
