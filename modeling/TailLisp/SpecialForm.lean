import TailLisp.Arity

/-! # Special forms — the heads with evaluation rules of their own

    A list whose raw, unevaluated head is one of these five symbols is a
    special form, whatever the symbol is bound to. -/

namespace TailLisp

/-- The special forms of the language. -/
inductive SpecialForm where
  | define
  | letStar
  | branch
  | sequence
  | lambda
deriving DecidableEq

namespace SpecialForm

/-- The symbol that a list of this form starts with. -/
def name : SpecialForm → String
  | .define => "def!"
  | .letStar => "let*"
  | .branch => "if"
  | .sequence => "do"
  | .lambda => "fn*"

/-- The argument counts that the form accepts. -/
def arity : SpecialForm → Arity
  | .define | .letStar | .lambda => .exactly 2
  | .branch => .either 2 3
  | .sequence => .any

/-- The special form that a symbol stands for. -/
def ofName? (name : String) : Option SpecialForm :=
  match name with
  | "def!" => some .define
  | "let*" => some .letStar
  | "if" => some .branch
  | "do" => some .sequence
  | "fn*" => some .lambda
  | _ => none

end SpecialForm

end TailLisp
