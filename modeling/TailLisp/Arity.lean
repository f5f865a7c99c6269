/-! # Arity — how many arguments a function or form takes

    An arity is stated once, as data.  What a caller may pass and the words
    that an error message uses for it are both read off it. -/

namespace TailLisp

/-- The argument counts that a function or a special form accepts. -/
inductive Arity where
  | exactly (n : Nat)
  | either (m n : Nat)
  | any
deriving DecidableEq

namespace Arity

/-- Whether a call with `got` arguments is accepted. -/
def Admits : Arity → Nat → Prop
  | .exactly n, got => got = n
  | .either m n, got => got = m ∨ got = n
  | .any, _ => True

instance (a : Arity) (got : Nat) : Decidable (a.Admits got) := by
  cases a <;> unfold Admits <;> infer_instance

/-- The counts as an error message names them. -/
def text : Arity → String
  | .exactly n => n.repr
  | .either m n => m.repr ++ " or " ++ n.repr
  | .any => "any number of"

end Arity

end TailLisp
