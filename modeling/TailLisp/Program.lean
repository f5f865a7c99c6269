import TailLisp.Eval.Run
import TailLisp.Limits
import TailLisp.Value.Reader

/-! # Programs — texts read and evaluated form by form

    A form is evaluated in the root frame before the next one is read, so a
    text that cannot be read to its end has still had its effect up to there.
    What is left of a text is its remaining tokens. -/

namespace TailLisp.Program

/-- Evaluates one form in the root frame. -/
def evalForm (limits : Limits) (form : Value) : Eval Value :=
  Eval.evaluate limits.fuel limits.depth form Store.root

/-- Reads and evaluates the next form, if there is one; the tokens behind it are left. -/
def next (limits : Limits) (tokens : List Token) : Eval (Option (Value × List Token)) :=
  match Value.readForm limits.depth tokens with
  | (.error fault, _) => throw fault
  | (.ok none, _) => return none
  | (.ok (some form), rest) => do return some (← evalForm limits form, rest)

/-- Reads and evaluates all forms, handing each value to `visit`. -/
def fold {α : Type} (limits : Limits) (visit : α → Value → Eval α) (start : α)
    (tokens : List Token) : Eval α :=
  match _h : Value.readForm limits.depth tokens with
  | (.error fault, _) => throw fault
  | (.ok none, _) => return start
  | (.ok (some form), rest) => do
    let value ← evalForm limits form
    fold limits visit (← visit start value) rest
termination_by tokens.length
decreasing_by exact Value.readForm_rest_length_lt _h

section Fold

variable {α : Type} {limits : Limits} {tokens rest : List Token} (visit : α → Value → Eval α)
  (start : α)

theorem fold_of_error {fault : Fault}
    (h : Value.readForm limits.depth tokens = (.error fault, rest)) :
    fold limits visit start tokens = throw fault := by
  unfold fold
  split <;> simp_all

theorem fold_of_none (h : Value.readForm limits.depth tokens = (.ok none, rest)) :
    fold limits visit start tokens = pure start := by
  unfold fold
  split <;> simp_all

theorem fold_of_some {form : Value}
    (h : Value.readForm limits.depth tokens = (.ok (some form), rest)) :
    fold limits visit start tokens =
      evalForm limits form >>= fun value =>
        visit start value >>= fun next => fold limits visit next rest := by
  rw [fold]
  split <;> simp_all

end Fold

/-- The value of the last form, or `nil` if there is none. -/
def eval (limits : Limits) (source : String) : Eval Value :=
  fold limits (fun _ value => return value) .nil (Token.lex source)

/-- The text of the last form's value, if there is a form.  Every value is printed, also
    those before the last. -/
def rep (limits : Limits) (source : String) : Eval (Option String) :=
  fold limits (fun _ value => do return some (← value.print limits.depth)) none (Token.lex source)

/-- Evaluates all forms for their effect. -/
def load (limits : Limits) (source : String) : Eval Unit :=
  fold limits (fun _ _ => return ()) () (Token.lex source)

end TailLisp.Program
