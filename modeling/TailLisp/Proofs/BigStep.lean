import TailLisp.Proofs.Exhaustion

/-! # Big-step evaluation — the language by rules

    One rule for each way in which an evaluation ends, in the plain recursive
    style: the body of a `let*`, the chosen branch of an `if`, the last form of a
    `do` and the body of a called closure are evaluated by the same relation as
    everything else.  There are no tail calls, no fuel and no limit of depth here.

    `Evaluates s e form o` says that evaluating `form` in frame `e` of store `s`
    ends with `o`, a value or a fault together with the store that is left.  What a
    run prints is part of that store. -/

namespace TailLisp

/-! ## Special forms of the wrong shape -/

namespace SpecialForm

/-- The first parameter that is no symbol or repeats an earlier one. -/
def parameterDefect? (earlier : List Value) : List Value → Option Defect
  | [] => none
  | .sym name :: rest =>
    if .sym name ∈ earlier then some (.duplicateParameter name)
    else parameterDefect? (earlier ++ [.sym name]) rest
  | _ :: _ => some (.parameterNotSymbol earlier.length)

/-- What is wrong with the first argument of a special form. -/
def defect? : SpecialForm → List Value → Option Defect
  | .define, .sym _ :: _ => none
  | .define, _ => some .firstNotSymbol
  | .letStar, .list _ bindings :: _ =>
    if bindings.length % 2 = 0 then none else some .oddBindings
  | .letStar, _ => some .firstNotList
  | .lambda, .list _ params :: _ => parameterDefect? [] params
  | .lambda, _ => some .firstNotList
  | .branch, _ | .sequence, _ => none

/-- Why a special form is refused before any part of it is evaluated. -/
def misuse? (kind : SpecialForm) (args : List Value) : Option LispError :=
  if kind.arity.Admits args.length then (kind.defect? args).map (.malformed kind)
  else some (.arity kind.name kind.arity args.length)

/-- A special form with the given arguments. -/
abbrev applied (kind : SpecialForm) (serial : Option Serial) (args : List Value) : Value :=
  .list serial (.sym kind.name :: args)

end SpecialForm

namespace Value

/-- The forms that are their own value. -/
def IsSelfEvaluating : Value → Prop
  | .sym _ | .list _ (_ :: _) => False
  | _ => True

/-- The values that can be called. -/
def IsFunction : Value → Prop
  | .builtin _ | .closure .. => True
  | _ => False

end Value

/-! ## The rules -/

mutual

/-- In frame `e` of store `s`, evaluating a form ends with an outcome. -/
inductive Evaluates : Store → FrameId → Value → Outcome Value → Prop where
  | self {s e form} : form.IsSelfEvaluating → Evaluates s e form (.ok form s)
  | found {s e name v} : s.lookup? e name = some v → Evaluates s e (.sym name) (.ok v s)
  | unbound {s e name} : s.lookup? e name = none →
      Evaluates s e (.sym name) (.error (.error (.unbound name)) s)
  | misused {s e i args} {kind : SpecialForm} {cause : LispError} :
      kind.misuse? args = some cause →
      Evaluates s e (kind.applied i args) (.error (.error cause) s)
  | define {s e i name expr v s₁} : Evaluates s e expr (.ok v s₁) →
      Evaluates s e (SpecialForm.define.applied i [.sym name, expr])
        (.ok v (s₁.define e name v))
  | defineFails {s e i name expr fault s₁} : Evaluates s e expr (.error fault s₁) →
      Evaluates s e (SpecialForm.define.applied i [.sym name, expr]) (.error fault s₁)
  | letStar {s e i j body s₁ o} {bindings : List Value} : bindings.length % 2 = 0 →
      Binds (s.addFrame e []) s.frames.size 0 bindings (.ok () s₁) →
      Evaluates s₁ s.frames.size body o →
      Evaluates s e (SpecialForm.letStar.applied i [.list j bindings, body]) o
  | letStarFails {s e i j body fault s₁} {bindings : List Value} : bindings.length % 2 = 0 →
      Binds (s.addFrame e []) s.frames.size 0 bindings (.error fault s₁) →
      Evaluates s e (SpecialForm.letStar.applied i [.list j bindings, body]) (.error fault s₁)
  | branch {s e i cond yes v s₁ o} {no : Option Value} : Evaluates s e cond (.ok v s₁) →
      Evaluates s₁ e (if v.isTruthy then yes else no.getD .nil) o →
      Evaluates s e (SpecialForm.branch.applied i (cond :: yes :: no.toList)) o
  | branchFails {s e i cond yes fault s₁} {no : Option Value} :
      Evaluates s e cond (.error fault s₁) →
      Evaluates s e (SpecialForm.branch.applied i (cond :: yes :: no.toList)) (.error fault s₁)
  | sequence {s e i forms o} : RunsThrough s e forms o →
      Evaluates s e (SpecialForm.sequence.applied i forms) o
  | lambda {s e i j body} {names : List String} : names.Nodup →
      Evaluates s e (SpecialForm.lambda.applied i [.list j (names.map .sym), body])
        (.ok (.closure s.nextSerial names body e) { s with nextSerial := s.nextSerial + 1 })
  | apply {s e i args fn vs s₁ s₂ o} {head : Value} :
      (∀ kind : SpecialForm, head ≠ .sym kind.name) → Evaluates s e head (.ok fn s₁) →
      EvaluatesAll s₁ e args (.ok vs s₂) → Applies s₂ fn vs o →
      Evaluates s e (.list i (head :: args)) o
  | headFails {s e i args fault s₁} {head : Value} :
      (∀ kind : SpecialForm, head ≠ .sym kind.name) → Evaluates s e head (.error fault s₁) →
      Evaluates s e (.list i (head :: args)) (.error fault s₁)
  | argsFail {s e i args fn fault s₁ s₂} {head : Value} :
      (∀ kind : SpecialForm, head ≠ .sym kind.name) → Evaluates s e head (.ok fn s₁) →
      EvaluatesAll s₁ e args (.error fault s₂) →
      Evaluates s e (.list i (head :: args)) (.error fault s₂)

/-- Evaluating forms from left to right ends with all their values or at the first fault. -/
inductive EvaluatesAll : Store → FrameId → List Value → Outcome (List Value) → Prop where
  | nil {s e} : EvaluatesAll s e [] (.ok [] s)
  | cons {s e form rest v vs s₁ s₂} : Evaluates s e form (.ok v s₁) →
      EvaluatesAll s₁ e rest (.ok vs s₂) → EvaluatesAll s e (form :: rest) (.ok (v :: vs) s₂)
  | firstFails {s e form rest fault s₁} : Evaluates s e form (.error fault s₁) →
      EvaluatesAll s e (form :: rest) (.error fault s₁)
  | restFails {s e form rest v fault s₁ s₂} : Evaluates s e form (.ok v s₁) →
      EvaluatesAll s₁ e rest (.error fault s₂) →
      EvaluatesAll s e (form :: rest) (.error fault s₂)

/-- Binding names to the values of forms in turn, from position `n` of a `let*` on. -/
inductive Binds : Store → FrameId → Nat → List Value → Outcome Unit → Prop where
  | nil {s e n} : Binds s e n [] (.ok () s)
  | cons {s e n name form rest v s₁ u} : Evaluates s e form (.ok v s₁) →
      Binds (s₁.define e name v) e (n + 2) rest u →
      Binds s e n (.sym name :: form :: rest) u
  | fails {s e n name form rest fault s₁} : Evaluates s e form (.error fault s₁) →
      Binds s e n (.sym name :: form :: rest) (.error fault s₁)
  | notSymbol {s e n rest} {head : Value} : (∀ name, head ≠ .sym name) →
      Binds s e n (head :: rest)
        (.error (.error (.malformed .letStar (.bindingNotSymbol n))) s)

/-- Evaluating the forms of a `do`: the outcome is that of the last one, or `nil`. -/
inductive RunsThrough : Store → FrameId → List Value → Outcome Value → Prop where
  | nil {s e} : RunsThrough s e [] (.ok .nil s)
  | last {s e form o} : Evaluates s e form o → RunsThrough s e [form] o
  | cons {s e form next rest v s₁ o} : Evaluates s e form (.ok v s₁) →
      RunsThrough s₁ e (next :: rest) o → RunsThrough s e (form :: next :: rest) o
  | fails {s e form next rest fault s₁} : Evaluates s e form (.error fault s₁) →
      RunsThrough s e (form :: next :: rest) (.error fault s₁)

/-- Applying a value to evaluated arguments. -/
inductive Applies : Store → Value → List Value → Outcome Value → Prop where
  | builtin {s b vs o} : Settles (fun limits => b.call limits.depth vs) s o →
      Applies s (.builtin b) vs o
  | closure {s serial params body home vs o} : vs.length = params.length →
      Evaluates (s.addFrame home (Bindings.ofList (params.zip vs))) s.frames.size body o →
      Applies s (.closure serial params body home) vs o
  | wrongCount {s serial params body home vs} : vs.length ≠ params.length →
      Applies s (.closure serial params body home) vs
        (.error (.error (.arity "function" (.exactly params.length) vs.length)) s)
  | notFunction {s vs o} {fn : Value} : ¬ fn.IsFunction →
      Settles (fun limits => liftM (fn.print limits.depth) >>= fun shown =>
        Eval.fail (.notCallable shown)) s o →
      Applies s fn vs o

end

end TailLisp
