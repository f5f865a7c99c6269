import TailLisp.Builtin.Call

/-! # Steps — one form, up to the next form in its place

    A step evaluates a form to a value, or to another form and frame whose value
    is the value of the whole: the body of a `let*`, the chosen branch of an
    `if`, the last form of a `do`, the body of a called closure.

    What a step needs on the way, conditions, bound values, heads and arguments,
    is evaluated by `nested`, which is a parameter here.  The builtins that
    a step calls and the values that it prints may use `room` levels. -/

namespace TailLisp

/-- The outcome of a step. -/
inductive Step where
  | value (v : Value)
  | tail (form : Value) (frame : FrameId)

namespace Eval

/-- The evaluation of a form in a frame. -/
abbrev Evaluator := Value → FrameId → Eval Value

/-! ## Special forms -/

/-- Fails because of the arguments of a special form. -/
def malformed {α : Type} (kind : SpecialForm) (defect : Defect) : Eval α :=
  fail (.malformed kind defect)

/-- Evaluates and binds the names and forms of a `let*` in turn, from position `i` on. -/
def bindEach (nested : Evaluator) (frame : FrameId) (i : Nat) : List Value → Eval Unit
  | .sym name :: form :: rest => do
    define frame name (← nested form frame)
    bindEach nested frame (i + 2) rest
  | [.sym _] => throw .outOfRange
  | _ :: _ => malformed .letStar (.bindingNotSymbol i)
  | [] => return ()

/-- Evaluates all forms but the last, which is left to do. -/
def sequence (nested : Evaluator) (frame : FrameId) : List Value → Eval Step
  | [] => return .value .nil
  | [last] => return .tail last frame
  | form :: next :: rest => do
    let _ ← nested form frame
    sequence nested frame (next :: rest)

/-- The names of the parameters from position `i` on, behind those already `seen`. -/
def parameterNames (i : Nat) (seen : List String) : List Value → Except Defect (List String)
  | [] => .ok seen
  | .sym name :: rest =>
    if name ∈ seen then .error (.duplicateParameter name)
    else parameterNames (i + 1) (seen ++ [name]) rest
  | _ :: _ => .error (.parameterNotSymbol i)

/-- A closure over a frame, made from the parameters and the body of a `fn*`. -/
def makeClosure (params body : Value) (frame : FrameId) : Eval Value :=
  match params with
  | .list _ params =>
    match parameterNames 0 [] params with
    | .ok names => do return .closure (← newSerial) names body frame
    | .error defect => malformed .lambda defect
  | _ => malformed .lambda .firstNotList

/-- One step of a special form, given its unevaluated arguments. -/
def special (nested : Evaluator) (kind : SpecialForm) (args : List Value) (frame : FrameId) :
    Eval Step :=
  match kind, args with
  | .define, [.sym name, expr] => do
    let value ← nested expr frame
    define frame name value
    return .value value
  | .define, [_, _] => malformed .define .firstNotSymbol
  | .letStar, [.list _ bindings, body] =>
    if bindings.length % 2 ≠ 0 then malformed .letStar .oddBindings
    else do
      let child ← newFrame frame []
      bindEach nested child 0 bindings
      return .tail body child
  | .letStar, [_, _] => malformed .letStar .firstNotList
  | .branch, [cond, yes] => do
    return .tail (if (← nested cond frame).isTruthy then yes else .nil) frame
  | .branch, [cond, yes, no] => do
    return .tail (if (← nested cond frame).isTruthy then yes else no) frame
  | .sequence, forms => sequence nested frame forms
  | .lambda, [params, body] => do return .value (← makeClosure params body frame)
  | kind, args => fail (.arity kind.name kind.arity args.length)

/-! ## Application -/

/-- A new frame, inside the home of a closure, that binds its parameters. -/
def enter (params : List String) (home : FrameId) (args : List Value) : Eval FrameId :=
  if args.length = params.length then newFrame home (Bindings.ofList (params.zip args))
  else fail (.arity "function" (.exactly params.length) args.length)

/-- Applies a value to evaluated arguments. -/
def apply (room : Nat) (head : Value) (args : List Value) : Eval Step :=
  match head with
  | .builtin b => do return .value (← b.call room args)
  | .closure _ params body home => do return .tail body (← enter params home args)
  | head => do fail (.notCallable (← head.print room))

/-- One step of the evaluation of a form in a frame. -/
def step (nested : Evaluator) (room : Nat) (form : Value) (frame : FrameId) : Eval Step :=
  match form with
  | .sym name => do return .value (← lookup frame name)
  | .list _ (head :: args) =>
    match specialForm? head with
    | some kind => special nested kind args frame
    | none => do
      let fn ← nested head frame
      let values ← args.mapM (nested · frame)
      apply room fn values
  | form => return .value form
where
  /-- The special form that an unevaluated head stands for. -/
  specialForm? : Value → Option SpecialForm
    | .sym name => SpecialForm.ofName? name
    | _ => none

@[simp] theorem specialForm?_name (kind : SpecialForm) :
    step.specialForm? (.sym kind.name) = some kind := by
  cases kind <;> rfl

/-- Only the names of special forms stand for one. -/
theorem eq_name_of_specialForm? {head : Value} {kind : SpecialForm}
    (h : step.specialForm? head = some kind) : head = .sym kind.name := by
  cases head with
  | sym name =>
    simp only [step.specialForm?, SpecialForm.ofName?] at h
    split at h <;> simp_all [SpecialForm.name] <;> subst h <;> rfl
  | _ => simp [step.specialForm?] at h

theorem ne_name_of_specialForm?_eq_none {head : Value} (h : step.specialForm? head = none)
    (kind : SpecialForm) : head ≠ .sym kind.name := by
  rintro rfl
  rw [specialForm?_name] at h
  exact nomatch h

theorem specialForm?_eq_none {head : Value} (h : ∀ kind : SpecialForm, head ≠ .sym kind.name) :
    step.specialForm? head = none := by
  cases hk : step.specialForm? head with
  | none => rfl
  | some kind => exact absurd (eq_name_of_specialForm? hk) (h kind)

end Eval

end TailLisp
