import TailLisp.Session

/-! # Traces — what happens in the course of an evaluation

    A store shows what an evaluation has come to, not what happened on the way.
    `Traced` computations note that as events: the forms that were taken up, the
    `def!`s that were completed and the calls of builtins, in order and also of
    evaluations that fail in the end.

    The evaluator is written once more for them, function by function.  Each
    comes with the equation that forgetting the events gives the evaluator itself
    (`eval_evaluate` and its like), so events are events of the runs that everything
    else is about. -/

namespace TailLisp

/-- What can happen in the course of an evaluation. -/
inductive Event where
  /-- A form is taken up in a frame. -/
  | entered (form : Value) (frame : FrameId)
  /-- A `def!` in a frame has its value and binds it. -/
  | defined (frame : FrameId) (name : String) (value : Value)
  /-- A builtin is called. -/
  | called (b : Builtin) (args : List Value)

/-- An evaluation, and the events that it causes from a given store on. -/
structure Traced (α : Type) where
  eval : Eval α
  events : Store → List Event

namespace Traced

variable {α β : Type}

/-- An evaluation none of whose events is noted. -/
def quiet (x : Eval α) : Traced α := ⟨x, fun _ => []⟩

/-- Notes an event. -/
def note (event : Event) : Traced Unit := ⟨pure (), fun _ => [event]⟩

/-- Goes on with the result; after a fault nothing more happens. -/
def andThen (x : Traced α) (f : α → Traced β) : Traced β where
  eval := x.eval >>= fun a => (f a).eval
  events s := x.events s ++
    match x.eval.run s with
    | .ok a s' => (f a).events s'
    | .error _ _ => []

instance : Monad Traced where
  pure a := quiet (pure a)
  bind := andThen

@[simp] theorem eval_quiet (x : Eval α) : (quiet x).eval = x := rfl

@[simp] theorem events_quiet (x : Eval α) (s : Store) : (quiet x).events s = [] := rfl

@[simp] theorem eval_note (event : Event) : (note event).eval = pure () := rfl

@[simp] theorem events_note (event : Event) (s : Store) : (note event).events s = [event] := rfl

@[simp] theorem eval_pure (a : α) : (pure a : Traced α).eval = pure a := rfl

@[simp] theorem events_pure (a : α) (s : Store) : (pure a : Traced α).events s = [] := rfl

@[simp] theorem eval_bind (x : Traced α) (f : α → Traced β) :
    (x >>= f).eval = x.eval >>= fun a => (f a).eval := rfl

/-- After a result, the events of the rest follow. -/
theorem events_bind_ok {x : Traced α} {s s' : Store} {a : α} (h : x.eval.run s = .ok a s')
    (f : α → Traced β) : (x >>= f).events s = x.events s ++ (f a).events s' := by
  show x.events s ++ _ = _
  rw [h]

/-- After a fault, nothing more happens. -/
theorem events_bind_error {x : Traced α} {s s' : Store} {fault : Fault}
    (h : x.eval.run s = .error fault s') (f : α → Traced β) :
    (x >>= f).events s = x.events s := by
  show x.events s ++ _ = _
  rw [h, List.append_nil]

/-! ## The evaluator with its events -/

/-- The evaluation of a form in a frame, with its events. -/
abbrev Evaluator := Value → FrameId → Traced Value

/-- The evaluator without its events. -/
def Evaluator.plain (nested : Evaluator) : Eval.Evaluator := fun form frame =>
  (nested form frame).eval

/-- Evaluates and binds the names and forms of a `let*` in turn. -/
def bindEach (nested : Evaluator) (frame : FrameId) (i : Nat) : List Value → Traced Unit
  | .sym name :: form :: rest => do
    let value ← nested form frame
    quiet (Eval.define frame name value)
    bindEach nested frame (i + 2) rest
  | [.sym _] => quiet (throw .outOfRange)
  | _ :: _ => quiet (Eval.malformed .letStar (.bindingNotSymbol i))
  | [] => pure ()

/-- Evaluates all forms but the last, which is left to do. -/
def sequence (nested : Evaluator) (frame : FrameId) : List Value → Traced Step
  | [] => return .value .nil
  | [last] => return .tail last frame
  | form :: next :: rest => do
    let _ ← nested form frame
    sequence nested frame (next :: rest)

/-- Evaluates forms from left to right. -/
def evaluateAll (nested : Evaluator) (frame : FrameId) : List Value → Traced (List Value)
  | [] => return []
  | form :: rest => do
    let value ← nested form frame
    return value :: (← evaluateAll nested frame rest)

/-- One step of a special form.  What evaluates no part of the form is as it is without
    events. -/
def special (nested : Evaluator) (kind : SpecialForm) (args : List Value) (frame : FrameId) :
    Traced Step :=
  match kind, args with
  | .define, [.sym name, expr] => do
    let value ← nested expr frame
    quiet (Eval.define frame name value)
    note (.defined frame name value)
    return .value value
  | .letStar, [.list serial bindings, body] =>
    if bindings.length % 2 ≠ 0 then
      quiet (Eval.special nested.plain .letStar [.list serial bindings, body] frame)
    else do
      let child ← quiet (Eval.newFrame frame [])
      bindEach nested child 0 bindings
      return .tail body child
  | .branch, [cond, yes] => do
    return .tail (if (← nested cond frame).isTruthy then yes else .nil) frame
  | .branch, [cond, yes, no] => do
    return .tail (if (← nested cond frame).isTruthy then yes else no) frame
  | .sequence, forms => sequence nested frame forms
  | kind, args => quiet (Eval.special nested.plain kind args frame)

/-- An `if` without a third form has the one for `nil` there. -/
theorem special_branch (nested : Evaluator) (frame : FrameId) (cond yes : Value)
    (no : Option Value) :
    special nested .branch (cond :: yes :: no.toList) frame =
      nested cond frame >>= fun v =>
        pure (.tail (if v.isTruthy then yes else no.getD .nil) frame) := by
  cases no <;> rfl

/-- Applies a value to evaluated arguments. -/
def apply (room : Nat) (head : Value) (args : List Value) : Traced Step :=
  match head with
  | .builtin b => do
    note (.called b args)
    quiet (Eval.apply room (.builtin b) args)
  | head => quiet (Eval.apply room head args)

/-- One step of the evaluation of a form in a frame. -/
def step (nested : Evaluator) (room : Nat) (form : Value) (frame : FrameId) : Traced Step := do
  note (.entered form frame)
  match form with
  | .list _ (head :: args) =>
    match Eval.step.specialForm? head with
    | some kind => special nested kind args frame
    | none => do
      let fn ← nested head frame
      let values ← evaluateAll nested frame args
      apply room fn values
  | form => quiet (Eval.step nested.plain room form frame)

/-- Repeats a step until it yields a value. -/
def follow (step : Value → FrameId → Traced Step) : Nat → Evaluator
  | 0, _, _ => quiet (throw .outOfFuel)
  | fuel + 1, form, frame => do
    match ← step form frame with
    | .value v => return v
    | .tail form frame => follow step fuel form frame

/-- Evaluates a form in a frame, with at most `depth` evaluations inside each other. -/
def evaluate (fuel : Nat) : Nat → Evaluator
  | 0, _, _ => quiet (throw .stackOverflow)
  | depth + 1, form, frame => follow (step (evaluate fuel depth) depth) fuel form frame

/-! ## Forgetting the events -/

variable (nested : Evaluator) (room : Nat) (frame : FrameId)

theorem eval_bindEach (i : Nat) (bindings : List Value) :
    (bindEach nested frame i bindings).eval = Eval.bindEach nested.plain frame i bindings := by
  fun_induction bindEach nested frame i bindings with
  | case1 i name form rest ih =>
      rw [eval_bind, Eval.bindEach]
      simp only [eval_bind, ih]
      rfl
  | case2 | case4 => rfl
  | case3 i head rest hpair hsingle =>
      rw [Eval.bindEach]
      · rfl
      · exact hpair
      · exact hsingle

theorem eval_sequence (forms : List Value) :
    (sequence nested frame forms).eval = Eval.sequence nested.plain frame forms := by
  fun_induction sequence nested frame forms with
  | case1 | case2 => rfl
  | case3 form next rest ih =>
      rw [eval_bind, ih]
      rfl

theorem eval_evaluateAll (forms : List Value) :
    (evaluateAll nested frame forms).eval = forms.mapM (nested.plain · frame) := by
  induction forms with
  | nil => rfl
  | cons form rest ih =>
      rw [evaluateAll, List.mapM_cons, eval_bind]
      simp only [eval_bind, ih]
      rfl

theorem eval_special (kind : SpecialForm) (args : List Value) :
    (special nested kind args frame).eval = Eval.special nested.plain kind args frame := by
  unfold special
  split
  case h_2 serial bindings body =>
    by_cases hodd : bindings.length % 2 ≠ 0
    · rw [if_pos hodd, eval_quiet]
    · rw [if_neg hodd, Eval.special, if_neg hodd]
      simp only [eval_bind, eval_bindEach]
      rfl
  case h_5 => exact eval_sequence nested frame args
  all_goals rfl

theorem eval_apply (head : Value) (args : List Value) :
    (apply room head args).eval = Eval.apply room head args := by
  cases head <;> rfl

theorem eval_step (form : Value) :
    (step nested room form frame).eval = Eval.step nested.plain room form frame := by
  unfold step
  rw [eval_bind, eval_note, pure_bind]
  split
  case h_1 serial head args =>
    rw [Eval.step]
    cases hkind : Eval.step.specialForm? head with
    | some kind => exact eval_special nested frame kind args
    | none =>
        simp only [eval_bind, eval_evaluateAll, eval_apply]
        rfl
  case h_2 => rfl

theorem eval_follow (step : Value → FrameId → Traced Step) (fuel : Nat) (form : Value) :
    (follow step fuel form frame).eval =
      Eval.follow (fun form frame => (step form frame).eval) fuel form frame := by
  induction fuel generalizing form frame with
  | zero => rfl
  | succ n ih =>
      rw [follow, Eval.follow, eval_bind]
      refine bind_congr fun next => ?_
      cases next with
      | value v => rfl
      | tail form frame => exact ih frame form

/-- Events apart, the evaluator with events is the evaluator. -/
theorem eval_evaluate (fuel depth : Nat) :
    (evaluate fuel depth).plain = Eval.evaluate fuel depth := by
  induction depth with
  | zero => rfl
  | succ n ih =>
      funext form frame
      show (follow _ fuel form frame).eval = _
      rw [eval_follow, Eval.evaluate, ← ih]
      simp only [eval_step]

/-! ## Programs and sessions -/

variable (limits : Limits)

/-- Evaluates one form in the root frame. -/
def evalForm (form : Value) : Traced Value :=
  evaluate limits.fuel limits.depth form Store.root

/-- Reads and evaluates the next form, if there is one. -/
def next (tokens : List Token) : Traced (Option (Value × List Token)) :=
  match Value.readForm limits.depth tokens with
  | (.error fault, _) => quiet (throw fault)
  | (.ok none, _) => return none
  | (.ok (some form), rest) => do return some (← evalForm limits form, rest)

/-- Reads and evaluates all forms, handing each value to `visit`. -/
def fold (visit : α → Value → Eval α) (start : α) (tokens : List Token) : Traced α :=
  match _h : Value.readForm limits.depth tokens with
  | (.error fault, _) => quiet (throw fault)
  | (.ok none, _) => return start
  | (.ok (some form), rest) => do
    let value ← evalForm limits form
    fold visit (← quiet (visit start value)) rest
termination_by tokens.length
decreasing_by exact Value.readForm_rest_length_lt _h

theorem eval_evalForm (form : Value) :
    (evalForm limits form).eval = Program.evalForm limits form :=
  congrFun (congrFun (eval_evaluate limits.fuel limits.depth) form) Store.root

theorem eval_next (tokens : List Token) :
    (next limits tokens).eval = Program.next limits tokens := by
  rcases hread : Value.readForm limits.depth tokens with ⟨fault | form?, rest⟩
  · simp only [next, Program.next, hread, eval_quiet]
  · cases form? with
    | none =>
        simp only [next, Program.next, hread]
        rfl
    | some form =>
        simp only [next, Program.next, hread, eval_bind, eval_evalForm]
        rfl

section Fold

variable {limits : Limits} {tokens rest : List Token} (visit : α → Value → Eval α) (start : α)

theorem fold_of_error {fault : Fault}
    (h : Value.readForm limits.depth tokens = (.error fault, rest)) :
    fold limits visit start tokens = quiet (throw fault) := by
  rw [fold]
  split <;> simp_all

theorem fold_of_none (h : Value.readForm limits.depth tokens = (.ok none, rest)) :
    fold limits visit start tokens = pure start := by
  rw [fold]
  split <;> simp_all

theorem fold_of_some {form : Value}
    (h : Value.readForm limits.depth tokens = (.ok (some form), rest)) :
    fold limits visit start tokens =
      evalForm limits form >>= fun value =>
        quiet (visit start value) >>= fun next => fold limits visit next rest := by
  rw [fold]
  split <;> simp_all

end Fold

theorem eval_fold (visit : α → Value → Eval α) (start : α) (tokens : List Token) :
    (fold limits visit start tokens).eval = Program.fold limits visit start tokens := by
  induction tokens using Value.readForm_induct limits.depth generalizing start with
  | failed tokens fault rest hread =>
      rw [fold_of_error visit start hread, Program.fold_of_error visit start hread, eval_quiet]
  | ended tokens rest hread =>
      rw [fold_of_none visit start hread, Program.fold_of_none visit start hread, eval_pure]
  | form tokens form rest hread ih =>
      rw [fold_of_some visit start hread, Program.fold_of_some visit start hread, eval_bind,
        eval_evalForm]
      exact bind_congr fun value => bind_congr ih

/-- Evaluates all forms of a text for their effect. -/
def load (source : String) : Traced Unit :=
  fold limits (fun _ _ => return ()) () (Token.lex source)

theorem eval_load (source : String) : (load limits source).eval = Program.load limits source :=
  eval_fold limits _ _ _

end Traced

namespace Session

/-- The events of a prelude, if there is one. -/
def startEvents (limits : Limits) : Option String → List Event
  | none => []
  | some source => (Traced.load limits source).events .initial

/-- The events of one request. -/
def events (limits : Limits) (s : Session) : Request → List Event
  | .eval source =>
    (Traced.fold limits (fun _ value => return value) Value.nil (Token.lex source)).events s.store
  | .rep source =>
    (Traced.fold limits (fun _ value => do return some (← value.print limits.depth)) none
      (Token.lex source)).events s.store
  | .openText _ => []
  | .next text => (Traced.next limits (s.texts[text]?.getD [])).events s.store

/-- The events of requests answered in turn. -/
def eventsAll (limits : Limits) (s : Session) : List Request → List Event
  | [] => []
  | request :: rest =>
    s.events limits request ++ eventsAll limits (s.answer limits request).2 rest

end Session

end TailLisp
