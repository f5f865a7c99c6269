import TailLisp.Store
import TailLisp.Value.Inspect

/-! # Evaluations — computations on a store that may fail

    A failing evaluation keeps the store as it was when it failed: what was
    defined and printed before stays. -/

namespace TailLisp

/-- A computation that reads and changes the store and ends in a value or a fault. -/
abbrev Eval := EStateM Fault Store

namespace Eval

/-- What neither reads nor changes the store. -/
def ofExcept {α : Type} : Except Fault α → Eval α
  | .ok a => pure a
  | .error fault => throw fault

instance : MonadLift (Except Fault) Eval := ⟨ofExcept⟩

/-- Fails with an error of the language. -/
def fail {α : Type} (cause : LispError) : Eval α :=
  throw (.error cause)

/-- The value of a name as seen from a frame. -/
def lookup (frame : FrameId) (name : String) : Eval Value := do
  match (← get).lookup? frame name with
  | some value => return value
  | none => fail (.unbound name)

/-- Binds a name in a frame itself. -/
def define (frame : FrameId) (name : String) (value : Value) : Eval Unit :=
  modify (·.define frame name value)

/-- Adds a frame with the given bindings inside another. -/
def newFrame (outer : FrameId) (bindings : Bindings) : Eval FrameId :=
  modifyGet fun s => (s.frames.size, s.addFrame outer bindings)

/-- A serial number that nothing carries yet. -/
def newSerial : Eval Serial :=
  modifyGet fun s => (s.nextSerial, { s with nextSerial := s.nextSerial + 1 })

/-- Binds a value in a frame under a name that is itself given as a value. -/
def defineAs (room : Nat) (frame : FrameId) (name value : Value) : Eval Unit :=
  match name with
  | .sym name => define frame name value
  | name => do fail (.invalidSymbol (← name.inspect room))

/-- Gives each name its last value, in the place of its first. -/
def lastValues (pairs : List (Value × Value)) : List (Value × Value) :=
  pairs.foldl put []
where
  /-- Puts a value in the place of its name, or at the end. -/
  put (done : List (Value × Value)) (entry : Value × Value) : List (Value × Value) :=
    if done.any (·.1 = entry.1) then
      done.map fun old => if old.1 = entry.1 then entry else old
    else done ++ [entry]

/-- Binds several values in a frame, one name after another and each name once. -/
def defineAll (room : Nat) (frame : FrameId) (pairs : List (Value × Value)) : Eval Unit :=
  (lastValues pairs).forM fun (name, value) => defineAs room frame name value

/-- The store that a computation leaves, whether it fails or not. -/
def after {α : Type} (x : Eval α) (s : Store) : Store :=
  match x.run s with
  | .ok _ s' => s'
  | .error _ s' => s'

/-! ## Running the primitives -/

variable {α : Type} (s : Store)

theorem after_of_ok {x : Eval α} {a : α} {s s' : Store} (h : x.run s = .ok a s') :
    x.after s = s' := by
  simp [after, h]

theorem after_of_error {x : Eval α} {fault : Fault} {s s' : Store} (h : x.run s = .error fault s') :
    x.after s = s' := by
  simp [after, h]

@[simp] theorem run_throw (fault : Fault) : (throw fault : Eval α).run s = .error fault s := rfl

@[simp] theorem run_fail (cause : LispError) :
    (fail cause : Eval α).run s = .error (.error cause) s := rfl

@[simp] theorem run_lift_ok (a : α) : (liftM (.ok a : Except Fault α) : Eval α).run s = .ok a s :=
  rfl

@[simp] theorem run_lift_error (fault : Fault) :
    (liftM (.error fault : Except Fault α) : Eval α).run s = .error fault s := rfl

@[simp] theorem run_define (frame : FrameId) (name : String) (value : Value) :
    (define frame name value).run s = .ok () (s.define frame name value) := rfl

@[simp] theorem run_newFrame (outer : FrameId) (bindings : Bindings) :
    (newFrame outer bindings).run s = .ok s.frames.size (s.addFrame outer bindings) := rfl

@[simp] theorem run_newSerial :
    newSerial.run s = .ok s.nextSerial { s with nextSerial := s.nextSerial + 1 } := rfl

theorem run_lookup_some {frame : FrameId} {name : String} {v : Value}
    (h : s.lookup? frame name = some v) : (lookup frame name).run s = .ok v s := by
  simp [lookup, h]

theorem run_lookup_none {frame : FrameId} {name : String} (h : s.lookup? frame name = none) :
    (lookup frame name).run s = .error (.error (.unbound name)) s := by
  simp [lookup, h]

end Eval

end TailLisp
