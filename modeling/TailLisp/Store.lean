import TailLisp.Frame
import TailLisp.Value.Printer

/-! # Store — everything that evaluation can change

    Frames are only ever added, and are known by their position; the root is the
    first.  The store also counts the serial numbers it has given out and keeps
    what was printed, value by value.

    The chain of a frame is the frame itself and the frames around it.  It
    follows outer links only to older frames, which are the only ones that
    evaluation makes. -/

namespace TailLisp

/-- The frames, the next unused serial number and the printed values. -/
structure Store where
  frames : Array Frame
  nextSerial : Serial
  printed : Array Value

namespace Store

/-- The frame of a program's own definitions. -/
def root : FrameId := 0

/-- A root frame with the given bindings, and nothing else. -/
def ofBindings (bindings : Bindings) : Store where
  frames := #[⟨none, bindings⟩]
  nextSerial := 0
  printed := #[]

/-- The builtins under their names. -/
def builtinBindings : Bindings :=
  Builtin.table.map fun b => (b.name, .builtin b)

/-- A root frame that binds the builtins. -/
def initial : Store := ofBindings builtinBindings

/-! ## Looking up -/

/-- The frame around a frame. -/
def outer? (s : Store) (f : FrameId) : Option FrameId :=
  (s.frames[f]?).bind (·.outer)

/-- The bindings of a frame itself. -/
def bindings (s : Store) (f : FrameId) : Bindings :=
  (s.frames[f]?).elim [] (·.bindings)

/-- A frame and the frames around it, innermost first. -/
def chain (s : Store) (f : FrameId) : List FrameId :=
  match s.outer? f with
  | some o => if o < f then f :: chain s o else [f]
  | none => [f]
termination_by f

/-- Whether a frame itself binds a name. -/
def binds (s : Store) (name : String) (f : FrameId) : Bool :=
  ((s.bindings f).get? name).isSome

/-- The innermost frame of the chain that binds a name. -/
def find? (s : Store) (f : FrameId) (name : String) : Option FrameId :=
  (s.chain f).find? (s.binds name)

/-- The value of a name as seen from a frame. -/
def lookup? (s : Store) (f : FrameId) (name : String) : Option Value :=
  (s.chain f).findSome? fun g => (s.bindings g).get? name

/-- The last frame of the chain. -/
def rootOf (s : Store) (f : FrameId) : FrameId :=
  (s.chain f).getLastD f

/-! ## Changing -/

/-- Binds a name in a frame itself, whatever the frames around it bind. -/
def define (s : Store) (f : FrameId) (name : String) (value : Value) : Store :=
  { s with frames := s.frames.modify f fun frame =>
      { frame with bindings := frame.bindings.set name value } }

/-- Adds a frame inside `outer`; it is the frame numbered by the former size. -/
def addFrame (s : Store) (outer : FrameId) (bindings : Bindings) : Store :=
  { s with frames := s.frames.push ⟨some outer, bindings⟩ }

/-- Notes that a value was printed. -/
def record (s : Store) (v : Value) : Store :=
  { s with printed := s.printed.push v }

@[simp] theorem size_define (s : Store) (f : FrameId) (name : String) (v : Value) :
    (s.define f name v).frames.size = s.frames.size := by
  simp [define]

@[simp] theorem outer?_define (s : Store) (f g : FrameId) (name : String) (v : Value) :
    (s.define f name v).outer? g = s.outer? g := by
  unfold outer? define
  rw [Array.getElem?_modify]
  split
  · cases s.frames[g]? <;> rfl
  · rfl

/-- Defining a name leaves all other frames alone. -/
theorem bindings_define_of_ne (s : Store) {f g : FrameId} (h : f ≠ g) (name : String) (v : Value) :
    (s.define f name v).bindings g = s.bindings g := by
  simp [bindings, define, Array.getElem?_modify, h]

/-- A frame that exists has the new binding. -/
theorem bindings_define_self (s : Store) {f : FrameId} (h : f < s.frames.size) (name : String)
    (v : Value) : (s.define f name v).bindings f = (s.bindings f).set name v := by
  simp [bindings, define, Array.getElem?_modify, Array.getElem?_eq_getElem h]

@[simp] theorem size_addFrame (s : Store) (o : FrameId) (bindings : Bindings) :
    (s.addFrame o bindings).frames.size = s.frames.size + 1 := by
  simp [addFrame]

theorem lt_size_addFrame (s : Store) (o : FrameId) (bindings : Bindings) :
    s.frames.size < (s.addFrame o bindings).frames.size := by
  rw [size_addFrame]
  exact Nat.lt_succ_self _

/-- Adding a frame leaves the older ones alone. -/
theorem frame_addFrame_of_lt (s : Store) {f : FrameId} (h : f < s.frames.size) (o : FrameId)
    (bindings : Bindings) : (s.addFrame o bindings).frames[f]? = s.frames[f]? := by
  simp [addFrame, Array.getElem?_push, Nat.ne_of_lt h]

/-- The added frame is the last one. -/
theorem frame_addFrame_self (s : Store) (o : FrameId) (bindings : Bindings) :
    (s.addFrame o bindings).frames[s.frames.size]? = some ⟨some o, bindings⟩ := by
  simp [addFrame]

theorem outer?_addFrame_of_lt (s : Store) {f : FrameId} (h : f < s.frames.size) (o : FrameId)
    (bindings : Bindings) : (s.addFrame o bindings).outer? f = s.outer? f := by
  rw [outer?, frame_addFrame_of_lt s h, outer?]

@[simp] theorem outer?_addFrame_self (s : Store) (o : FrameId) (bindings : Bindings) :
    (s.addFrame o bindings).outer? s.frames.size = some o := by
  rw [outer?, frame_addFrame_self]
  rfl

theorem bindings_addFrame_of_lt (s : Store) {f : FrameId} (h : f < s.frames.size) (o : FrameId)
    (bindings : Bindings) : (s.addFrame o bindings).bindings f = s.bindings f := by
  rw [Store.bindings, frame_addFrame_of_lt s h, Store.bindings]

@[simp] theorem bindings_addFrame_self (s : Store) (o : FrameId) (bindings : Bindings) :
    (s.addFrame o bindings).bindings s.frames.size = bindings := by
  rw [Store.bindings, frame_addFrame_self]
  rfl

/-- A frame that does not exist binds nothing. -/
theorem bindings_of_size_le (s : Store) {f : FrameId} (h : s.frames.size ≤ f) :
    s.bindings f = [] := by
  rw [bindings, Array.getElem?_eq_none h]
  rfl

/-- A fresh root frame binds the builtins, and there is no other frame. -/
theorem mem_bindings_initial {f : FrameId} {entry : String × Value}
    (h : entry ∈ initial.bindings f) : ∃ b ∈ Builtin.table, entry = (b.name, .builtin b) := by
  by_cases hf : f = root
  · subst hf
    obtain ⟨b, hb, rfl⟩ := List.mem_map.mp h
    exact ⟨b, hb, rfl⟩
  · have hsize : initial.frames.size ≤ f := Nat.one_le_iff_ne_zero.mpr hf
    rw [bindings_of_size_le _ hsize] at h
    exact nomatch h

/-! ## Output -/

/-- The line that a printed value makes. -/
def lineOf (v : Value) : String :=
  v.text .readable ++ "\n"

/-- The text of what was printed after the first `start` values. -/
def outputFrom (s : Store) (start : Nat) : String :=
  String.join ((s.printed.toList.drop start).map lineOf)

/-- The text of everything that was printed. -/
def output (s : Store) : String := s.outputFrom 0

end Store

end TailLisp
