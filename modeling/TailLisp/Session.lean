import TailLisp.Program

/-! # Sessions — requests answered one after another on one store

    Besides texts evaluated at once, a session keeps opened texts whose forms
    are asked for one at a time.  An opened text is what is left of its tokens;
    after its end, or after a failure, nothing is left of it. -/

namespace TailLisp

/-- What can be asked of a session. -/
inductive Request where
  | eval (source : String)
  | rep (source : String)
  | openText (source : String)
  | next (text : Nat)

/-- What a session answers. -/
inductive Reply where
  | value (v : Value)
  | printed (text : Option String)
  | opened (text : Nat)
  | done
  | failed (fault : Fault)

instance (reply : Reply) (fault : Fault) : Decidable (reply = .failed fault) :=
  match reply with
  | .failed other => decidable_of_iff (other = fault) ⟨congrArg Reply.failed, Reply.failed.inj⟩
  | .value _ | .printed _ | .opened _ | .done => isFalse Reply.noConfusion

/-- A store and the opened texts. -/
structure Session where
  store : Store
  texts : Array (List Token)

namespace Session

/-- A session on a store, with no text opened. -/
def ofStore (store : Store) : Session := ⟨store, #[]⟩

/-- A session on the store of a fresh interpreter, in which a prelude, if there is one, has
    been evaluated. -/
def start (limits : Limits) (prelude : Option String) : Session :=
  .ofStore <| match prelude with
    | none => .initial
    | some source => (Program.load limits source).after .initial

/-- Carries out an evaluation and says what to reply. -/
def carryOut {α : Type} (s : Session) (x : Eval α) (reply : α → Reply) : Reply × Session :=
  match x.run s.store with
  | .ok a store => (reply a, { s with store })
  | .error fault store => (.failed fault, { s with store })

/-- Evaluates the next form of an opened text. -/
def advance (limits : Limits) (s : Session) (text : Nat) : Reply × Session :=
  match (Program.next limits (s.texts[text]?.getD [])).run s.store with
  | .ok (some (v, rest)) store => (.value v, ⟨store, s.texts.setIfInBounds text rest⟩)
  | .ok none store => (.done, ⟨store, s.texts.setIfInBounds text []⟩)
  | .error fault store => (.failed fault, ⟨store, s.texts.setIfInBounds text []⟩)

/-- Answers one request. -/
def answer (limits : Limits) (s : Session) : Request → Reply × Session
  | .eval source => s.carryOut (Program.eval limits source) .value
  | .rep source => s.carryOut (Program.rep limits source) .printed
  | .openText source =>
    (.opened s.texts.size, { s with texts := s.texts.push (Token.lex source) })
  | .next text => s.advance limits text

/-- What a request printed, given the sessions before and after it. -/
def outputBetween (before after : Session) : String :=
  after.store.outputFrom before.store.printed.size

/-- Answers requests in turn, each with what it printed. -/
def answerAll (limits : Limits) (s : Session) : List Request → List (Reply × String) × Session
  | [] => ([], s)
  | request :: rest =>
    let (reply, after) := s.answer limits request
    let (replies, last) := answerAll limits after rest
    ((reply, outputBetween s after) :: replies, last)

/-- The store that is left behind by what is carried out. -/
theorem store_carryOut {α : Type} (s : Session) (x : Eval α) (reply : α → Reply) :
    (s.carryOut x reply).2.store = x.after s.store := by
  rw [carryOut, Eval.after]
  cases x.run s.store <;> rfl

variable (limits : Limits)

theorem length_answerAll (s : Session) (requests : List Request) :
    (s.answerAll limits requests).1.length = requests.length := by
  induction requests generalizing s with
  | nil => rfl
  | cons request rest ih => exact congrArg Nat.succ (ih _)

/-- Requests are answered in turn. -/
theorem answerAll_append (s : Session) (requests others : List Request) :
    (s.answerAll limits (requests ++ others)).1 =
      (s.answerAll limits requests).1 ++
        ((s.answerAll limits requests).2.answerAll limits others).1 := by
  induction requests generalizing s with
  | nil => rfl
  | cons request rest ih => exact congrArg (List.cons _) (ih _)

end Session

end TailLisp
