import TailLisp.Value.Reader

/-! # Token streams — reading form by form with one token of sight

    A stream is what is left of a list of tokens, and a buffer in front of it.
    Looking ahead fetches a token into the buffer if it is empty, without
    consuming it; every other operation consumes from the front, and after a
    failure the stream goes on behind the token that failed.  So the buffer never
    comes to hold more than one token.

    Forms are read by descent.  A list looks ahead for its closing token and, as
    long as there is another one, reads it as an item in the way in which a form is
    read, one level deeper. -/

namespace TailLisp

/-- The tokens still to be consumed: first those that were already fetched, then the rest. -/
structure TokenStream where
  buffer : List Token
  rest : List Token
deriving DecidableEq

/-- What a stream gives form by form: the forms, and the fault that came instead of a
    further one, if it was not the end that came. -/
structure Harvest where
  forms : List Value
  stopped : Option Fault
deriving DecidableEq

/-- All forms, if there are no others that could not be read. -/
def Harvest.all (found : Harvest) : Except Fault (List Value) :=
  match found.stopped with
  | some fault => .error fault
  | none => .ok found.forms

/-- One form more in front. -/
def Harvest.cons (form : Value) (found : Harvest) : Harvest :=
  ⟨form :: found.forms, found.stopped⟩

namespace TokenStream

/-- A stream of the given tokens. -/
def ofList (tokens : List Token) : TokenStream := ⟨[], tokens⟩

/-- The tokens that have not been consumed. -/
def toList (s : TokenStream) : List Token := s.buffer ++ s.rest

/-- How many tokens have not been consumed. -/
def size (s : TokenStream) : Nat := s.toList.length

@[simp] theorem toList_ofList (tokens : List Token) : (ofList tokens).toList = tokens := rfl

/-! ## One token -/

/-- The next token, if there is one, which stays unconsumed. -/
def peek (s : TokenStream) : Option Token × TokenStream :=
  match s.buffer, s.rest with
  | token :: _, _ => (some token, s)
  | [], [] => (none, s)
  | [], token :: rest => (some token, ⟨[token], rest⟩)

/-- Consumes the next token, if there is one. -/
def advance (s : TokenStream) : Option Token × TokenStream :=
  match s.buffer, s.rest with
  | token :: buffer, rest => (some token, ⟨buffer, rest⟩)
  | [], [] => (none, s)
  | [], token :: rest => (some token, ⟨[], rest⟩)

@[simp] theorem peek_toList (s : TokenStream) : s.peek.2.toList = s.toList := by
  unfold peek
  split <;> simp_all [toList]

theorem peek_fst (s : TokenStream) : s.peek.1 = s.toList.head? := by
  unfold peek
  split <;> simp_all [toList]

theorem advance_fst (s : TokenStream) : s.advance.1 = s.toList.head? := by
  unfold advance
  split <;> simp_all [toList]

@[simp] theorem advance_toList (s : TokenStream) : s.advance.2.toList = s.toList.tail := by
  unfold advance
  split <;> simp_all [toList]

@[simp] theorem size_peek (s : TokenStream) : s.peek.2.size = s.size :=
  congrArg List.length s.peek_toList

@[simp] theorem size_advance (s : TokenStream) : s.advance.2.size = s.size - 1 := by
  rw [size, advance_toList, List.length_tail, size]

theorem size_pos_of_head? {s : TokenStream} {token : Token} (h : s.toList.head? = some token) :
    0 < s.size :=
  List.length_pos_of_mem (List.mem_of_mem_head? h)

/-! ## The buffer -/

theorem length_buffer_ofList (tokens : List Token) : (ofList tokens).buffer.length ≤ 1 :=
  Nat.zero_le 1

/-- Looking ahead fetches a token only if none is fetched. -/
theorem length_buffer_peek_le {s : TokenStream} (h : s.buffer.length ≤ 1) :
    s.peek.2.buffer.length ≤ 1 := by
  unfold peek
  split
  · exact h
  · exact h
  · exact Nat.le_refl 1

/-- A fetched token is consumed before any other, and none is fetched for it. -/
theorem buffer_advance (s : TokenStream) : s.advance.2.buffer = s.buffer.tail := by
  unfold advance
  split <;> simp_all

theorem length_buffer_advance_le {s : TokenStream} (h : s.buffer.length ≤ 1) :
    s.advance.2.buffer.length ≤ 1 := by
  rw [buffer_advance, List.length_tail]
  exact Nat.le_trans (Nat.sub_le _ _) h

/-- Either no token is fetched, or the next one is. -/
theorem eq_ofList_or_fetched {s : TokenStream} (h : s.buffer.length ≤ 1) :
    (∃ rest, s = ofList rest) ∨ ∃ token rest, s = ⟨[token], rest⟩ := by
  obtain ⟨buffer, rest⟩ := s
  match buffer with
  | [] => exact .inl ⟨rest, rfl⟩
  | [token] => exact .inr ⟨token, rest, rfl⟩
  | _ :: _ :: _ => exact absurd (Nat.le_of_succ_le_succ h) (Nat.not_succ_le_zero _)

/-- After a token was consumed, none is fetched. -/
theorem advance_snd {s : TokenStream} (h : s.buffer.length ≤ 1) :
    s.advance.2 = ofList s.toList.tail := by
  rcases eq_ofList_or_fetched h with ⟨rest, rfl⟩ | ⟨token, rest, rfl⟩
  · cases rest <;> rfl
  · rfl

/-- After looking ahead, the next token is fetched. -/
theorem peek_snd {s : TokenStream} (h : s.buffer.length ≤ 1) :
    s.peek.2 = ⟨s.toList.take 1, s.toList.drop 1⟩ := by
  rcases eq_ofList_or_fetched h with ⟨rest, rfl⟩ | ⟨token, rest, rfl⟩
  · cases rest <;> rfl
  · rfl

/-! ## Forms -/

/-- The streams that are left behind at least `n` tokens of a stream, if it has so many. -/
abbrev Behind (n : Nat) (s : TokenStream) := { rest : TokenStream // rest.size ≤ s.size - n }

/-- The stream behind the next token. -/
def behindNext (s : TokenStream) : Behind 1 s := ⟨s.advance.2, Nat.le_of_eq s.size_advance⟩

section Behind

variable {n : Nat} {s : TokenStream} {token : Token}

/-- Looking ahead makes no difference to what is left later. -/
theorem Behind.size_le (rest : Behind n s.peek.2) : rest.1.size ≤ s.size :=
  Nat.le_trans rest.2 (Nat.le_trans (Nat.sub_le _ _) (Nat.le_of_eq s.size_peek))

/-- If there was a token, less is left behind it. -/
theorem Behind.size_lt (rest : Behind 1 s.peek.2) (h : s.peek.1 = some token) :
    rest.1.size < s.size := by
  have hpos := size_pos_of_head? (s.peek_fst.symm.trans h)
  calc rest.1.size ≤ s.peek.2.size - 1 := rest.2
    _ = s.size - 1 := by rw [size_peek]
    _ < s.size := Nat.sub_one_lt_of_lt hpos

end Behind

mutual

/-- Consumes one form, if there is a token left, with `room` levels of lists. -/
def readForm (room : Nat) (s : TokenStream) : Except Fault (Option Value) × Behind 1 s :=
  match _hnext : s.advance.1 with
  | none => (.ok none, s.behindNext)
  | some token =>
    match token.role with
    | .error fault => (.error fault, s.behindNext)
    | .ok (.atom value) => (.ok (some value), s.behindNext)
    | .ok .closes => (.error (.unreadable .unexpectedClose), s.behindNext)
    | .ok .opens =>
      match room with
      | 0 => (.error .stackOverflow, s.behindNext)
      | room + 1 =>
        let (list, rest) := readItems room [] s.advance.2
        (list.map some, ⟨rest.1, Nat.le_trans rest.2 (Nat.le_of_eq s.size_advance)⟩)
termination_by (s.size, 0)
decreasing_by
  have hpos := size_pos_of_head? (s.advance_fst.symm.trans _hnext)
  rw [size_advance]
  exact Prod.Lex.left _ _ (Nat.sub_one_lt_of_lt hpos)

/-- Consumes the items of a list and its closing token, given the items so far in reverse. -/
def readItems (room : Nat) (done : List Value) (s : TokenStream) :
    Except Fault Value × Behind 0 s :=
  match _hnext : s.peek.1 with
  | none => (.error (.unreadable .unclosedList), ⟨s.peek.2, Nat.le_of_eq s.size_peek⟩)
  | some token =>
    if token.kind = .closing then
      (.ok (.list none done.reverse), ⟨s.peek.2.advance.2, by simp⟩)
    else
      match readForm room s.peek.2 with
      | (.error fault, rest) => (.error fault, ⟨rest.1, rest.size_le⟩)
      -- A token is left, so this does not come up.
      | (.ok none, rest) => (.error (.unreadable .unclosedList), ⟨rest.1, rest.size_le⟩)
      | (.ok (some item), rest) =>
        let (list, last) := readItems room (item :: done) rest.1
        (list, ⟨last.1, Nat.le_trans last.2 rest.size_le⟩)
termination_by (s.size, 1)
decreasing_by
  · rw [size_peek]
    exact Prod.Lex.right _ Nat.zero_lt_one
  · exact Prod.Lex.left _ _ (rest.size_lt _hnext)

end

/-- Consumes forms for as long as there is a token ahead, or up to the first form that cannot
    be read. -/
def harvest (room : Nat) (s : TokenStream) : Harvest × TokenStream :=
  match _hnext : s.peek.1 with
  | none => (⟨[], none⟩, s.peek.2)
  | some _ =>
    match s.peek.2.readForm room with
    | (.error fault, rest) => (⟨[], some fault⟩, rest.1)
    -- A token is left, so this does not come up.
    | (.ok none, rest) => (⟨[], none⟩, rest.1)
    | (.ok (some form), rest) =>
      let (found, last) := harvest room rest.1
      (found.cons form, last)
termination_by s.size
decreasing_by exact rest.size_lt _hnext

/-- Consumes all forms up to the end or the first that cannot be read. -/
def readForms (room : Nat) (s : TokenStream) : Except Fault (List Value) × TokenStream :=
  let (found, last) := s.harvest room
  (found.all, last)

end TokenStream

end TailLisp
