import TailLisp.Proofs.Balance

/-! # Token accounts — what becomes of every token of a stream

    A stream may be looked at, advanced, and asked for a form or for all forms, at once or one
    at a time, in any order and also after something could not be read.  Whatever is done, each
    token is consumed once and in its turn, and what is consumed can be told from the answers.

    * **`BreaksOff`** — a form that cannot be read is consumed up to the first token that is
      wrong at its depth; `breaksOff_readFrom` finds it, by induction on the tokens and in the
      middle of any open lists.
    * **`Takes`** — the tokens that one move consumes, given its answer, and the stream behind it.
    * **`length_buffer_makeAll_le`** — no moves fetch more than one token, since looking ahead
      fetches none where one is fetched.
    * **`tokens_accounted_for`** — any number of moves: what they took, and what the stream still
      holds, are the tokens that there were. -/

namespace TailLisp

/-! ## Forms that break off -/

namespace Token

/-- Tokens none of which is wrong at its depth, with a list open behind each; so many lists are
    open in front of them and so many behind. -/
inductive Pending : Nat → List Token → Nat → Prop where
  | nil (depth : Nat) : Pending depth [] depth
  | cons {depth last : Nat} {token : Token} {rest : List Token} :
      token.offence? depth = none → 0 < token.depthAfter depth →
      Pending (token.depthAfter depth) rest last → Pending depth (token :: rest) last

/-- Why a form is not read to its end, where `depth` lists are open: the tokens that are consumed
    for it, and those that are left. -/
inductive BreaksOff (limit depth : Nat) : Fault → List Token → List Token → Prop where
  /-- The last token consumed is the first that is wrong. -/
  | offence {last : Nat} {before left : List Token} {token : Token} {fault : Fault} :
      Pending depth before last → token.offence? last = some fault →
      BreaksOff limit depth fault (before ++ [token]) left
  /-- All tokens are consumed, and a list is still open. -/
  | unclosed {last : Nat} {before : List Token} : Pending depth before last → 0 < last →
      BreaksOff limit depth (.unreadable .unclosedList) before []
  /-- The last token consumed opens a list where as many are open as there may be. -/
  | tooDeep {last : Nat} {before left : List Token} {token : Token} :
      Pending depth before last → limit ≤ last → token.kind = .opening →
      BreaksOff limit depth .stackOverflow (before ++ [token]) left

/-- A token in front that leaves a list open. -/
theorem BreaksOff.pass {limit depth next : Nat} {token : Token} {fault : Fault}
    {consumed left : List Token}
    (hpass : token.offence? depth = none ∧ token.depthAfter depth = next) (hnext : 0 < next)
    (h : BreaksOff limit next fault consumed left) :
    BreaksOff limit depth fault (token :: consumed) left := by
  obtain ⟨hnone, rfl⟩ := hpass
  cases h with
  | offence hbefore hfault => exact .offence (.cons hnone hnext hbefore) hfault
  | unclosed hbefore hlast => exact .unclosed (.cons hnone hnext hbefore) hlast
  | tooDeep hbefore hlast hopening =>
      exact .tooDeep (.cons hnone hnext hbefore) hlast hopening

end Token

namespace Value

open Token

variable {limit : Nat} {stack : List (List Value)} {tokens rest : List Token} {fault : Fault}

/-- What is consumed for a form that cannot be read. -/
theorem breaksOff_readFrom (h : readFrom limit stack tokens = (.error fault, rest)) :
    ∃ consumed, tokens = consumed ++ rest ∧ BreaksOff limit stack.length fault consumed rest := by
  induction tokens generalizing stack with
  | nil =>
      cases stack with
      | nil =>
          rw [readFrom.eq_def] at h
          cases h
      | cons items stack =>
          rw [readFrom_unclosed] at h
          cases h
          exact ⟨[], rfl, .unclosed (.nil _) (Nat.succ_pos _)⟩
  | cons token tail ih =>
      -- A value is handed over to a list that is open, or the form is complete.
      have hhand : ∀ (w : Value) (stack : List (List Value)),
          handOver limit w stack tail = (.error fault, rest) →
          0 < stack.length ∧ ∃ consumed, tail = consumed ++ rest ∧
            BreaksOff limit stack.length fault consumed rest := by
        intro w stack h
        cases stack with
        | nil => cases h
        | cons items stack =>
            have hmore : readFrom limit ((w :: items) :: stack) tail = (.error fault, rest) := h
            have hbreaks := ih hmore
            exact ⟨Nat.succ_pos _, hbreaks⟩
      have hscan := offence?_depthAfter stack.length token
      rcases hrole : token.role with other | _ | _ | w
      · rw [hrole] at hscan
        rw [readFrom_refused hrole] at h
        cases h
        exact ⟨[token], rfl, .offence (.nil _) hscan⟩
      · rw [hrole] at hscan
        by_cases hroom : stack.length < limit
        · rw [readFrom_opening hrole hroom] at h
          obtain ⟨consumed, rfl, hbreaks⟩ := ih h
          exact ⟨token :: consumed, rfl, hbreaks.pass hscan (Nat.succ_pos _)⟩
        · rw [readFrom_overflow hrole (Nat.not_lt.mp hroom)] at h
          cases h
          exact ⟨[token], rfl,
            .tooDeep (.nil _) (Nat.not_lt.mp hroom) (role_eq_opens_iff.mp hrole)⟩
      · cases stack with
        | nil =>
            rw [hrole] at hscan
            rw [readFrom_unexpected hrole] at h
            cases h
            exact ⟨[token], rfl, .offence (.nil _) hscan.1⟩
        | cons items stack =>
            have hscan := offence?_depthAfter stack.length token
            rw [hrole] at hscan
            rw [readFrom_closing hrole] at h
            obtain ⟨hopen, consumed, rfl, hbreaks⟩ := hhand _ stack h
            exact ⟨token :: consumed, rfl, hbreaks.pass hscan.2 hopen⟩
      · rw [hrole] at hscan
        rw [readFrom_atom hrole] at h
        obtain ⟨hopen, consumed, rfl, hbreaks⟩ := hhand w stack h
        exact ⟨token :: consumed, rfl, hbreaks.pass hscan hopen⟩

end Value

/-! ## Moves -/

namespace TokenStream

open Token

/-- What can be done with a stream.  All forms are read at once or one at a time. -/
inductive Move where
  | peek
  | advance
  | readForm
  | nextForm
  | readForms

/-- What comes of a move. -/
inductive Answer where
  | token (token? : Option Token)
  | form (read : Except Fault (Option Value))
  | forms (read : Except Fault (List Value))

/-- Makes a move, with `room` levels of lists. -/
def make (room : Nat) (s : TokenStream) : Move → Answer × TokenStream
  | .peek => s.peek.map .token id
  | .advance => s.advance.map .token id
  | .readForm => (plain (s.readForm room)).map .form id
  -- Who wants all forms looks ahead for the end first.
  | .nextForm =>
    match s.peek.1 with
    | none => (.form (.ok none), s.peek.2)
    | some _ => (plain (s.peek.2.readForm room)).map .form id
  | .readForms => (s.readForms room).map .forms id

/-- Makes moves one after another, whatever comes of each. -/
def makeAll (room : Nat) (s : TokenStream) : List Move → List Answer × TokenStream
  | [] => ([], s)
  | move :: rest =>
    let (answer, next) := s.make room move
    let (answers, last) := makeAll room next rest
    (answer :: answers, last)

/-- What a move answers if there are no tokens left. -/
def Move.answerAtEnd : Move → Answer
  | .peek | .advance => .token none
  | .readForm | .nextForm => .form (.ok none)
  | .readForms => .forms (.ok [])

/-- What a move answers, the tokens that it consumes and the stream that it leaves.  Only looking
    ahead leaves a token fetched, and consumes none. -/
inductive Takes (room : Nat) : Move → Answer → List Token → TokenStream → Prop where
  | peek (left : List Token) :
      Takes room .peek (.token left.head?) [] ⟨left.take 1, left.drop 1⟩
  | advance (token : Token) (left : List Token) :
      Takes room .advance (.token (some token)) [token] (ofList left)
  | nothing : Takes room .advance (.token none) [] (ofList [])
  | form {v : Value} {taken : List Token} (left : List Token) : Spells [v] taken →
      Takes room .readForm (.form (.ok (some v))) taken (ofList left)
  | noForm : Takes room .readForm (.form (.ok none)) [] (ofList [])
  | failed {fault : Fault} {taken left : List Token} : BreaksOff room 0 fault taken left →
      Takes room .readForm (.form (.error fault)) taken (ofList left)
  | next {read : Except Fault (Option Value)} {taken : List Token} {s : TokenStream} :
      Takes room .readForm (.form read) taken s → Takes room .nextForm (.form read) taken s
  | forms {vs : List Value} {taken : List Token} : Spells vs taken →
      Takes room .readForms (.forms (.ok vs)) taken (ofList [])
  | failedBehind {vs : List Value} {fault : Fault} {done taken left : List Token} :
      Spells vs done → BreaksOff room 0 fault taken left →
      Takes room .readForms (.forms (.error fault)) (done ++ taken) (ofList left)

/-- Moves with their answers and the tokens that each of them consumes, from one stream to
    another. -/
inductive Accounts (room : Nat) :
    TokenStream → List Move → List Answer → List (List Token) → TokenStream → Prop where
  | nil (s : TokenStream) : Accounts room s [] [] [] s
  | cons {s next last : TokenStream} {move : Move} {answer : Answer} {moves : List Move}
      {answers : List Answer} {taken : List Token} {parts : List (List Token)} :
      s.toList = taken ++ next.toList → Takes room move answer taken next →
      Accounts room next moves answers parts last →
      Accounts room s (move :: moves) (answer :: answers) (taken :: parts) last

variable {room : Nat} {s last : TokenStream}

section Reading

variable (room : Nat) (hs : s.buffer.length ≤ 1)
include hs

theorem make_readForm :
    s.make room .readForm = (Value.readForm room s.toList).map .form ofList := by
  rw [make, readForm_eq room hs]
  rfl

/-- Looking ahead for the end makes no difference to reading a form. -/
theorem make_nextForm : s.make room .nextForm = s.make room .readForm := by
  cases hnext : s.peek.1 with
  | none =>
      have hnil : s.toList = [] := List.head?_eq_none_iff.mp (s.peek_fst.symm.trans hnext)
      have hend : s.peek.2 = ofList [] := eq_ofList_nil (s.peek_toList.trans hnil)
      rw [make_readForm room hs, hnil]
      simp only [make, hnext, hend]
      rfl
  | some token =>
      rw [make_readForm room hs, ← s.peek_toList, ← make_readForm room (length_buffer_peek_le hs)]
      simp only [make, hnext]

theorem make_readForms :
    s.make room .readForms = (Value.readForms room s.toList).map .forms ofList := by
  rw [make, readForms_eq room hs]
  rfl

/-- **One move** leaves no more than one token fetched. -/
theorem length_buffer_make_le (move : Move) : (s.make room move).2.buffer.length ≤ 1 := by
  cases move with
  | peek => exact length_buffer_peek_le hs
  | advance => exact length_buffer_advance_le hs
  | readForm =>
      rw [make_readForm room hs]
      exact length_buffer_ofList _
  | nextForm =>
      rw [make_nextForm room hs, make_readForm room hs]
      exact length_buffer_ofList _
  | readForms =>
      rw [make_readForms room hs]
      exact length_buffer_ofList _

/-- Nor do any number of moves, by induction on their list. -/
theorem length_buffer_makeAll_le (moves : List Move) :
    (s.makeAll room moves).2.buffer.length ≤ 1 := by
  induction moves generalizing s with
  | nil => exact hs
  | cons move rest ih => exact ih (length_buffer_make_le room hs move)

end Reading

/-- One form more in front of all that are read. -/
theorem Takes.cons {v : Value} {read : Except Fault (List Value)} {before taken : List Token}
    (hform : Spells [v] before) (h : Takes room .readForms (.forms read) taken s) :
    Takes room .readForms (.forms (read.map (v :: ·))) (before ++ taken) s := by
  cases h with
  | forms hforms => exact .forms (hform.append hforms)
  | failedBehind hdone hbreaks =>
      rw [← List.append_assoc]
      exact .failedBehind (hform.append hdone) hbreaks

/-- What reading a form consumes. -/
theorem takes_readForm (room : Nat) (tokens : List Token) :
    ∃ taken, tokens = taken ++ (Value.readForm room tokens).2 ∧
      Takes room .readForm (.form (Value.readForm room tokens).1) taken
        (ofList (Value.readForm room tokens).2) := by
  rcases hread : Value.readForm room tokens with ⟨fault | (_ | v), rest⟩
  · obtain ⟨consumed, htokens, hbreaks⟩ := Value.breaksOff_readFrom hread
    exact ⟨consumed, htokens, .failed hbreaks⟩
  · obtain ⟨-, rfl⟩ := Value.eq_nil_of_readFrom hread
    obtain rfl : [] = rest := congrArg Prod.snd hread
    exact ⟨[], rfl, .noForm⟩
  · obtain ⟨consumed, htokens, hform⟩ := Value.spells_readFrom hread .nil
    exact ⟨consumed, htokens, .form rest hform⟩

/-- What reading all forms consumes, by induction on them. -/
theorem takes_readForms (room : Nat) (tokens : List Token) :
    ∃ taken, tokens = taken ++ (Value.readForms room tokens).2 ∧
      Takes room .readForms (.forms (Value.readForms room tokens).1) taken
        (ofList (Value.readForms room tokens).2) := by
  induction tokens using Value.readForm_induct room with
  | failed tokens fault rest hread =>
      obtain ⟨consumed, htokens, hbreaks⟩ := Value.breaksOff_readFrom hread
      rw [Value.readForms_of_error hread]
      exact ⟨consumed, htokens, .failedBehind .nil hbreaks⟩
  | ended tokens rest hread =>
      obtain ⟨-, rfl⟩ := Value.eq_nil_of_readFrom hread
      obtain rfl : [] = rest := congrArg Prod.snd hread
      rw [Value.readForms_of_none hread]
      exact ⟨[], rfl, .forms .nil⟩
  | form tokens form rest hread ih =>
      obtain ⟨consumed, htokens, hform⟩ := Value.spells_readFrom hread .nil
      obtain ⟨taken, hrest, htakes⟩ := ih
      rw [Value.readForms_of_some hread]
      refine ⟨consumed ++ taken, ?_, htakes.cons hform⟩
      rw [htokens, List.append_assoc, ← hrest]

/-- **One move** consumes what its answer says, and leaves the tokens behind that. -/
theorem takes_make (room : Nat) (hs : s.buffer.length ≤ 1) (move : Move) :
    ∃ taken, s.toList = taken ++ (s.make room move).2.toList ∧
      Takes room move (s.make room move).1 taken (s.make room move).2 := by
  cases move with
  | peek =>
      refine ⟨[], s.peek_toList.symm, ?_⟩
      show Takes room .peek (.token s.peek.1) [] s.peek.2
      rw [peek_fst, peek_snd hs]
      exact .peek s.toList
  | advance =>
      show ∃ taken, s.toList = taken ++ s.advance.2.toList ∧
        Takes room .advance (.token s.advance.1) taken s.advance.2
      rw [advance_fst, advance_snd hs]
      cases s.toList with
      | nil => exact ⟨[], rfl, .nothing⟩
      | cons token left => exact ⟨[token], rfl, .advance token left⟩
  | readForm =>
      rw [make_readForm room hs]
      exact takes_readForm room s.toList
  | nextForm =>
      obtain ⟨taken, htokens, htakes⟩ := takes_readForm room s.toList
      rw [make_nextForm room hs, make_readForm room hs]
      exact ⟨taken, htokens, .next htakes⟩
  | readForms =>
      rw [make_readForms room hs]
      exact takes_readForms room s.toList

/-- Any number of moves, by induction on their list. -/
theorem accounts_makeAll (room : Nat) (hs : s.buffer.length ≤ 1) (moves : List Move) :
    ∃ parts, Accounts room s moves (s.makeAll room moves).1 parts (s.makeAll room moves).2 := by
  induction moves generalizing s with
  | nil => exact ⟨[], .nil s⟩
  | cons move rest ih =>
      obtain ⟨taken, hleft, htakes⟩ := takes_make room hs move
      obtain ⟨parts, hrest⟩ := ih (length_buffer_make_le room hs move)
      exact ⟨taken :: parts, .cons hleft htakes hrest⟩

/-- What was consumed stands in front of what is left. -/
theorem Accounts.toList_eq {moves : List Move} {answers : List Answer} {parts : List (List Token)}
    (h : Accounts room s moves answers parts last) : s.toList = parts.flatten ++ last.toList := by
  induction h with
  | nil s => rfl
  | cons hleft _ _ ih => rw [hleft, ih, List.flatten_cons, List.append_assoc]

/-- At the end nothing comes any more, and it stays the end. -/
theorem make_of_nil (hs : s.buffer.length ≤ 1) (h : s.toList = []) (move : Move) :
    (s.make room move).1 = move.answerAtEnd ∧ (s.make room move).2.toList = [] := by
  cases move with
  | peek =>
      have hnone : s.peek.1 = none := by rw [peek_fst, h, List.head?_nil]
      exact ⟨congrArg Answer.token hnone, s.peek_toList.trans h⟩
  | advance =>
      have hnone : s.advance.1 = none := by rw [advance_fst, h, List.head?_nil]
      have hend : s.advance.2.toList = [] := by rw [advance_toList, h, List.tail_nil]
      exact ⟨congrArg Answer.token hnone, hend⟩
  | readForm =>
      rw [make_readForm room hs, h]
      exact ⟨rfl, rfl⟩
  | nextForm =>
      rw [make_nextForm room hs, make_readForm room hs, h]
      exact ⟨rfl, rfl⟩
  | readForms =>
      have hnone : Value.readForm room [] = (.ok none, []) := rfl
      rw [make_readForms room hs, h, Value.readForms_of_none hnone]
      exact ⟨rfl, rfl⟩

theorem makeAll_of_nil (hs : s.buffer.length ≤ 1) (h : s.toList = []) (moves : List Move) :
    (s.makeAll room moves).1 = moves.map Move.answerAtEnd := by
  induction moves generalizing s with
  | nil => rfl
  | cons move rest ih =>
      obtain ⟨hanswer, hend⟩ : (s.make room move).1 = move.answerAtEnd ∧
          (s.make room move).2.toList = [] := make_of_nil hs h move
      show (s.make room move).1 :: ((s.make room move).2.makeAll room rest).1 = _
      rw [hanswer, ih (length_buffer_make_le room hs move) hend, List.map_cons]

/-- **No token is lost, and none is taken twice.**  After any moves, failed ones among them, the
    tokens that they consumed, the one that may be fetched and the rest are the tokens of the
    stream in their order; each move consumed what its answer says: nothing to look ahead, one
    token to advance, the tokens of one form to read it, and up to the first token that is wrong
    if it cannot be read, or all if a list is not closed.  Looking ahead shows what advancing
    gives, and at the end nothing comes any more, whatever is tried. -/
theorem tokens_accounted_for (room : Nat) (tokens : List Token) (moves : List Move) :
    let answers := ((ofList tokens).makeAll room moves).1
    let s := ((ofList tokens).makeAll room moves).2
    (∃ parts, Accounts room (ofList tokens) moves answers parts s ∧
      parts.flatten ++ s.buffer ++ s.rest = tokens) ∧
    s.buffer.length ≤ 1 ∧
    (s.peek.2.toList = s.toList ∧ s.peek.1 = s.advance.1 ∧ s.peek.1 = s.peek.2.advance.1) ∧
    (s.toList = [] → ∀ others, (s.makeAll room others).1 = others.map Move.answerAtEnd) := by
  intro answers s
  have hstart := length_buffer_ofList tokens
  have hs : s.buffer.length ≤ 1 := length_buffer_makeAll_le room hstart moves
  refine ⟨?_, hs, ⟨s.peek_toList, ?_, ?_⟩, makeAll_of_nil hs⟩
  · obtain ⟨parts, haccounts⟩ := accounts_makeAll room hstart moves
    refine ⟨parts, haccounts, ?_⟩
    rw [List.append_assoc]
    exact haccounts.toList_eq.symm
  · rw [peek_fst, advance_fst]
  · rw [advance_fst, peek_toList, peek_fst]

/-- Behind a closing token too many a form is still read; a list that is not closed takes all the
    rest, and behind it nothing comes. -/
theorem tokens_accounted_for_of_failed_forms :
    let moves : List Move := [.readForm, .peek, .nextForm, .readForms]
    let s := ((ofList [.closing, .opening, .symbol ['x'], .closing, .opening, .opening]).makeAll 2
      moves).2
    s.toList = [] ∧ (s.makeAll 2 [.readForm, .peek, .advance]).1 =
      [.form (.ok none), .token none, .token none] := by
  intro moves s
  have hend : s.toList = [] := by
    have hstart := length_buffer_ofList
    have hpeek := fun left => length_buffer_make_le 2 (hstart left) .peek
    simp only [s, moves, makeAll, make_readForm 2 (hstart _), make_nextForm 2 (hpeek _),
      make_readForm 2 (hpeek _), make_readForms 2 (hstart _), Prod.map_snd]
    decide +kernel
  obtain ⟨-, -, -, hnothing⟩ := tokens_accounted_for 2
    [.closing, .opening, .symbol ['x'], .closing, .opening, .opening] moves
  exact ⟨hend, hnothing hend [.readForm, .peek, .advance]⟩

end TokenStream

end TailLisp
