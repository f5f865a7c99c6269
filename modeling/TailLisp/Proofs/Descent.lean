import TailLisp.TokenStream
import TailLisp.Proofs.ReadBack

/-! # Descent — reading by descent against reading with open lists

    There are two ways to read.  A stream is read by descent, with one token of sight;
    the reader of programs keeps the lists that are open and goes through the
    tokens once.  What they come to, and what they leave, is the same.

    * **`readForm_eq`** — for one form.  Descent is compared in the middle of any open
      lists, as it comes to read items there.
    * **`harvest_eq`** — for all forms: looking ahead for the end finds the same forms,
      and the same fault after them, as reading until there is none. -/

namespace TailLisp

/-- Only closing tokens close. -/
theorem Token.role_eq_closes_iff {token : Token} :
    token.role = .ok .closes ↔ token.kind = .closing := by
  rw [role]
  cases token.kind with
  | symbol => cases readWord token.text <;> simp [Except.map]
  | string => cases readString token.text <;> simp [Except.map]
  | _ => simp

namespace Value

variable {limit : Nat} {stack : List (List Value)} {token : Token} {rest : List Token}

theorem readFrom_refused {fault : Fault} (h : token.role = .error fault) :
    readFrom limit stack (token :: rest) = (.error fault, rest) := by
  rw [readFrom.eq_def]
  cases stack <;> simp only [h]

theorem readFrom_overflow (hrole : token.role = .ok .opens) (h : limit ≤ stack.length) :
    readFrom limit stack (token :: rest) = (.error .stackOverflow, rest) := by
  rw [readFrom.eq_def]
  cases stack <;> simp only [hrole, if_neg (Nat.not_lt.mpr h)]

theorem readFrom_unexpected (h : token.role = .ok .closes) :
    readFrom limit [] (token :: rest) = (.error (.unreadable .unexpectedClose), rest) := by
  rw [readFrom.eq_def]
  simp only [h]

theorem readFrom_unclosed {items : List Value} :
    readFrom limit (items :: stack) [] = (.error (.unreadable .unclosedList), []) := by
  rw [readFrom.eq_def]

/-- The forms that reading gives until there is none or one cannot be read, and the tokens
    that are left. -/
def harvest (limit : Nat) (tokens : List Token) : Harvest × List Token :=
  match _h : readForm limit tokens with
  | (.error fault, rest) => (⟨[], some fault⟩, rest)
  | (.ok none, rest) => (⟨[], none⟩, rest)
  | (.ok (some form), rest) => (harvest limit rest).map (·.cons form) id
termination_by tokens.length
decreasing_by exact readForm_rest_length_lt _h

section Harvest

variable {tokens : List Token}

theorem harvest_of_error {fault : Fault} (h : readForm limit tokens = (.error fault, rest)) :
    harvest limit tokens = (⟨[], some fault⟩, rest) := by
  rw [harvest]
  split <;> simp_all

theorem harvest_of_none (h : readForm limit tokens = (.ok none, rest)) :
    harvest limit tokens = (⟨[], none⟩, rest) := by
  rw [harvest]
  split <;> simp_all

theorem harvest_of_some {form : Value} (h : readForm limit tokens = (.ok (some form), rest)) :
    harvest limit tokens = (harvest limit rest).map (·.cons form) id := by
  rw [harvest]
  split <;> simp_all

end Harvest

/-- Reading all forms gives them if there is no fault after them. -/
theorem readForms_eq_harvest (limit : Nat) (tokens : List Token) :
    readForms limit tokens = (harvest limit tokens).map Harvest.all id := by
  induction tokens using readForm_induct limit with
  | failed tokens fault rest hread =>
      rw [readForms_of_error hread, harvest_of_error hread]
      rfl
  | ended tokens rest hread =>
      rw [readForms_of_none hread, harvest_of_none hread]
      rfl
  | form tokens form rest hread ih =>
      rw [readForms_of_some hread, harvest_of_some hread, ih]
      rcases harvest limit rest with ⟨⟨forms, _ | fault⟩, last⟩
      · rfl
      · rfl

end Value

namespace TokenStream

open Value

variable {room : Nat} {s : TokenStream} {token : Token} {tail : List Token}

/-! ## Descent, token by token -/

/-- What reading comes to, without the proof that something was consumed. -/
def plain {α : Type} {n : Nat} (read : Except Fault α × Behind n s) :
    Except Fault α × TokenStream :=
  (read.1, read.2.1)

theorem plain_readForm_nil (hs : s.buffer.length ≤ 1) (h : s.toList = []) :
    plain (s.readForm room) = (.ok none, ofList []) := by
  have hend : s.advance.2 = ofList [] := by rw [advance_snd hs, h, List.tail_nil]
  rw [readForm.eq_def, ← hend]
  split
  case h_1 => rfl
  case h_2 hnext =>
    rw [advance_fst, h] at hnext
    cases hnext

theorem plain_readForm_cons (hs : s.buffer.length ≤ 1) (h : s.toList = token :: tail) :
    plain (s.readForm room) =
      match token.role with
      | .error fault => (.error fault, ofList tail)
      | .ok (.atom value) => (.ok (some value), ofList tail)
      | .ok .closes => (.error (.unreadable .unexpectedClose), ofList tail)
      | .ok .opens =>
        match room with
        | 0 => (.error .stackOverflow, ofList tail)
        | room + 1 => (plain ((ofList tail).readItems room [])).map (·.map some) id := by
  have htail : s.advance.2 = ofList tail := by rw [advance_snd hs, h, List.tail_cons]
  rw [readForm.eq_def, ← htail]
  split
  case h_1 hnext =>
    rw [advance_fst, h] at hnext
    cases hnext
  case h_2 hnext =>
    rw [advance_fst, h] at hnext
    obtain rfl := Option.some.inj hnext
    rcases token.role with fault | _ | _ | value
    · rfl
    · cases room <;> rfl
    · rfl
    · rfl

theorem plain_readItems_nil (done : List Value) (h : s.toList = []) :
    plain (s.readItems room done) = (.error (.unreadable .unclosedList), s.peek.2) := by
  rw [readItems.eq_def]
  split
  case h_1 => rfl
  case h_2 hnext =>
    rw [peek_fst, h] at hnext
    cases hnext

theorem plain_readItems_cons (done : List Value) (h : s.toList = token :: tail) :
    plain (s.readItems room done) =
      if token.kind = .closing then (.ok (.list none done.reverse), s.peek.2.advance.2)
      else
        match plain (s.peek.2.readForm room) with
        | (.error fault, rest) => (.error fault, rest)
        | (.ok none, rest) => (.error (.unreadable .unclosedList), rest)
        | (.ok (some item), rest) => plain (rest.readItems room (item :: done)) := by
  rw [readItems.eq_def]
  split
  case h_1 hnext =>
    rw [peek_fst, h] at hnext
    cases hnext
  case h_2 hnext =>
    rw [peek_fst, h] at hnext
    obtain rfl := Option.some.inj hnext
    by_cases hclosing : token.kind = .closing
    · rw [if_pos hclosing, if_pos hclosing]
      rfl
    · rw [if_neg hclosing, if_neg hclosing]
      rcases s.peek.2.readForm room with ⟨fault | (_ | item), rest⟩
      · rfl
      · rfl
      · rfl

/-! ## Descent in the middle of open lists -/

/-- A list or form read by descent is what the reader comes to that has the lists `opened`,
    and hands it over to those in `stack`. -/
structure Meets (limit : Nat) (opened stack : List (List Value)) (tokens : List Token)
    (read : Except Fault Value × TokenStream) : Prop where
  reader : readFrom limit opened tokens =
    match read.1 with
    | .ok v => handOver limit v stack read.2.toList
    | .error fault => (.error fault, read.2.toList)
  consumed : read.2 = ofList read.2.toList

theorem eq_ofList_nil (h : s.toList = []) : s = ofList [] := by
  obtain ⟨buffer, rest⟩ := s
  obtain ⟨rfl, rfl⟩ := List.append_eq_nil_iff.mp h
  rfl

/-- A form, if the items of a list are read as they should be. -/
theorem meets_readForm (hs : s.buffer.length ≤ 1) (h : s.toList = token :: tail)
    {stack : List (List Value)} (hstart : stack = [] ∨ token.kind ≠ .closing)
    (hitems : ∀ room, Meets (stack.length + 1 + room) ([] :: stack) stack tail
      (plain ((ofList tail).readItems room []))) :
    ∃ read, plain (s.readForm room) = read.map (·.map some) id ∧
      Meets (stack.length + room) stack stack s.toList read := by
  rw [plain_readForm_cons hs h, h]
  rcases hrole : token.role with fault | _ | _ | value
  · refine ⟨(.error fault, ofList tail), rfl, ?_, rfl⟩
    exact readFrom_refused hrole
  · cases room with
    | zero =>
        refine ⟨(.error .stackOverflow, ofList tail), rfl, ?_, rfl⟩
        exact readFrom_overflow hrole (Nat.le_refl _)
    | succ room =>
        refine ⟨_, rfl, ?_, (hitems room).consumed⟩
        have hlimit : stack.length + (room + 1) = stack.length + 1 + room := by omega
        rw [hlimit, readFrom_opening hrole (by omega)]
        exact (hitems room).reader
  · have hclosing := Token.role_eq_closes_iff.mp hrole
    obtain rfl : stack = [] := hstart.resolve_right (not_not_intro hclosing)
    refine ⟨(.error (.unreadable .unexpectedClose), ofList tail), rfl, ?_, rfl⟩
    exact readFrom_unexpected hrole
  · refine ⟨(.ok value, ofList tail), rfl, ?_, rfl⟩
    exact readFrom_atom hrole

/-- The items of a list, by induction on the number of tokens: each of them takes one away. -/
theorem meets_readItems (room n : Nat) (hs : s.buffer.length ≤ 1) (hn : s.size = n)
    (done : List Value) (stack : List (List Value)) :
    Meets (stack.length + 1 + room) (done :: stack) stack s.toList
      (plain (s.readItems room done)) := by
  induction n using Nat.strongRecOn generalizing s room done stack with
  | ind n ih =>
      cases h : s.toList with
      | nil =>
          have hend : s.peek.2 = ofList [] := eq_ofList_nil (s.peek_toList.trans h)
          rw [plain_readItems_nil done h, hend]
          exact ⟨readFrom_unclosed, rfl⟩
      | cons token tail =>
          have hbuffer := length_buffer_peek_le hs
          have hahead : s.peek.2.toList = token :: tail := s.peek_toList.trans h
          have hsize : s.size = tail.length + 1 := congrArg List.length h
          rw [plain_readItems_cons done h]
          by_cases hclosing : token.kind = .closing
          · have hrest : s.peek.2.advance.2 = ofList tail := by
              rw [advance_snd hbuffer, hahead, List.tail_cons]
            rw [if_pos hclosing, hrest]
            exact ⟨readFrom_closing (Token.role_eq_closes_iff.mpr hclosing) done, rfl⟩
          · rw [if_neg hclosing]
            have hinner : ∀ room, Meets ((done :: stack).length + 1 + room) ([] :: done :: stack)
                (done :: stack) tail (plain ((ofList tail).readItems room [])) := fun room =>
              ih tail.length (by omega) room (length_buffer_ofList tail) rfl [] (done :: stack)
            obtain ⟨⟨read, rest⟩, hread, hreader, hconsumed⟩ :=
              meets_readForm hbuffer hahead (.inr hclosing) hinner
            rw [hahead] at hreader
            rw [hread]
            cases read with
            | error fault => exact ⟨hreader, hconsumed⟩
            | ok item =>
                have hlt : rest.size < n := by
                  have hle : (plain (s.peek.2.readForm room)).2.size ≤ s.peek.2.size - 1 :=
                    (s.peek.2.readForm room).2.2
                  rw [hread, size_peek] at hle
                  simp only [Prod.map_snd, id_eq] at hle
                  omega
                have hnext : rest.buffer.length ≤ 1 := by
                  rw [show rest = ofList rest.toList from hconsumed]
                  exact length_buffer_ofList rest.toList
                have hrest := ih rest.size hlt room hnext rfl (item :: done) stack
                exact ⟨hreader.trans hrest.reader, hrest.consumed⟩

/-- **Descent comes to what the reader comes to** and leaves the same tokens, none of them
    fetched. -/
theorem readForm_eq (room : Nat) (hs : s.buffer.length ≤ 1) :
    plain (s.readForm room) = (Value.readForm room s.toList).map id ofList := by
  cases h : s.toList with
  | nil =>
      rw [plain_readForm_nil hs h, Value.readForm, readFrom]
      rfl
  | cons token tail =>
      obtain ⟨⟨read, rest⟩, hread, hreader, hconsumed⟩ :=
        meets_readForm hs h (.inl rfl) fun room =>
          meets_readItems room tail.length (length_buffer_ofList tail) rfl [] []
      rw [List.length_nil, Nat.zero_add, h] at hreader
      rw [hread, Value.readForm, hreader]
      cases read with
      | error fault => exact congrArg (Prod.mk (Except.error fault)) hconsumed
      | ok v => exact congrArg (Prod.mk (Except.ok (some v))) hconsumed

/-! ## All forms -/

theorem harvest_of_nil (h : s.toList = []) : s.harvest room = (⟨[], none⟩, s.peek.2) := by
  rw [harvest.eq_def]
  split
  case h_1 => rfl
  case h_2 hnext =>
    rw [peek_fst, h] at hnext
    cases hnext

theorem harvest_of_cons (h : s.toList = token :: tail) :
    s.harvest room =
      match plain (s.peek.2.readForm room) with
      | (.error fault, rest) => (⟨[], some fault⟩, rest)
      | (.ok none, rest) => (⟨[], none⟩, rest)
      | (.ok (some form), rest) => (rest.harvest room).map (·.cons form) id := by
  rw [harvest.eq_def]
  split
  case h_1 hnext =>
    rw [peek_fst, h] at hnext
    cases hnext
  case h_2 =>
    rcases s.peek.2.readForm room with ⟨fault | (_ | form), rest⟩
    · rfl
    · rfl
    · rfl

/-- **Looking ahead for the end** and reading until there is no form find the same forms and
    the same fault after them, and leave the same tokens. -/
theorem harvest_eq (room : Nat) (hs : s.buffer.length ≤ 1) :
    s.harvest room = (Value.harvest room s.toList).map id ofList := by
  induction hn : s.size using Nat.strongRecOn generalizing s with
  | ind n ih =>
      cases h : s.toList with
      | nil =>
          have hend : s.peek.2 = ofList [] := eq_ofList_nil (s.peek_toList.trans h)
          have hread : Value.readForm room [] = (.ok none, []) := by
            rw [Value.readForm, readFrom]
          rw [harvest_of_nil h, hend, Value.harvest_of_none hread]
          rfl
      | cons token tail =>
          have hform := readForm_eq room (length_buffer_peek_le hs)
          rw [s.peek_toList, h] at hform
          rw [harvest_of_cons h, hform]
          rcases hread : Value.readForm room (token :: tail) with ⟨fault | (_ | form), rest⟩
          · rw [Value.harvest_of_error hread]
            rfl
          · rw [Value.harvest_of_none hread]
            rfl
          · have hlt : rest.length < n := by
              rw [← hn, size, h]
              exact readForm_rest_length_lt hread
            have hrest := ih rest.length hlt (length_buffer_ofList rest) rfl
            rw [Value.harvest_of_some hread]
            exact congrArg (Prod.map (·.cons form) id) hrest

/-- All forms of a stream are the forms of its tokens. -/
theorem readForms_eq (room : Nat) (hs : s.buffer.length ≤ 1) :
    s.readForms room = (Value.readForms room s.toList).map id ofList := by
  rw [readForms, harvest_eq room hs, Value.readForms_eq_harvest]
  rfl

end TokenStream

end TailLisp
