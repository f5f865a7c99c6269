import TailLisp.Token.Atom
import TailLisp.Token.Lexer

/-! # Reader — forms from tokens

    Reading keeps the lists that are still open on a stack, innermost first and
    each with its items in reverse, and consumes one token at a time.  It stops
    right after the token that ends the form or that cannot be read there.  A
    list that would be nested deeper than `limit` overflows. -/

namespace TailLisp.Value

/-- What reading one form comes to, and the tokens that are left. -/
abbrev Reading (α : Type) := Except Fault α × List Token

/-- Reads the form whose open lists are given; with none open and no token left
    there is no form. -/
def readFrom (limit : Nat) : List (List Value) → List Token → Reading (Option Value)
  | [], [] => (.ok none, [])
  | _ :: _, [] => (.error (.unreadable .unclosedList), [])
  | stack, token :: rest =>
    match token.role with
    | .error fault => (.error fault, rest)
    | .ok .opens =>
      if stack.length < limit then readFrom limit ([] :: stack) rest
      else (.error .stackOverflow, rest)
    | .ok .closes =>
      match stack with
      | [] => (.error (.unreadable .unexpectedClose), rest)
      | [items] => (.ok (some (.list none items.reverse)), rest)
      | items :: outer :: stack =>
        readFrom limit ((.list none items.reverse :: outer) :: stack) rest
    | .ok (.atom value) =>
      match stack with
      | [] => (.ok (some value), rest)
      | items :: stack => readFrom limit ((value :: items) :: stack) rest

/-- Reads the next form, if there is a token left. -/
def readForm (limit : Nat) (tokens : List Token) : Reading (Option Value) :=
  readFrom limit [] tokens

theorem readFrom_rest_length_le (limit : Nat) (stack : List (List Value)) (tokens : List Token) :
    (readFrom limit stack tokens).2.length ≤ tokens.length - 1 := by
  fun_induction readFrom limit stack tokens <;> grind

/-- A form takes at least one token. -/
theorem readForm_rest_length_lt {limit : Nat} {tokens rest : List Token} {form : Value}
    (h : readForm limit tokens = (.ok (some form), rest)) : rest.length < tokens.length := by
  cases tokens with
  | nil => simp [readForm, readFrom] at h
  | cons token tail =>
    have hle := readFrom_rest_length_le limit [] (token :: tail)
    rw [show readFrom limit [] (token :: tail) = _ from h] at hle
    simp only [List.length_cons] at hle ⊢
    omega

/-- Tokens form by form: what is so where no form is read, and in front of a form if it is so
    behind it, is so of all tokens. -/
theorem readForm_induct (limit : Nat) {P : List Token → Prop}
    (failed : ∀ tokens fault rest, readForm limit tokens = (.error fault, rest) → P tokens)
    (ended : ∀ tokens rest, readForm limit tokens = (.ok none, rest) → P tokens)
    (form : ∀ tokens form rest, readForm limit tokens = (.ok (some form), rest) → P rest →
      P tokens)
    (tokens : List Token) : P tokens := by
  induction hn : tokens.length using Nat.strongRecOn generalizing tokens with
  | ind n ih =>
    rcases hread : readForm limit tokens with ⟨fault | (_ | v), rest⟩
    · exact failed tokens fault rest hread
    · exact ended tokens rest hread
    · have hlt : rest.length < n := hn ▸ readForm_rest_length_lt hread
      exact form tokens v rest hread (ih rest.length hlt rest rfl)

/-- Reads forms until no token is left or one cannot be read. -/
def readForms (limit : Nat) (tokens : List Token) : Reading (List Value) :=
  match _h : readForm limit tokens with
  | (.error fault, rest) => (.error fault, rest)
  | (.ok none, rest) => (.ok [], rest)
  | (.ok (some form), rest) =>
    let (forms, after) := readForms limit rest
    (forms.map (form :: ·), after)
termination_by tokens.length
decreasing_by exact readForm_rest_length_lt _h

section Forms

variable {limit : Nat} {tokens rest : List Token}

theorem readForms_of_error {fault : Fault} (h : readForm limit tokens = (.error fault, rest)) :
    readForms limit tokens = (.error fault, rest) := by
  unfold readForms
  split <;> simp_all

theorem readForms_of_none (h : readForm limit tokens = (.ok none, rest)) :
    readForms limit tokens = (.ok [], rest) := by
  unfold readForms
  split <;> simp_all

theorem readForms_of_some {form : Value} (h : readForm limit tokens = (.ok (some form), rest)) :
    readForms limit tokens =
      ((readForms limit rest).1.map (form :: ·), (readForms limit rest).2) := by
  rw [readForms]
  split <;> simp_all

/-- Where reading all forms finds none and no fault, there is none to read. -/
theorem exists_readForm_eq_none (h : (readForms limit tokens).1 = .ok []) :
    ∃ rest, readForm limit tokens = (.ok none, rest) := by
  rcases hread : readForm limit tokens with ⟨fault | (_ | form), rest⟩
  · rw [readForms_of_error hread] at h
    cases h
  · exact ⟨rest, rfl⟩
  · rw [readForms_of_some hread] at h
    cases hrest : (readForms limit rest).1 with
    | error fault =>
      rw [hrest] at h
      cases h
    | ok forms =>
      rw [hrest] at h
      cases h

end Forms

/-- The first form of a text, if it holds one. -/
def ofString? (limit : Nat) (source : String) : Except Fault (Option Value) :=
  (readForm limit (Token.lex source)).1

/-- All forms of a text. -/
def listOfString (limit : Nat) (source : String) : Except Fault (List Value) :=
  (readForms limit (Token.lex source)).1

end TailLisp.Value
