import TailLisp.Token
import TailLisp.Text.Blank

/-! # Lexer — cutting a text into tokens

    Blanks and commas separate, a comment runs from `;` to the end of its line.
    Everything else is a parenthesis, a string or a run of symbol characters,
    so every text has exactly one list of tokens and none is refused. -/

namespace TailLisp.Token

open Text

/-- The characters that stand between tokens and mean nothing else. -/
def isSeparator (c : Char) : Bool :=
  isBlank c || c == ','

/-- The characters that a symbol or a number is made of. -/
def isSymbolChar (c : Char) : Bool :=
  !isSeparator c && c != '(' && c != ')' && c != ';' && c != '"'

/-- Cuts off the rest of a string whose opening quote has been read: its units
    and, where there is one, its closing quote.  A unit is a backslash with any
    character but a newline, or any other character than a quote.  A backslash
    without a partner ends the string before it. -/
def stringTail : List Char → List Char × List Char
  | [] => ([], [])
  | '"' :: rest => (['"'], rest)
  | ['\\'] => ([], ['\\'])
  | '\\' :: c :: rest =>
    if c = '\n' then ([], '\\' :: c :: rest)
    else
      let (body, after) := stringTail rest
      ('\\' :: c :: body, after)
  | c :: rest =>
    let (body, after) := stringTail rest
    (c :: body, after)

theorem stringTail_append (cs : List Char) : (stringTail cs).1 ++ (stringTail cs).2 = cs := by
  fun_induction stringTail cs <;> simp_all

theorem stringTail_rest_length_le (cs : List Char) : (stringTail cs).2.length ≤ cs.length := by
  have h := congrArg List.length (stringTail_append cs)
  simp only [List.length_append] at h
  omega

theorem dropWhile_length_le {α : Type} (p : α → Bool) (xs : List α) :
    (xs.dropWhile p).length ≤ xs.length :=
  (List.dropWhile_sublist p).length_le

/-- The tokens of a text, in order. -/
def lexChars : List Char → List Token
  | [] => []
  | c :: cs =>
    if isSeparator c then lexChars cs
    else if c = ';' then lexChars (cs.dropWhile (· != '\n'))
    else if c = '(' then opening :: lexChars cs
    else if c = ')' then closing :: lexChars cs
    else if c = '"' then
      string ('"' :: (stringTail cs).1) :: lexChars (stringTail cs).2
    else
      symbol (c :: cs.takeWhile isSymbolChar) :: lexChars (cs.dropWhile isSymbolChar)
termination_by cs => cs.length
decreasing_by
  · exact Nat.lt_succ_self _
  · exact Nat.lt_succ_of_le (dropWhile_length_le _ cs)
  · exact Nat.lt_succ_self _
  · exact Nat.lt_succ_self _
  · exact Nat.lt_succ_of_le (stringTail_rest_length_le cs)
  · exact Nat.lt_succ_of_le (dropWhile_length_le _ cs)

/-- The tokens of a text, in order. -/
def lex (source : String) : List Token :=
  lexChars source.toList

end TailLisp.Token
