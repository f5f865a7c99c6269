import TailLisp.Fault

/-! # String literals — text between double quotes

    `encode` writes a text as a literal, `decode` reads the literal of a
    token.  Three characters are escaped: backslash, double quote and newline. -/

namespace TailLisp.StringLiteral

/-! ## Writing -/

/-- How one character is written inside a literal. -/
def encodeChar : Char → List Char
  | '\\' => ['\\', '\\']
  | '"' => ['\\', '"']
  | '\n' => ['\\', 'n']
  | c => [c]

/-- The literal that stands for a text. -/
def encode (text : List Char) : List Char :=
  '"' :: text.flatMap encodeChar ++ ['"']

/-! ## Reading -/

/-- The character that an escape stands for. -/
def escaped? : Char → Option Char
  | 'n' => some '\n'
  | '"' => some '"'
  | '\\' => some '\\'
  | _ => none

/-- Decodes what stands between the quotes, up to the first unknown escape.  A
    backslash needs a character after it. -/
def decodeBody : List Char → Except Fault (List Char)
  | [] => .ok []
  | ['\\'] => .error .outOfRange
  | '\\' :: c :: rest =>
    match escaped? c with
    | some d => (decodeBody rest).map (d :: ·)
    | none => .error (.unreadable (.unknownEscape c))
  | c :: rest => (decodeBody rest).map (c :: ·)

/-- Whether a text ends in an odd number of backslashes, so that a quote
    after it would be escaped. -/
def endsEscaping (body : List Char) : Bool :=
  (body.reverse.takeWhile (· == '\\')).length % 2 == 1

/-- The text that a literal stands for.  A literal whose closing quote is missing
    or escaped is unterminated, whatever its escapes are. -/
def decode (literal : List Char) : Except Fault (List Char) :=
  let body := literal.tail.dropLast
  if literal.length < 2 ∨ literal.getLast? ≠ some '"' ∨ endsEscaping body = true then
    .error (.unreadable .unterminatedString)
  else
    decodeBody body

end TailLisp.StringLiteral
