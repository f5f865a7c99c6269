import TailLisp.Text.Printable

/-! # Quoted text — a text on one line, unmistakably

    The form used where a message shows a text as data.  Single quotes enclose
    it, unless it holds one and no double quote; the enclosing quote, backslash
    and everything that is not printable are escaped. -/

namespace TailLisp.Text.Quoted

/-- The lower-case hexadecimal digits of a number, zeros in front up to `width`. -/
def hex (width n : Nat) : List Char :=
  let digits := Nat.toDigits 16 n
  List.replicate (width - digits.length) '0' ++ digits

/-- The escape of a character that is not printable; it grows with the code point. -/
def escapeCode (c : Char) : List Char :=
  let n := c.toNat
  if n < 0x100 then '\\' :: 'x' :: hex 2 n
  else if n < 0x10000 then '\\' :: 'u' :: hex 4 n
  else '\\' :: 'U' :: hex 8 n

/-- One character between the given quotes. -/
def quoteChar (quote c : Char) : List Char :=
  if c = quote ∨ c = '\\' then ['\\', c]
  else if c = '\n' then ['\\', 'n']
  else if c = '\r' then ['\\', 'r']
  else if c = '\t' then ['\\', 't']
  else if isPrintable c then [c]
  else escapeCode c

/-- The quote that encloses a text. -/
def quoteOf (text : List Char) : Char :=
  if '\'' ∈ text ∧ '"' ∉ text then '"' else '\''

/-- The quoted form of a text. -/
def quote (text : String) : String :=
  let q := quoteOf text.toList
  String.ofList (q :: text.toList.flatMap (quoteChar q) ++ [q])

end TailLisp.Text.Quoted
