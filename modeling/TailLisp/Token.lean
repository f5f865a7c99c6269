/-! # Tokens — the words of a program text

    A token keeps the text it was cut from.  The lexer makes tokens of four
    kinds; a stream may be fed others, which the reader refuses by name. -/

namespace TailLisp

/-- What a token is. -/
inductive TokenKind where
  | opening
  | closing
  | string
  | symbol
  | other (name : String)
deriving DecidableEq

namespace TokenKind

/-- The name of a kind of token. -/
def name : TokenKind → String
  | .opening => "lparen"
  | .closing => "rparen"
  | .string => "string"
  | .symbol => "symbol"
  | .other name => name

/-- The kind with the given name. -/
def ofName : String → TokenKind
  | "lparen" => .opening
  | "rparen" => .closing
  | "string" => .string
  | "symbol" => .symbol
  | name => .other name

end TokenKind

/-- A word of a program text. -/
structure Token where
  kind : TokenKind
  text : String
deriving DecidableEq

namespace Token

/-- The token `(`. -/
def opening : Token := ⟨.opening, "("⟩

/-- The token `)`. -/
def closing : Token := ⟨.closing, ")"⟩

/-- A string token with the given characters, quotes included. -/
def string (text : List Char) : Token := ⟨.string, String.ofList text⟩

/-- A symbol token with the given characters. -/
def symbol (text : List Char) : Token := ⟨.symbol, String.ofList text⟩

end Token

end TailLisp
