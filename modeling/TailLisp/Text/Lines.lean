/-! # Lines — texts with one kind of line end

    A carriage return, alone or before a newline, ends a line like a newline. -/

namespace TailLisp.Text

/-- A text in which every line end is a newline. -/
def unifyLineEnds : List Char → List Char
  | [] => []
  | '\r' :: '\n' :: rest => '\n' :: unifyLineEnds rest
  | '\r' :: rest => '\n' :: unifyLineEnds rest
  | c :: rest => c :: unifyLineEnds rest

/-- The lines of a text without their ends, given what stands before in the first one.
    A last line need not be ended, but must not be empty then. -/
def splitLines (before : List Char) : List Char → List (List Char)
  | [] => if before.isEmpty then [] else [before.reverse]
  | c :: rest =>
    if c = '\n' then before.reverse :: splitLines [] rest
    else splitLines (c :: before) rest

/-- The lines of a text. -/
def lines (text : String) : List String :=
  (splitLines [] (unifyLineEnds text.toList)).map String.ofList

end TailLisp.Text
