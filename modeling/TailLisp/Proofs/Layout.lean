import Mathlib.Data.List.Chain
import TailLisp.Proofs.Lexing

/-! # Layout — tokens and the gaps around them

    A text shows its tokens in order, with gaps before, between and after them.  What
    stands in a gap is separators and comments; two words need one between them, other
    tokens may touch.

    * **`Layout`** — such a text, cut into its tokens and gaps.
    * **`Token.IsProper`** — the tokens that a text may be made of: parentheses, words and
      strings with a closing quote.
    * **`lex_layout`** — the lexer finds the tokens of every layout, whatever the gaps.  The
      induction is on the pieces, and a piece is cut off whole because of what follows it. -/

namespace TailLisp.Token

variable {gap cs rest : List Char}

/-! ## Gaps -/

/-- What may stand in front of a token: separators, and comments each ended by a newline. -/
inductive IsGap : List Char → Prop where
  | nil : IsGap []
  | separator {c : Char} {gap : List Char} : isSeparator c = true → IsGap gap → IsGap (c :: gap)
  | comment {body gap : List Char} : '\n' ∉ body → IsGap gap →
      IsGap (';' :: body ++ '\n' :: gap)

/-- What may stand behind the last token: a gap, or one that ends in an open comment. -/
inductive IsLastGap : List Char → Prop where
  | closed {gap : List Char} : IsGap gap → IsLastGap gap
  | opened {gap body : List Char} : IsGap gap → '\n' ∉ body → IsLastGap (gap ++ ';' :: body)

theorem isSymbolChar_of_isSeparator {c : Char} (h : isSeparator c = true) :
    isSymbolChar c = false := by
  rw [isSymbolChar, h]
  rfl

theorem delimits_cons {c : Char} (h : isSymbolChar c = false) (cs : List Char) :
    Delimits (c :: cs) := by
  rintro d ⟨⟩
  exact h

/-- The characters of a comment are not looked at. -/
theorem dropWhile_comment {body : List Char} (h : '\n' ∉ body) (rest : List Char) :
    (body ++ rest).dropWhile (· != '\n') = rest.dropWhile (· != '\n') := by
  refine List.dropWhile_append_of_pos fun c hc => ?_
  rw [bne_iff_ne]
  rintro rfl
  exact h hc

namespace IsGap

/-- A gap is skipped. -/
theorem lexChars_append (h : IsGap gap) (rest : List Char) :
    lexChars (gap ++ rest) = lexChars rest := by
  induction h with
  | nil => rfl
  | separator hc _ ih => rw [List.cons_append, lexChars_separator hc, ih]
  | @comment body gap hbody _ ih =>
      rw [List.append_assoc, List.cons_append, List.cons_append, lexChars_comment,
        dropWhile_comment hbody, List.dropWhile_cons_of_neg (by decide),
        lexChars_separator (by decide), ih]

/-- A gap that is there ends a word. -/
theorem delimits (h : IsGap gap) (hne : gap ≠ []) (rest : List Char) :
    Delimits (gap ++ rest) := by
  cases h with
  | nil => exact absurd rfl hne
  | separator hc => exact delimits_cons (isSymbolChar_of_isSeparator hc) _
  | comment => exact delimits_cons (by decide) _

end IsGap

namespace IsLastGap

theorem lexChars_eq_nil (h : IsLastGap gap) : lexChars gap = [] := by
  cases h with
  | closed hgap => rw [← List.append_nil gap, hgap.lexChars_append, lexChars_nil]
  | @opened gap body hgap hbody =>
      rw [hgap.lexChars_append, lexChars_comment, ← List.append_nil body,
        dropWhile_comment hbody, List.dropWhile_nil, lexChars_nil]

theorem delimits (h : IsLastGap gap) : Delimits gap := by
  cases h with
  | closed hgap =>
      cases hgap with
      | nil => exact fun _ h => nomatch h
      | separator hc => exact delimits_cons (isSymbolChar_of_isSeparator hc) _
      | comment => exact delimits_cons (by decide) _
  | @opened gap body hgap =>
      by_cases hne : gap = []
      · subst hne
        exact delimits_cons (by decide) body
      · exact hgap.delimits hne _

end IsLastGap

/-! ## Proper tokens -/

/-- What may stand between the quotes of a string token, in units: a character other than
    backslash and quote, or a backslash with any character but a newline. -/
inductive IsUnits : List Char → Prop where
  | nil : IsUnits []
  | plain {c : Char} {cs : List Char} : c ≠ '\\' → c ≠ '"' → IsUnits cs → IsUnits (c :: cs)
  | escape {c : Char} {cs : List Char} : c ≠ '\n' → IsUnits cs → IsUnits ('\\' :: c :: cs)

/-- Parentheses, words, and strings with a closing quote. -/
inductive IsProper : Token → Prop where
  | opening : IsProper Token.opening
  | closing : IsProper Token.closing
  | word {word : List Char} : IsWord word → IsProper (Token.symbol word)
  | string {units : List Char} : IsUnits units → IsProper (Token.string ('"' :: units ++ ['"']))

/-- The tail of a closed string ends at its quote. -/
theorem IsUnits.stringTail_append {units : List Char} (h : IsUnits units) (rest : List Char) :
    stringTail (units ++ '"' :: rest) = (units ++ ['"'], rest) := by
  induction h with
  | nil => rfl
  | plain hbackslash hquote _ ih =>
      rw [List.cons_append, stringTail_cons_of_ne hbackslash hquote, ih]
      rfl
  | escape hnewline _ ih =>
      rw [List.cons_append, List.cons_append, stringTail, if_neg hnewline, ih]
      rfl

namespace IsProper

variable {token : Token}

/-- A proper token is cut off whole; a word needs an end for that. -/
theorem lexChars_append (h : token.IsProper) (hrest : token.kind = .symbol → Delimits rest) :
    lexChars (token.text.toList ++ rest) = token :: lexChars rest := by
  cases h with
  | opening => exact lexChars_opening rest
  | closing => exact lexChars_closing rest
  | word hword =>
      rw [Token.symbol, String.toList_ofList]
      exact lexChars_word hword (hrest rfl)
  | @string units hunits =>
      rw [Token.string, String.toList_ofList, List.cons_append, List.cons_append,
        List.append_assoc, List.singleton_append, lexChars_quote,
        hunits.stringTail_append]
      rfl

/-- Tokens other than words end a word. -/
theorem delimits (h : token.IsProper) (hkind : token.kind ≠ .symbol) (rest : List Char) :
    Delimits (token.text.toList ++ rest) := by
  cases h with
  | opening => exact delimits_cons (by decide) rest
  | closing => exact delimits_cons (by decide) rest
  | word => exact absurd rfl hkind
  | string =>
      rw [Token.string, String.toList_ofList]
      exact delimits_cons (by decide) _

end IsProper

/-! ## Layouts -/

/-- A token with the gap in front of it. -/
structure Piece where
  gap : List Char
  token : Token

/-- Two tokens that can be told apart: between two words there is a gap. -/
def Piece.Apart (p q : Piece) : Prop :=
  p.token.kind = .symbol → q.token.kind = .symbol → q.gap ≠ []

/-- A text cut into its tokens, each with the gap in front of it, and the gap behind the last. -/
structure Layout where
  pieces : List Piece
  last : List Char
  gaps : ∀ piece ∈ pieces, IsGap piece.gap
  ending : IsLastGap last
  apart : pieces.IsChain Piece.Apart

/-- The text of pieces with something behind them. -/
def Piece.chars (last : List Char) : List Piece → List Char
  | [] => last
  | piece :: rest => piece.gap ++ (piece.token.text.toList ++ chars last rest)

namespace Layout

/-- The tokens of a layout. -/
def tokens (l : Layout) : List Token := l.pieces.map Piece.token

/-- The text of a layout. -/
def text (l : Layout) : String := String.ofList (Piece.chars l.last l.pieces)

end Layout

section Pieces

variable {last : List Char} {pieces : List Piece}

/-- What follows a word ends it, if it does not go on with a word at once. -/
theorem delimits_chars (hlast : IsLastGap last) (hgaps : ∀ piece ∈ pieces, IsGap piece.gap)
    (hproper : ∀ piece ∈ pieces, piece.token.IsProper)
    (hhead : ∀ piece ∈ pieces.head?, piece.token.kind = .symbol → piece.gap ≠ []) :
    Delimits (Piece.chars last pieces) := by
  cases pieces with
  | nil => exact hlast.delimits
  | cons piece rest =>
      obtain ⟨gap, token⟩ := piece
      by_cases hgap : gap = []
      · subst hgap
        have hkind : token.kind ≠ .symbol := fun hkind => hhead ⟨[], token⟩ rfl hkind rfl
        exact (hproper ⟨[], token⟩ List.mem_cons_self).delimits hkind _
      · exact (hgaps ⟨gap, token⟩ List.mem_cons_self).delimits hgap _

/-- Pieces are cut off one by one. -/
theorem lexChars_chars (hlast : IsLastGap last) (hgaps : ∀ piece ∈ pieces, IsGap piece.gap)
    (hproper : ∀ piece ∈ pieces, piece.token.IsProper) (hapart : pieces.IsChain Piece.Apart) :
    lexChars (Piece.chars last pieces) = pieces.map Piece.token := by
  induction pieces with
  | nil => exact hlast.lexChars_eq_nil
  | cons piece rest ih =>
      obtain ⟨hgap, hgaps⟩ := List.forall_mem_cons.mp hgaps
      obtain ⟨htoken, hproper⟩ := List.forall_mem_cons.mp hproper
      obtain ⟨hhead, hapart⟩ := List.isChain_cons.mp hapart
      have hrest : piece.token.kind = .symbol → Delimits (Piece.chars last rest) :=
        fun hkind => delimits_chars hlast hgaps hproper fun next hnext => hhead next hnext hkind
      rw [Piece.chars, hgap.lexChars_append, htoken.lexChars_append hrest, ih hgaps hproper hapart]
      rfl

end Pieces

/-- **Layout does not matter to the lexer.**  Whatever the gaps before, between and behind
    proper tokens, the lexer finds exactly these tokens in the text. -/
theorem lex_layout (l : Layout) (h : ∀ token ∈ l.tokens, token.IsProper) :
    lex l.text = l.tokens := by
  rw [lex, Layout.text, String.toList_ofList]
  exact lexChars_chars l.ending l.gaps (List.forall_mem_map.mp h) l.apart

/-- Quotes and parentheses in comments, a semicolon and a line's end in a string, and tokens
    that touch. -/
def crowded : Layout where
  pieces :=
    [⟨';' :: " \"(".toList ++ '\n' :: [' '], symbol ['a']⟩,
      ⟨[], string ('"' :: ['b', ';', '\\', '"', '\n'] ++ ['"'])⟩,
      ⟨[' ', ','], opening⟩,
      ⟨[], symbol ['d']⟩,
      ⟨';' :: ")".toList ++ '\n' :: [], symbol ['e']⟩,
      ⟨[], closing⟩]
  last := [' '] ++ ';' :: "\"".toList
  gaps := by
    simp only [List.forall_mem_cons]
    exact ⟨.comment (by decide) (.separator (by decide) .nil), .nil,
      .separator (by decide) (.separator (by decide) .nil), .nil, .comment (by decide) .nil, .nil,
      List.forall_mem_nil _⟩
  ending := .opened (.separator (by decide) .nil) (by decide)
  apart := by simp [Piece.Apart, symbol, opening, closing, string]

theorem lex_layout_of_crowded :
    (∀ token ∈ crowded.tokens, token.IsProper) ∧
      crowded.text = "; \"(\n a\"b;\\\"\n\" ,(d;)\ne) ;\"" ∧
      lex "; \"(\n a\"b;\\\"\n\" ,(d;)\ne) ;\"" =
        [⟨.symbol, "a"⟩, ⟨.string, "\"b;\\\"\n\""⟩, ⟨.opening, "("⟩, ⟨.symbol, "d"⟩,
          ⟨.symbol, "e"⟩, ⟨.closing, ")"⟩] := by
  have hproper : ∀ token ∈ crowded.tokens, token.IsProper := by
    simp only [crowded, Layout.tokens, List.map_cons, List.map_nil, List.forall_mem_cons]
    have hword : ∀ c, isSymbolChar c = true → (symbol [c]).IsProper := fun c hc =>
      .word ⟨List.cons_ne_nil _ _, List.forall_mem_singleton.mpr hc⟩
    refine ⟨hword _ (by decide), .string ?_, .opening, hword _ (by decide), hword _ (by decide),
      .closing, List.forall_mem_nil _⟩
    exact .plain (by decide) (by decide) (.plain (by decide) (by decide)
      (.escape (by decide) (.plain (by decide) (by decide) .nil)))
  exact ⟨hproper, by decide, lex_layout crowded hproper⟩

end TailLisp.Token
