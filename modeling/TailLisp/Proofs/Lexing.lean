import Mathlib.Data.List.TakeWhile
import TailLisp.Proofs.StringLiterals

/-! # Lexing — one token at a time

    What the lexer does next is decided by the next character, so there is one
    equation for each kind of character.  From these follow:

    * **`lexChars_word`**, **`lexChars_encode`** — a word in front of something that is
      no symbol character, and a written string in front of anything, are cut off whole.
    * **`IsLexed`** — which tokens can come of a text at all. -/

namespace TailLisp.Token

open StringLiteral

variable {c : Char} {cs rest : List Char}

/-! ## The next character -/

theorem isSymbolChar_iff :
    isSymbolChar c = true ↔
      isSeparator c = false ∧ c ≠ '(' ∧ c ≠ ')' ∧ c ≠ ';' ∧ c ≠ '"' := by
  simp [isSymbolChar, and_assoc]

@[simp] theorem lexChars_nil : lexChars [] = [] := by
  rw [lexChars.eq_def]

theorem lexChars_cons (c : Char) (cs : List Char) :
    lexChars (c :: cs) =
      if isSeparator c then lexChars cs
      else if c = ';' then lexChars (cs.dropWhile (· != '\n'))
      else if c = '(' then opening :: lexChars cs
      else if c = ')' then closing :: lexChars cs
      else if c = '"' then
        string ('"' :: (stringTail cs).1) :: lexChars (stringTail cs).2
      else
        symbol (c :: cs.takeWhile isSymbolChar) :: lexChars (cs.dropWhile isSymbolChar) := by
  rw [lexChars.eq_def]

theorem lexChars_separator (h : isSeparator c = true) (cs : List Char) :
    lexChars (c :: cs) = lexChars cs := by
  rw [lexChars_cons, if_pos h]

/-- A comment is skipped up to the end of its line. -/
theorem lexChars_comment (cs : List Char) :
    lexChars (';' :: cs) = lexChars (cs.dropWhile (· != '\n')) := by
  rw [lexChars_cons, if_neg (by decide), if_pos rfl]

theorem lexChars_opening (cs : List Char) : lexChars ('(' :: cs) = opening :: lexChars cs := by
  rw [lexChars_cons, if_neg (by decide), if_neg (by decide), if_pos rfl]

theorem lexChars_closing (cs : List Char) : lexChars (')' :: cs) = closing :: lexChars cs := by
  rw [lexChars_cons, if_neg (by decide), if_neg (by decide), if_neg (by decide), if_pos rfl]

theorem lexChars_quote (cs : List Char) :
    lexChars ('"' :: cs) = string ('"' :: (stringTail cs).1) :: lexChars (stringTail cs).2 := by
  rw [lexChars_cons, if_neg (by decide), if_neg (by decide), if_neg (by decide), if_neg (by decide),
    if_pos rfl]

theorem lexChars_symbolChar (h : isSymbolChar c = true) (cs : List Char) :
    lexChars (c :: cs) =
      symbol (c :: cs.takeWhile isSymbolChar) :: lexChars (cs.dropWhile isSymbolChar) := by
  obtain ⟨hseparator, hopening, hclosing, hcomment, hquote⟩ := isSymbolChar_iff.mp h
  have hseparator : ¬ isSeparator c = true := by
    rw [hseparator]
    exact Bool.false_ne_true
  rw [lexChars_cons, if_neg hseparator, if_neg hcomment, if_neg hopening, if_neg hclosing,
    if_neg hquote]

/-! ## Whole tokens -/

/-- A word: the characters of a symbol token. -/
structure IsWord (word : List Char) : Prop where
  ne_nil : word ≠ []
  chars : ∀ c ∈ word, isSymbolChar c = true

/-- A text that does not go on with a word. -/
def Delimits (rest : List Char) : Prop :=
  ∀ c ∈ rest.head?, isSymbolChar c = false

theorem Delimits.head {d : Char} (h : Delimits (d :: rest)) : ¬ isSymbolChar d = true := by
  rw [h d rfl]
  exact Bool.false_ne_true

theorem takeWhile_append_of_delimits (hword : ∀ c ∈ cs, isSymbolChar c = true)
    (hrest : Delimits rest) : (cs ++ rest).takeWhile isSymbolChar = cs := by
  rw [List.takeWhile_append_of_pos hword]
  cases rest with
  | nil => exact List.append_nil cs
  | cons d rest => rw [List.takeWhile_cons_of_neg hrest.head, List.append_nil]

theorem dropWhile_append_of_delimits (hword : ∀ c ∈ cs, isSymbolChar c = true)
    (hrest : Delimits rest) : (cs ++ rest).dropWhile isSymbolChar = rest := by
  rw [List.dropWhile_append_of_pos hword]
  cases rest with
  | nil => rfl
  | cons d rest => exact List.dropWhile_cons_of_neg hrest.head

/-- A word is one symbol token. -/
theorem lexChars_word {word : List Char} (hword : IsWord word) (hrest : Delimits rest) :
    lexChars (word ++ rest) = symbol word :: lexChars rest := by
  obtain ⟨hne, hchars⟩ := hword
  cases word with
  | nil => exact absurd rfl hne
  | cons c cs =>
      obtain ⟨hc, hcs⟩ := List.forall_mem_cons.mp hchars
      rw [List.cons_append, lexChars_symbolChar hc, takeWhile_append_of_delimits hcs hrest,
        dropWhile_append_of_delimits hcs hrest]

/-- A written string is one string token, whatever follows. -/
theorem lexChars_encode (text rest : List Char) :
    lexChars (encode text ++ rest) = string (encode text) :: lexChars rest := by
  have hsplit : encode text ++ rest = '"' :: (text.flatMap encodeChar ++ '"' :: rest) := by
    rw [encode, List.append_assoc, List.singleton_append, List.cons_append]
  rw [hsplit, lexChars_quote, stringTail_encoded]
  rfl

/-! ## What comes of a text -/

/-- The tokens that the lexer can make. -/
inductive IsLexed : Token → Prop where
  | opening : IsLexed Token.opening
  | closing : IsLexed Token.closing
  | string (cs : List Char) : IsLexed (Token.string ('"' :: cs))
  | symbol {word : List Char} : IsWord word → IsLexed (Token.symbol word)

theorem isLexed_of_mem_lexChars {token : Token} (h : token ∈ lexChars cs) : token.IsLexed := by
  fun_induction lexChars cs with
  | case1 => exact nomatch h
  | case2 c cs _ ih | case3 cs _ ih => exact ih h
  | case4 cs _ _ ih =>
      rcases List.mem_cons.mp h with rfl | hrest
      · exact .opening
      · exact ih hrest
  | case5 cs _ _ _ ih =>
      rcases List.mem_cons.mp h with rfl | hrest
      · exact .closing
      · exact ih hrest
  | case6 cs _ _ _ _ ih =>
      rcases List.mem_cons.mp h with rfl | hrest
      · exact .string _
      · exact ih hrest
  | case7 c cs hseparator hcomment hopening hclosing hquote ih =>
      rcases List.mem_cons.mp h with rfl | hrest
      · have hc : isSymbolChar c = true :=
          isSymbolChar_iff.mpr
            ⟨Bool.not_eq_true _ ▸ hseparator, hopening, hclosing, hcomment, hquote⟩
        refine .symbol ⟨List.cons_ne_nil _ _, List.forall_mem_cons.mpr ⟨hc, ?_⟩⟩
        intro d hd
        exact List.mem_takeWhile_imp hd
      · exact ih hrest

end TailLisp.Token
