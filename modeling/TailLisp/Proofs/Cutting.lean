import TailLisp.Proofs.Layout

/-! # Cutting — the lexer as a loop, and the layout of any text

    The lexer may be read as a loop.  Each turn skips separators and lets the first of five
    rules that applies cut off a comment or a token; the loop ends when none applies.

    * **`Cuts`** — what one turn can do.  All facts about a turn come of this relation: it makes
      progress, it agrees with the lexer, and nothing but what it cuts off is lost.
    * **`cut?_eq_none_iff`** — no rule applies only when separators are all that is left.
    * **`exists_layout`** — every text, well formed or not, has a layout of its tokens.  The
      induction goes turn by turn and carries the gap skipped so far. -/

namespace TailLisp.Token

variable {cs rest : List Char}

/-! ## One turn of the loop -/

/-- What a rule cuts off the front of a text, and what it leaves. -/
abbrev Cut := Option Token × List Char

/-- A rule for what starts with a given character: what is cut off depends on what follows. -/
def leading (c : Char) (cut : List Char → Cut) : List Char → Option Cut
  | [] => none
  | d :: cs => if d = c then some (cut cs) else none

/-- The rule for a word: as many symbol characters as there are, but at least one. -/
def word? (cs : List Char) : Option Cut :=
  if cs.takeWhile isSymbolChar = [] then none
  else some (some (symbol (cs.takeWhile isSymbolChar)), cs.dropWhile isSymbolChar)

/-- The rules in the order in which they are tried: a comment up to the end of its line, the
    parentheses, a string with its units and, where there is one, its closing quote, a word. -/
def rules : List (List Char → Option Cut) :=
  [leading ';' fun cs => (none, cs.dropWhile (· != '\n')),
    leading '(' fun cs => (some opening, cs),
    leading ')' fun cs => (some closing, cs),
    leading '"' fun cs => (some (string ('"' :: (stringTail cs).1)), (stringTail cs).2),
    word?]

/-- One turn: what the first rule that applies cuts off behind the separators. -/
def cut? (cs : List Char) : Option Cut :=
  rules.findSome? fun rule => rule (cs.dropWhile isSeparator)

/-- What can be cut off a text that does not start with a separator. -/
inductive Cuts : List Char → Cut → Prop where
  | comment (cs : List Char) : Cuts (';' :: cs) (none, cs.dropWhile (· != '\n'))
  | opening (cs : List Char) : Cuts ('(' :: cs) (some opening, cs)
  | closing (cs : List Char) : Cuts (')' :: cs) (some closing, cs)
  | string (cs : List Char) :
      Cuts ('"' :: cs) (some (string ('"' :: (stringTail cs).1)), (stringTail cs).2)
  | word {word rest : List Char} : IsWord word → Delimits rest →
      Cuts (word ++ rest) (some (symbol word), rest)

theorem delimits_dropWhile (cs : List Char) : Delimits (cs.dropWhile isSymbolChar) := by
  intro c hc
  have h := List.head?_dropWhile_not isSymbolChar cs
  rw [Option.mem_def.mp hc] at h
  exact h

theorem eq_of_leading {c : Char} {cut : List Char → Cut} {result : Cut}
    (h : leading c cut cs = some result) : ∃ rest, cs = c :: rest ∧ cut rest = result := by
  cases cs with
  | nil => cases h
  | cons d rest =>
      rw [leading] at h
      by_cases hd : d = c
      · rw [if_pos hd] at h
        exact ⟨rest, congrArg (· :: rest) hd, Option.some.inj h⟩
      · rw [if_neg hd] at h
        cases h

theorem ne_of_leading {c d : Char} {cut : List Char → Cut}
    (h : leading c cut (d :: rest) = none) : d ≠ c := by
  rintro rfl
  rw [leading, if_pos rfl] at h
  cases h

theorem cuts_of_word? {cut : Cut} (h : word? cs = some cut) : Cuts cs cut := by
  rw [word?] at h
  by_cases hne : cs.takeWhile isSymbolChar = []
  · rw [if_pos hne] at h
    cases h
  · rw [if_neg hne] at h
    have hword : IsWord (cs.takeWhile isSymbolChar) :=
      ⟨hne, fun c hc => List.mem_takeWhile_imp hc⟩
    have hcuts := Cuts.word hword (delimits_dropWhile cs)
    rw [List.takeWhile_append_dropWhile] at hcuts
    exact Option.some.inj h ▸ hcuts

/-- What a rule cuts off can be cut off. -/
theorem cuts_of_mem_rules {rule : List Char → Option Cut} (hrule : rule ∈ rules) {cut : Cut}
    (h : rule cs = some cut) : Cuts cs cut := by
  simp only [rules, List.mem_cons, List.not_mem_nil, or_false] at hrule
  rcases hrule with rfl | rfl | rfl | rfl | rfl
  · obtain ⟨rest, rfl, rfl⟩ := eq_of_leading h
    exact .comment rest
  · obtain ⟨rest, rfl, rfl⟩ := eq_of_leading h
    exact .opening rest
  · obtain ⟨rest, rfl, rfl⟩ := eq_of_leading h
    exact .closing rest
  · obtain ⟨rest, rfl, rfl⟩ := eq_of_leading h
    exact .string rest
  · exact cuts_of_word? h

/-- A turn skips separators and cuts one thing off. -/
theorem cuts_of_cut? {cut : Cut} (h : cut? cs = some cut) :
    ∃ gap after, cs = gap ++ after ∧ (∀ c ∈ gap, isSeparator c = true) ∧ Cuts after cut := by
  obtain ⟨rule, hrule, hcut⟩ := List.exists_of_findSome?_eq_some h
  exact ⟨cs.takeWhile isSeparator, cs.dropWhile isSeparator,
    List.takeWhile_append_dropWhile.symm, fun c hc => List.mem_takeWhile_imp hc,
    cuts_of_mem_rules hrule hcut⟩

/-- Every character is a separator or what some rule looks for. -/
theorem isSeparator_of_rules_eq_none {c : Char}
    (h : ∀ rule ∈ rules, rule (c :: rest) = none) : isSeparator c = true := by
  simp only [rules, List.forall_mem_cons] at h
  obtain ⟨hcomment, hopening, hclosing, hquote, hword, -⟩ := h
  by_contra hseparator
  have hsymbol : isSymbolChar c = true :=
    isSymbolChar_iff.mpr ⟨Bool.not_eq_true _ ▸ hseparator, ne_of_leading hopening,
      ne_of_leading hclosing, ne_of_leading hcomment, ne_of_leading hquote⟩
  rw [word?, List.takeWhile_cons_of_pos hsymbol, if_neg (List.cons_ne_nil _ _)] at hword
  cases hword

/-- **A rule applies unless nothing but separators is left.** -/
theorem cut?_eq_none_iff : cut? cs = none ↔ ∀ c ∈ cs, isSeparator c = true := by
  rw [← List.dropWhile_eq_nil_iff, cut?, List.findSome?_eq_none_iff]
  constructor
  · intro hrules
    have hhead := List.head?_dropWhile_not isSeparator cs
    cases hrest : cs.dropWhile isSeparator with
    | nil => rfl
    | cons c rest =>
        rw [hrest] at hrules hhead
        have hseparator := isSeparator_of_rules_eq_none hrules
        rw [hhead] at hseparator
        cases hseparator
  · intro hnil rule hrule
    rw [hnil]
    simp only [rules, List.mem_cons, List.not_mem_nil, or_false] at hrule
    rcases hrule with rfl | rfl | rfl | rfl | rfl <;> rfl

/-! ## The loop -/

/-- A turn makes progress. -/
theorem Cuts.length_lt {cut : Cut} (h : Cuts cs cut) : cut.2.length < cs.length := by
  cases h with
  | comment cs => exact Nat.lt_succ_of_le (dropWhile_length_le _ cs)
  | opening | closing => exact Nat.lt_succ_self _
  | string cs => exact Nat.lt_succ_of_le (stringTail_rest_length_le cs)
  | word hword =>
      rw [List.length_append]
      exact Nat.lt_add_of_pos_left (List.length_pos_iff.mpr hword.ne_nil)

theorem cut?_length_lt {cut : Cut} (h : cut? cs = some cut) : cut.2.length < cs.length := by
  obtain ⟨gap, after, rfl, -, hcuts⟩ := cuts_of_cut? h
  rw [List.length_append]
  exact Nat.lt_add_left _ hcuts.length_lt

/-- The tokens that the turns of the loop cut off, until no rule applies. -/
def cutAll (cs : List Char) : List Token :=
  match _h : cut? cs with
  | none => []
  | some (token?, rest) => token?.toList ++ cutAll rest
termination_by cs.length
decreasing_by exact cut?_length_lt _h

theorem cutAll_of_none (h : cut? cs = none) : cutAll cs = [] := by
  rw [cutAll]
  split <;> simp_all

theorem cutAll_of_some {token? : Option Token} (h : cut? cs = some (token?, rest)) :
    cutAll cs = token?.toList ++ cutAll rest := by
  rw [cutAll]
  split <;> simp_all

/-- The lexer finds what is cut off and goes on with the rest. -/
theorem Cuts.lexChars {cut : Cut} (h : Cuts cs cut) :
    lexChars cs = cut.1.toList ++ lexChars cut.2 := by
  cases h with
  | comment cs => exact lexChars_comment cs
  | opening cs => exact lexChars_opening cs
  | closing cs => exact lexChars_closing cs
  | string cs => exact lexChars_quote cs
  | word hword hrest => exact lexChars_word hword hrest

/-- Separators are a gap. -/
theorem IsGap.of_separators {gap : List Char} (h : ∀ c ∈ gap, isSeparator c = true) :
    IsGap gap := by
  induction gap with
  | nil => exact .nil
  | cons c gap ih =>
      obtain ⟨hc, hgap⟩ := List.forall_mem_cons.mp h
      exact .separator hc (ih hgap)

/-- The lexer is the loop. -/
theorem cutAll_eq_lexChars (cs : List Char) : cutAll cs = lexChars cs := by
  fun_induction cutAll cs with
  | case1 cs h =>
      rw [(IsLastGap.closed (.of_separators (cut?_eq_none_iff.mp h))).lexChars_eq_nil]
  | case2 cs token? rest h ih =>
      obtain ⟨gap, after, rfl, hgap, hcuts⟩ := cuts_of_cut? h
      rw [(IsGap.of_separators hgap).lexChars_append, hcuts.lexChars, ih]

/-! ## The layout of a text -/

theorem IsGap.append {gap gap' : List Char} (h : IsGap gap) (h' : IsGap gap') :
    IsGap (gap ++ gap') := by
  induction h with
  | nil => exact h'
  | separator hc _ ih => exact .separator hc ih
  | @comment body gap hbody _ ih =>
      rw [List.append_assoc]
      exact .comment hbody ih

namespace Layout

/-- A text without tokens. -/
def ofLast {last : List Char} (h : IsLastGap last) : Layout where
  pieces := []
  last := last
  gaps := List.forall_mem_nil _
  ending := h
  apart := .nil

/-- One more piece in front. -/
def cons (piece : Piece) (l : Layout) (hgap : IsGap piece.gap)
    (hapart : ∀ next ∈ l.pieces.head?, piece.Apart next) : Layout where
  pieces := piece :: l.pieces
  last := l.last
  gaps := List.forall_mem_cons.mpr ⟨hgap, l.gaps⟩
  ending := l.ending
  apart := List.isChain_cons.mpr ⟨hapart, l.apart⟩

/-- What stands in a text after a word is no second word that touches it. -/
theorem gap_ne_nil (l : Layout) (hlexed : ∀ token ∈ l.tokens, token.IsLexed)
    (hdelimits : Delimits (Piece.chars l.last l.pieces)) :
    ∀ next ∈ l.pieces.head?, next.token.kind = .symbol → next.gap ≠ [] := by
  rw [tokens, List.forall_mem_map] at hlexed
  cases hpieces : l.pieces with
  | nil => rintro next ⟨⟩
  | cons piece pieces =>
      rintro _ ⟨⟩ hkind hgap
      rw [hpieces] at hlexed hdelimits
      have htoken : piece.token.IsLexed := hlexed piece List.mem_cons_self
      rw [Piece.chars, hgap, List.nil_append] at hdelimits
      generalize piece.token = token at htoken hkind hdelimits
      cases htoken with
      | opening | closing | string => cases hkind
      | @symbol word hword =>
          obtain ⟨hne, hchars⟩ := hword
          cases word with
          | nil => exact hne rfl
          | cons c word =>
              have hc : isSymbolChar c = false := hdelimits c (by simp [symbol])
              rw [hchars c List.mem_cons_self] at hc
              cases hc

end Layout

/-- A token that is cut off stands in front of the rest, and a word stops where it must. -/
theorem Cuts.of_token {token : Token} (h : Cuts cs (some token, rest)) :
    cs = token.text.toList ++ rest ∧ (token.kind = .symbol → Delimits rest) := by
  cases h with
  | opening | closing => exact ⟨rfl, fun h => nomatch h⟩
  | string cs =>
      refine ⟨?_, fun h => nomatch h⟩
      rw [Token.string, String.toList_ofList, List.cons_append, stringTail_append]
  | word _ hrest =>
      refine ⟨?_, fun _ => hrest⟩
      rw [Token.symbol, String.toList_ofList]

/-- A comment ends where its line does. -/
theorem Cuts.of_comment (h : Cuts cs (none, rest)) :
    ∃ body, '\n' ∉ body ∧ cs = ';' :: body ++ rest ∧
      (rest = [] ∨ ∃ after, rest = '\n' :: after) := by
  cases h with
  | comment cs =>
      refine ⟨cs.takeWhile (· != '\n'), fun h => ?_, ?_, ?_⟩
      · exact absurd (List.mem_takeWhile_imp h) (by decide)
      · rw [List.cons_append, List.takeWhile_append_dropWhile]
      · have h := List.head?_dropWhile_not (· != '\n') cs
        cases hrest : cs.dropWhile (· != '\n') with
        | nil => exact .inl rfl
        | cons c after =>
            rw [hrest] at h
            obtain rfl : c = '\n' := by simpa using h
            exact .inr ⟨after, rfl⟩

/-- Every text has a layout of the tokens that the lexer finds in it. -/
theorem exists_layout {front : List Char} (hfront : IsGap front) (cs : List Char) :
    ∃ l : Layout, Piece.chars l.last l.pieces = front ++ cs ∧ l.tokens = lexChars cs := by
  induction hlength : cs.length using Nat.strongRecOn generalizing front cs with
  | ind n ih =>
    subst hlength
    cases hcut : cut? cs with
    | none =>
        have hgap : IsGap cs := .of_separators (cut?_eq_none_iff.mp hcut)
        exact ⟨.ofLast (.closed (hfront.append hgap)), rfl,
          (IsLastGap.closed hgap).lexChars_eq_nil.symm⟩
    | some cut =>
        have hprogress := cut?_length_lt hcut
        obtain ⟨token?, rest⟩ := cut
        obtain ⟨gap, after, rfl, hseparators, hcuts⟩ := cuts_of_cut? hcut
        have hgap : IsGap gap := .of_separators hseparators
        rw [hgap.lexChars_append, hcuts.lexChars, ← List.append_assoc]
        cases token? with
        | none =>
            obtain ⟨body, hbody, rfl, rfl | ⟨after, rfl⟩⟩ := hcuts.of_comment
            · refine ⟨.ofLast (.opened (hfront.append hgap) hbody), ?_, ?_⟩
              · rw [List.append_nil]
                rfl
              · exact lexChars_nil.symm
            · -- the end of the line belongs to the gap
              have hwide : IsGap (front ++ gap ++ (';' :: body ++ ['\n'])) :=
                (hfront.append hgap).append (.comment hbody .nil)
              obtain ⟨l, hchars, htokens⟩ :=
                ih after.length (Nat.lt_of_succ_lt hprogress) hwide after rfl
              refine ⟨l, ?_, ?_⟩
              · rw [hchars]
                simp only [List.append_assoc, List.cons_append, List.nil_append]
              · rw [htokens, lexChars_separator (by decide)]
                rfl
        | some token =>
            obtain ⟨rfl, hdelimits⟩ := hcuts.of_token
            obtain ⟨l, hchars, htokens⟩ := ih rest.length hprogress .nil rest rfl
            have hlexed : ∀ token ∈ l.tokens, token.IsLexed := by
              rw [htokens]
              exact fun _ => isLexed_of_mem_lexChars
            have hapart : ∀ next ∈ l.pieces.head?, Piece.Apart ⟨front ++ gap, token⟩ next :=
              fun next hnext hkind => l.gap_ne_nil hlexed (hchars ▸ hdelimits hkind) next hnext
            refine ⟨l.cons ⟨front ++ gap, token⟩ (hfront.append hgap) hapart, ?_, ?_⟩
            · simp only [Layout.cons, Piece.chars, hchars, List.nil_append]
            · rw [← htokens]
              rfl

/-- The tokens that the lexer makes have a text. -/
theorem IsLexed.text_ne_empty {token : Token} (h : token.IsLexed) : token.text ≠ "" := by
  cases h with
  | opening | closing => decide
  | string cs => exact fun h => nomatch String.ofList_eq_empty_iff.mp h
  | symbol hword => exact fun h => hword.ne_nil (String.ofList_eq_empty_iff.mp h)

/-- **The lexer loses and invents nothing.**  Every text is laid out as the tokens found in it
    with gaps around them: each token has the shape of its kind and a text, and two words do not
    touch.  The lexer is a loop whose turns all make progress, and which ends only where nothing
    but separators is left. -/
theorem lex_covers (source : String) :
    (∃ l : Layout, l.text = source ∧ l.tokens = lex source ∧
      ∀ token ∈ l.tokens, token.IsLexed ∧ token.text ≠ "") ∧
    lex source = cutAll source.toList ∧
    (∀ rest token? after, cut? rest = some (token?, after) → after.length < rest.length) ∧
    ∀ rest, cut? rest = none ↔ ∀ c ∈ rest, isSeparator c = true := by
  refine ⟨?_, (cutAll_eq_lexChars _).symm, fun _ _ _ => cut?_length_lt, fun _ => cut?_eq_none_iff⟩
  obtain ⟨l, hchars, htokens⟩ := exists_layout .nil source.toList
  refine ⟨l, ?_, htokens, fun token htoken => ?_⟩
  · rw [Layout.text, hchars, List.nil_append, String.ofList_toList]
  · rw [htokens] at htoken
    have hlexed := isLexed_of_mem_lexChars htoken
    exact ⟨hlexed, hlexed.text_ne_empty⟩

end TailLisp.Token
