import TailLisp.Proofs.Cutting

/-! # Closing quotes — where a string ends, for the decoder and for the lexer

    The decoder judges a closing quote from the right: it is escaped if an odd run of
    backslashes stands before it.  The lexer comes from the left, one unit at a time, and stops
    at a quote that no unit takes.  Both find the same quotes.

    * **`literals_decoded_by_units`** — the decoder accepts the literals with a closing quote
      whose bodies are in units.  No other fault comes up than a missing quote and the first
      backslash without an escape.
    * **`units_stringTail`** — behind an opening quote the lexer takes units up to a closing
      quote, to the end, or to a backslash that cannot be paired.
    * **`closing_quotes_agree`** — so the decoder misses the closing quote of exactly those
      string tokens for which the lexer found none. -/

namespace TailLisp

/-! ## From the right -/

namespace StringLiteral

variable {literal body text : List Char} {c : Char}

/-- A run of backslashes of odd length at the end, and no backslash in front of it. -/
def EndsInOddRun (body : List Char) : Prop :=
  ∃ front n, body = front ++ List.replicate n '\\' ∧ front.getLast? ≠ some '\\' ∧ n % 2 = 1

/-- A literal without a closing quote: too short, without a quote at its end, or with one that
    is escaped. -/
def Unfinished (literal : List Char) : Prop :=
  literal.length < 2 ∨ literal.getLast? ≠ some '"' ∨ EndsInOddRun literal.tail.dropLast

/-- What is counted from the right is the run at the end. -/
theorem endsEscaping_iff : endsEscaping body = true ↔ EndsInOddRun body := by
  constructor
  · intro h
    have hrun : body.reverse.takeWhile (· == '\\') =
        List.replicate (body.reverse.takeWhile (· == '\\')).length '\\' := by
      refine List.eq_replicate_iff.mpr ⟨rfl, ?_⟩
      intro c hc
      exact eq_of_beq (List.mem_takeWhile_imp (p := (· == '\\')) hc)
    refine ⟨(body.reverse.dropWhile (· == '\\')).reverse,
      (body.reverse.takeWhile (· == '\\')).length, ?_, ?_, beq_iff_eq.mp h⟩
    · rw [← List.reverse_replicate, ← hrun, ← List.reverse_append,
        List.takeWhile_append_dropWhile, List.reverse_reverse]
    · rw [List.getLast?_reverse]
      intro hlast
      have hhead := List.head?_dropWhile_not (· == '\\') body.reverse
      rw [hlast] at hhead
      exact absurd hhead (by decide)
  · rintro ⟨front, n, rfl, hfront, hodd⟩
    have hnone : front.reverse.takeWhile (· == '\\') = [] := by
      rw [← List.head?_reverse] at hfront
      cases hrev : front.reverse with
      | nil => rfl
      | cons d rest =>
          rw [hrev] at hfront
          refine List.takeWhile_cons_of_neg ?_
          intro hd
          exact hfront (congrArg some (eq_of_beq hd))
    have hrun : ∀ d ∈ List.replicate n '\\', (d == '\\') = true := by
      intro d hd
      rw [List.eq_of_mem_replicate hd]
      rfl
    rw [endsEscaping, List.reverse_append, List.reverse_replicate,
      List.takeWhile_append_of_pos hrun, hnone, List.append_nil, List.length_replicate]
    exact beq_iff_eq.mpr hodd

theorem decodeBody_eq_ok_iff : decodeBody body = .ok text ↔ InUnits body text := by
  constructor
  · intro h
    have hdecodes := decodes_decodeBody body
    rw [h] at hdecodes
    cases hdecodes with
    | text hunits => exact hunits
  · exact InUnits.decodeBody

theorem decodeBody_eq_unknown_iff :
    decodeBody body = .error (.unreadable (.unknownEscape c)) ↔ BreaksAt body c := by
  constructor
  · intro h
    have hdecodes := decodes_decodeBody body
    rw [h] at hdecodes
    cases hdecodes with
    | unknown hbreaks => exact hbreaks
  · rintro ⟨front, text, rest, hfront, rfl, hc⟩
    rw [hfront.decodeBody_append, decodeBody, escaped?_eq_none_iff.mpr hc]
    rfl

theorem decode_of_unfinished (h : Unfinished literal) :
    decode literal = .error (.unreadable .unterminatedString) := by
  rw [Unfinished, ← endsEscaping_iff] at h
  exact if_pos h

theorem decode_of_finished (h : ¬ Unfinished literal) :
    decode literal = decodeBody literal.tail.dropLast := by
  rw [Unfinished, ← endsEscaping_iff] at h
  exact if_neg h

/-- A literal with a closing quote is not cut off in the middle of a unit. -/
theorem decode_cases_of_finished (h : ¬ Unfinished literal) :
    (∃ text, decode literal = .ok text) ∨
      ∃ c, decode literal = .error (.unreadable (.unknownEscape c)) := by
  rw [decode_of_finished h]
  have hdecodes := decodes_decodeBody literal.tail.dropLast
  generalize decodeBody literal.tail.dropLast = result at hdecodes ⊢
  cases hdecodes with
  | text => exact .inl ⟨_, rfl⟩
  | unknown => exact .inr ⟨_, rfl⟩
  | cutOff hend => exact absurd (.inr (.inr (endsEscaping_iff.mp hend))) h

theorem decode_eq_ok_iff : decode literal = .ok text ↔
    2 ≤ literal.length ∧ literal.getLast? = some '"' ∧ InUnits literal.tail.dropLast text := by
  constructor
  · intro hok
    have hfinished : ¬ Unfinished literal := by
      intro h
      exact nomatch (decode_of_unfinished h).symm.trans hok
    rw [decode_of_finished hfinished, decodeBody_eq_ok_iff] at hok
    obtain ⟨hlength, hlast, -⟩ := not_or.mp hfinished |>.imp_right not_or.mp
    exact ⟨Nat.not_lt.mp hlength, Decidable.not_not.mp hlast, hok⟩
  · rintro ⟨hlength, hlast, hunits⟩
    have hfinished : ¬ Unfinished literal := by
      rintro (hshort | hquote | hend)
      · omega
      · exact hquote hlast
      · exact Bool.false_ne_true (hunits.endsEscaping.symm.trans (endsEscaping_iff.mpr hend))
    rw [decode_of_finished hfinished]
    exact hunits.decodeBody

theorem decode_eq_unterminated_iff :
    decode literal = .error (.unreadable .unterminatedString) ↔ Unfinished literal := by
  constructor
  · intro herror
    by_contra hfinished
    rcases decode_cases_of_finished hfinished with ⟨text, hok⟩ | ⟨c, hunknown⟩
    · exact nomatch hok.symm.trans herror
    · exact nomatch hunknown.symm.trans herror
  · exact decode_of_unfinished

theorem decode_eq_unknown_iff : decode literal = .error (.unreadable (.unknownEscape c)) ↔
    ¬ Unfinished literal ∧ BreaksAt literal.tail.dropLast c := by
  constructor
  · intro hunknown
    have hfinished : ¬ Unfinished literal := by
      intro h
      exact nomatch (decode_of_unfinished h).symm.trans hunknown
    rw [decode_of_finished hfinished] at hunknown
    exact ⟨hfinished, decodeBody_eq_unknown_iff.mp hunknown⟩
  · rintro ⟨hfinished, hbreaks⟩
    rw [decode_of_finished hfinished]
    exact decodeBody_eq_unknown_iff.mpr hbreaks

/-- **Decoding accepts the grammar of literals and nothing else**, and never looks beyond the
    end.  A literal is read if it has a closing quote and is in units between its first and its
    last character, and is read as the text of these units.  It is refused as unterminated if the
    closing quote is missing or escaped, whatever is wrong with its escapes, and otherwise for
    the first backslash without an escape. -/
theorem literals_decoded_by_units (literal : List Char) :
    (∀ text, decode literal = .ok text ↔
      2 ≤ literal.length ∧ literal.getLast? = some '"' ∧ InUnits literal.tail.dropLast text) ∧
    (decode literal = .error (.unreadable .unterminatedString) ↔ Unfinished literal) ∧
    (∀ c, decode literal = .error (.unreadable (.unknownEscape c)) ↔
      ¬ Unfinished literal ∧ BreaksAt literal.tail.dropLast c) ∧
    ((∃ text, decode literal = .ok text) ∨
      decode literal = .error (.unreadable .unterminatedString) ∨
      ∃ c, decode literal = .error (.unreadable (.unknownEscape c))) ∧
    decode literal ≠ .error .outOfRange ∧
    ReadError.unterminatedString.message = "expected '\"', got EOF" ∧
    ∀ c, (ReadError.unknownEscape c).message =
      "unknown escape sequence \\" ++ String.singleton c := by
  refine ⟨fun _ => decode_eq_ok_iff, decode_eq_unterminated_iff, fun _ => decode_eq_unknown_iff,
    ?_, ?_, rfl, fun _ => rfl⟩
  · by_cases h : Unfinished literal
    · exact .inr (.inl (decode_of_unfinished h))
    · exact (decode_cases_of_finished h).imp_right .inr
  · intro h
    obtain ⟨cause, hcause⟩ := decode_fault h
    exact nomatch hcause

/-- The first character does not count: of three backslashes behind it, the last one escapes
    the quote. -/
example : decode ['\\', '\\', '\\', '\\', '"'] = .error (.unreadable .unterminatedString) := rfl

end StringLiteral

/-! ## From the left -/

namespace Token

open StringLiteral

variable {cs units rest : List Char} {token : Token}

/-- What the lexer leaves behind a string without a closing quote: nothing, or a backslash that
    pairs with nothing, at the end of the text or of a line. -/
def CutShort (rest : List Char) : Prop :=
  rest = [] ∨ rest = ['\\'] ∨ ∃ more, rest = '\\' :: '\n' :: more

/-- Behind the opening quote of a string come units, and a closing quote or none. -/
theorem units_stringTail (cs : List Char) :
    ∃ units, IsUnits units ∧ ((stringTail cs).1 = units ++ ['"'] ∨
      (stringTail cs).1 = units ∧ CutShort (stringTail cs).2) := by
  fun_induction stringTail cs with
  | case1 => exact ⟨[], .nil, .inr ⟨rfl, .inl rfl⟩⟩
  | case2 => exact ⟨[], .nil, .inl rfl⟩
  | case3 => exact ⟨[], .nil, .inr ⟨rfl, .inr (.inl rfl)⟩⟩
  | case4 rest => exact ⟨[], .nil, .inr ⟨rfl, .inr (.inr ⟨rest, rfl⟩)⟩⟩
  | case5 c rest hnewline body after hrest ih =>
      rw [hrest] at ih
      obtain ⟨units, hunits, hbody⟩ := ih
      exact ⟨'\\' :: c :: units, .escape hnewline hunits,
        hbody.imp (congrArg ('\\' :: c :: ·)) (.imp_left (congrArg ('\\' :: c :: ·)))⟩
  | case6 c rest hquote hlone hescape body after hrest ih =>
      have hbackslash : c ≠ '\\' := by
        rintro rfl
        cases rest with
        | nil => exact hlone rfl rfl
        | cons d rest => exact hescape d rest rfl rfl
      rw [hrest] at ih
      obtain ⟨units, hunits, hbody⟩ := ih
      exact ⟨c :: units, .plain hbackslash hquote hunits,
        hbody.imp (congrArg (c :: ·)) (.imp_left (congrArg (c :: ·)))⟩

/-- Behind units a quote is not escaped. -/
theorem IsUnits.not_endsEscaping (h : IsUnits units) : endsEscaping units = false := by
  induction h with
  | nil => rfl
  | plain hbackslash _ _ ih =>
      exact (endsEscaping_append (endsEscaping_singleton hbackslash)).trans ih
  | escape _ _ ih => exact (endsEscaping_append (endsEscaping_pair _)).trans ih

/-- Where units end in a quote, it is escaped. -/
theorem IsUnits.endsEscaping {front : List Char} (h : IsUnits units)
    (hfront : units = front ++ ['"']) : StringLiteral.endsEscaping front = true := by
  induction h generalizing front with
  | nil => simp at hfront
  | @plain c cs hbackslash hquote _ ih =>
      cases front with
      | nil => exact absurd (List.cons.inj hfront).1 hquote
      | cons d front =>
          obtain ⟨rfl, hcs⟩ := List.cons.inj hfront
          rw [← ih hcs]
          exact endsEscaping_append (endsEscaping_singleton hbackslash)
  | @escape c cs _ _ ih =>
      match front with
      | [] => exact absurd (List.cons.inj hfront).1 (by decide)
      | [d] =>
          obtain ⟨rfl, -⟩ := List.cons.inj hfront
          rfl
      | d :: e :: front =>
          obtain ⟨rfl, hpair⟩ := List.cons.inj hfront
          obtain ⟨rfl, hcs⟩ := List.cons.inj hpair
          rw [← ih hcs]
          exact endsEscaping_append (endsEscaping_pair c)

/-- A string without a closing quote is not decoded. -/
theorem IsUnits.decode (h : IsUnits units) :
    StringLiteral.decode ('"' :: units) = .error (.unreadable .unterminatedString) := by
  refine decode_of_unfinished ?_
  by_cases hlast : ('"' :: units).getLast? = some '"'
  · rcases List.eq_nil_or_concat units with rfl | ⟨front, d, rfl⟩
    · exact .inl (by decide)
    · refine .inr (.inr ?_)
      rw [List.concat_eq_append] at h hlast ⊢
      obtain rfl : d = '"' := by
        rw [← List.cons_append, List.getLast?_concat] at hlast
        exact Option.some.inj hlast
      rw [List.tail_cons, List.dropLast_concat]
      exact endsEscaping_iff.mp (h.endsEscaping rfl)
  · exact .inr (.inl hlast)

/-! ## From both sides -/

/-- A string token that ends in a closing quote, behind its units. -/
def IsClosed (token : Token) : Prop :=
  ∃ units, IsUnits units ∧ token.text.toList = '"' :: units ++ ['"']

/-- A string token that ends with its units. -/
def IsOpen (token : Token) : Prop :=
  ∃ units, IsUnits units ∧ token.text.toList = '"' :: units

theorem IsClosed.decode_cases (h : token.IsClosed) :
    (∃ text, StringLiteral.decode token.text.toList = .ok text) ∨
      ∃ c, StringLiteral.decode token.text.toList = .error (.unreadable (.unknownEscape c)) := by
  obtain ⟨units, hunits, htoken⟩ := h
  refine decode_cases_of_finished ?_
  rw [htoken]
  rintro (hshort | hquote | hend)
  · rw [List.length_append, List.length_cons, List.length_singleton] at hshort
    omega
  · exact hquote List.getLast?_concat
  · rw [List.cons_append, List.tail_cons, List.dropLast_concat] at hend
    exact Bool.false_ne_true (hunits.not_endsEscaping.symm.trans (endsEscaping_iff.mpr hend))

theorem IsOpen.decode (h : token.IsOpen) :
    StringLiteral.decode token.text.toList = .error (.unreadable .unterminatedString) := by
  obtain ⟨units, hunits, htoken⟩ := h
  rw [htoken]
  exact hunits.decode

/-- No quote is the closing quote of a string and part of its last unit. -/
theorem IsClosed.not_isOpen (h : token.IsClosed) : ¬ token.IsOpen := by
  intro hopen
  rcases h.decode_cases with ⟨text, hok⟩ | ⟨c, hunknown⟩
  · exact nomatch hok.symm.trans hopen.decode
  · exact nomatch hunknown.symm.trans hopen.decode

/-- The tokens that the turns of the lexer's loop cut off, each with the text behind it. -/
def trail (cs : List Char) : List (Token × List Char) :=
  match _h : cut? cs with
  | none => []
  | some (token?, rest) => token?.toList.map (·, rest) ++ trail rest
termination_by cs.length
decreasing_by exact cut?_length_lt _h

theorem map_fst_trail (cs : List Char) : (trail cs).map Prod.fst = lexChars cs := by
  rw [← cutAll_eq_lexChars]
  fun_induction trail cs with
  | case1 cs h =>
      rw [cutAll_of_none h]
      rfl
  | case2 cs token? rest h ih =>
      rw [cutAll_of_some h, List.map_append, ih]
      cases token? with
      | none => rfl
      | some token => rfl

/-- What is cut off stands in front of the rest. -/
theorem Cuts.exists_append {cut : Cut} (h : Cuts cs cut) : ∃ front, cs = front ++ cut.2 := by
  obtain ⟨_ | token, rest⟩ := cut
  · obtain ⟨body, -, hcs, -⟩ := h.of_comment
    exact ⟨_, hcs⟩
  · exact ⟨_, h.of_token.1⟩

/-- A token on the trail was cut off a text, somewhere on the way. -/
theorem cuts_of_mem_trail (h : (token, rest) ∈ trail cs) :
    ∃ before after, cs = before ++ after ∧ Cuts after (some token, rest) := by
  fun_induction trail cs with
  | case1 => exact nomatch h
  | case2 cs token? tail hcut ih =>
      obtain ⟨gap, after, rfl, -, hcuts⟩ := cuts_of_cut? hcut
      rcases List.mem_append.mp h with hfirst | hlater
      · obtain ⟨other, hother, heq⟩ := List.mem_map.mp hfirst
        obtain ⟨rfl, rfl⟩ := Prod.mk.inj heq
        rw [Option.mem_toList.mp hother] at hcuts
        exact ⟨gap, after, rfl, hcuts⟩
      · obtain ⟨front, hfront⟩ := hcuts.exists_append
        obtain ⟨before, after', htail, hcuts'⟩ := ih hlater
        refine ⟨gap ++ front ++ before, after', ?_, hcuts'⟩
        rw [hfront, htail, List.append_assoc, List.append_assoc]

/-- A string that is cut off has a closing quote, or is cut short. -/
theorem Cuts.isClosed_or_isOpen (h : Cuts cs (some token, rest)) (hkind : token.kind = .string) :
    token.IsClosed ∨ token.IsOpen ∧ CutShort rest := by
  cases h with
  | opening => exact nomatch hkind
  | closing => exact nomatch hkind
  | word => exact nomatch hkind
  | string cs =>
      obtain ⟨units, hunits, hclosed | ⟨hopen, hrest⟩⟩ := units_stringTail cs
      · refine .inl ⟨units, hunits, ?_⟩
        rw [Token.string, String.toList_ofList, hclosed, List.cons_append]
      · refine .inr ⟨⟨units, hunits, ?_⟩, hrest⟩
        rw [Token.string, String.toList_ofList, hopen]

/-- **Lexer and decoder agree on closing quotes.**  Every string token of a text, with what
    stands behind it there, ends either in a closing quote or with its units.  In the one case
    decoding does not miss the quote; in the other it does, whatever the last unit is, and the
    text goes on with nothing that could close the string: not at all, or with a backslash at
    its end or at the end of a line. -/
theorem closing_quotes_agree (source : String) :
    (trail source.toList).map Prod.fst = lex source ∧
      ∀ token rest, (token, rest) ∈ trail source.toList →
        (∃ before, source.toList = before ++ token.text.toList ++ rest) ∧
        (token.kind = .string →
          (token.IsClosed ↔ ¬ token.IsOpen) ∧
          (token.IsClosed →
            (∃ text, StringLiteral.decode token.text.toList = .ok text) ∨
              ∃ c, StringLiteral.decode token.text.toList =
                .error (.unreadable (.unknownEscape c))) ∧
          (token.IsOpen →
            StringLiteral.decode token.text.toList = .error (.unreadable .unterminatedString) ∧
              CutShort rest)) := by
  refine ⟨map_fst_trail source.toList, ?_⟩
  intro token rest hmem
  obtain ⟨before, after, hsource, hcuts⟩ := cuts_of_mem_trail hmem
  refine ⟨⟨before, ?_⟩, ?_⟩
  · rw [hsource, hcuts.of_token.1, List.append_assoc]
  · intro hkind
    have hcases := hcuts.isClosed_or_isOpen hkind
    refine ⟨⟨IsClosed.not_isOpen, ?_⟩, IsClosed.decode_cases, ?_⟩
    · intro hopen
      exact hcases.resolve_right fun h => hopen h.1
    · intro hopen
      rcases hcases with hclosed | ⟨-, hrest⟩
      · exact absurd hopen hclosed.not_isOpen
      · exact ⟨hopen.decode, hrest⟩

/-- A string that is cut short by a backslash at the end of a line, right behind a quote that is
    escaped. -/
theorem closing_quotes_agree_of_escaped_quote :
    let source := "(\"a\\\"\\\nb\")"
    let token := string ['"', 'a', '\\', '"']
    let rest := ['\\', '\n', 'b', '"', ')']
    (token, rest) ∈ trail source.toList ∧ token.kind = .string ∧ token.IsOpen ∧
      StringLiteral.decode token.text.toList = .error (.unreadable .unterminatedString) ∧
      CutShort rest := by
  intro source token rest
  have hmem : (token, rest) ∈ trail source.toList := by decide +kernel
  have hopen : token.IsOpen :=
    ⟨['a', '\\', '"'], .plain (by decide) (by decide) (.escape (by decide) .nil),
      String.toList_ofList⟩
  obtain ⟨-, hstrings⟩ := closing_quotes_agree source
  obtain ⟨-, hstring⟩ := hstrings token rest hmem
  exact ⟨hmem, rfl, hopen, (hstring rfl).2.2 hopen⟩

end Token

end TailLisp
