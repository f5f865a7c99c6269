import Mathlib.Data.List.Forall2
import TailLisp.Token.Atom
import TailLisp.Token.Lexer

/-! # String literals — writing, cutting out and decoding

    A text written as a literal is cut out of a program by the lexer up to its
    closing quote, whatever follows, and decoded to the text itself.  Both rest on
    one fact about `encodeChar`: a character is written as a unit that stands for it,
    the character itself or a backslash with an escape.

    Decoding looks at units from the left, but whether a closing quote is escaped is
    judged from the right, by the backslashes in front of it.  The two views agree
    (`decodes_decodeBody`), so a literal that passes the test is never read beyond its
    end. -/

namespace TailLisp.StringLiteral

/-! ## Backslashes at the end -/

/-- What is in front of a text does not matter for its end, unless an odd number of
    backslashes stands right before it. -/
theorem endsEscaping_append {front text : List Char}
    (hfront : endsEscaping front = false) : endsEscaping (front ++ text) = endsEscaping text := by
  unfold endsEscaping at hfront ⊢
  rw [List.reverse_append, List.takeWhile_append]
  split
  case isTrue hall =>
    -- The text is nothing but backslashes: those before it count too, an even number.
    have htext := (List.takeWhile_prefix (p := (· == '\\')) (l := text.reverse)).eq_of_length hall
    rw [List.length_append, htext]
    simp only [beq_eq_false_iff_ne, beq_eq_beq] at hfront ⊢
    omega
  case isFalse => rfl

theorem endsEscaping_singleton {c : Char} (h : c ≠ '\\') : endsEscaping [c] = false := by
  have hc : (c == '\\') = false := beq_eq_false_iff_ne.mpr h
  simp [endsEscaping, hc]

theorem endsEscaping_pair (c : Char) : endsEscaping ['\\', c] = false := by
  by_cases hc : c = '\\'
  · subst hc
    rfl
  · have hne : (c == '\\') = false := beq_eq_false_iff_ne.mpr hc
    simp [endsEscaping, hne]

/-! ## Units -/

/-- A unit of a literal and the character that it stands for: a character other than a
    backslash, or a backslash with an escape. -/
inductive IsUnit : List Char → Char → Prop where
  | plain {c : Char} : c ≠ '\\' → IsUnit [c] c
  | newline : IsUnit ['\\', 'n'] '\n'
  | quote : IsUnit ['\\', '"'] '"'
  | backslash : IsUnit ['\\', '\\'] '\\'

/-- A body that is put together from units, and the text that they stand for. -/
def InUnits (body text : List Char) : Prop :=
  ∃ units, List.Forall₂ IsUnit units text ∧ body = units.flatten

/-- A body is in units up to a backslash with a character that is no escape. -/
def BreaksAt (body : List Char) (c : Char) : Prop :=
  ∃ front text rest, InUnits front text ∧ body = front ++ '\\' :: c :: rest ∧
    c ∉ ['n', '"', '\\']

variable {unit body text : List Char} {c : Char}

theorem isUnit_of_escaped? {e : Char} (h : escaped? e = some c) : IsUnit ['\\', e] c := by
  unfold escaped? at h
  split at h
  · obtain rfl := Option.some.inj h
    exact .newline
  · obtain rfl := Option.some.inj h
    exact .quote
  · obtain rfl := Option.some.inj h
    exact .backslash
  · exact nomatch h

theorem escaped?_eq_none_iff : escaped? c = none ↔ c ∉ ['n', '"', '\\'] := by
  unfold escaped?
  split <;> simp_all

theorem decodeBody_cons_of_ne (hc : c ≠ '\\') (rest : List Char) :
    decodeBody (c :: rest) = (decodeBody rest).map (c :: ·) := by
  rw [decodeBody]
  · rintro rfl
    exact absurd rfl hc
  · rintro d rest' rfl
    exact absurd rfl hc

theorem IsUnit.decodeBody_append (h : IsUnit unit c) (rest : List Char) :
    decodeBody (unit ++ rest) = (decodeBody rest).map (c :: ·) := by
  cases h with
  | plain hc => exact decodeBody_cons_of_ne hc rest
  | newline => rfl
  | quote => rfl
  | backslash => rfl

theorem IsUnit.endsEscaping (h : IsUnit unit c) : endsEscaping unit = false := by
  cases h with
  | plain hc => exact endsEscaping_singleton hc
  | newline => exact endsEscaping_pair _
  | quote => exact endsEscaping_pair _
  | backslash => exact endsEscaping_pair _

theorem IsUnit.inUnits (h : IsUnit unit c) (hrest : InUnits body text) :
    InUnits (unit ++ body) (c :: text) := by
  obtain ⟨units, hunits, rfl⟩ := hrest
  exact ⟨unit :: units, .cons h hunits, rfl⟩

theorem IsUnit.breaksAt {d : Char} (h : IsUnit unit c) (hrest : BreaksAt body d) :
    BreaksAt (unit ++ body) d := by
  obtain ⟨front, text, rest, hfront, rfl, hd⟩ := hrest
  exact ⟨unit ++ front, c :: text, rest, h.inUnits hfront, (List.append_assoc ..).symm, hd⟩

theorem inUnits_nil : InUnits [] [] :=
  ⟨[], .nil, rfl⟩

/-- Units are decoded one by one, whatever stands behind them. -/
theorem InUnits.decodeBody_append (h : InUnits body text) (rest : List Char) :
    decodeBody (body ++ rest) = (decodeBody rest).map (text ++ ·) := by
  obtain ⟨units, hunits, rfl⟩ := h
  induction hunits with
  | nil =>
      show decodeBody rest = _
      cases decodeBody rest <;> rfl
  | @cons unit c units text hunit _ ih =>
      rw [List.flatten_cons, List.append_assoc, hunit.decodeBody_append, ih]
      cases decodeBody rest <;> rfl

theorem InUnits.decodeBody (h : InUnits body text) : decodeBody body = .ok text := by
  have happend := h.decodeBody_append []
  rw [List.append_nil] at happend
  rw [happend]
  show Except.ok (text ++ []) = _
  rw [List.append_nil]

/-- No unit is left open at the end. -/
theorem InUnits.endsEscaping (h : InUnits body text) : endsEscaping body = false := by
  obtain ⟨units, hunits, rfl⟩ := h
  induction hunits with
  | nil => rfl
  | cons hunit _ ih =>
      rw [List.flatten_cons, endsEscaping_append hunit.endsEscaping, ih]

/-- What decoding a body can come to: the text of its units, the first backslash without an
    escape, or the end in the middle of a unit, which is seen from the right as well. -/
inductive Decodes (body : List Char) : Except Fault (List Char) → Prop where
  | text {text : List Char} : InUnits body text → Decodes body (.ok text)
  | unknown {c : Char} : BreaksAt body c →
      Decodes body (.error (.unreadable (.unknownEscape c)))
  | cutOff : endsEscaping body = true → Decodes body (.error .outOfRange)

/-- One more unit in front. -/
theorem IsUnit.decodes {rest : List Char} {result : Except Fault (List Char)}
    (h : IsUnit unit c) (hrest : Decodes rest result) :
    Decodes (unit ++ rest) (result.map (c :: ·)) := by
  cases hrest with
  | text hrest => exact .text (h.inUnits hrest)
  | unknown hbreaks => exact .unknown (h.breaksAt hbreaks)
  | cutOff hend =>
      refine .cutOff ?_
      rw [endsEscaping_append h.endsEscaping, hend]

theorem decodes_decodeBody (body : List Char) : Decodes body (decodeBody body) := by
  fun_induction decodeBody body with
  | case1 => exact .text inUnits_nil
  | case2 => exact .cutOff rfl
  | case3 c rest d hescape ih => exact (isUnit_of_escaped? hescape).decodes ih
  | case4 c rest hescape =>
      exact .unknown ⟨[], [], rest, inUnits_nil, rfl, escaped?_eq_none_iff.mp hescape⟩
  | case5 c rest hlone hpair ih =>
      -- A backslash would have been taken for an escape.
      have hc : c ≠ '\\' := by
        rintro rfl
        cases rest with
        | nil => exact hlone rfl rfl
        | cons d rest => exact hpair d rest rfl rfl
      exact (IsUnit.plain hc).decodes ih

/-- A closing quote that is not escaped leaves the decoding of the body, whatever the first
    character is. -/
theorem decode_quoted (h : endsEscaping body = false) (first : Char) :
    decode (first :: body ++ ['"']) = decodeBody body := by
  have hbody : (first :: body ++ ['"']).tail.dropLast = body := List.dropLast_concat
  have hlast : (first :: body ++ ['"']).getLast? = some '"' := List.getLast?_concat
  have hlength : (first :: body ++ ['"']).length = body.length + 2 := by simp
  rw [decode]
  simp only [hbody]
  refine if_neg ?_
  rintro (hshort | hquote | hend)
  · omega
  · exact hquote hlast
  · exact Bool.false_ne_true (h.symm.trans hend)

/-- **Decoding never runs off the end**: it fails with a reading error or not at all. -/
theorem decode_fault {literal : List Char} {fault : Fault} (h : decode literal = .error fault) :
    ∃ cause, fault = .unreadable cause := by
  rw [decode] at h
  split at h
  case isTrue => exact ⟨_, (Except.error.inj h).symm⟩
  case isFalse hfinished =>
    have hdecodes := decodes_decodeBody literal.tail.dropLast
    rw [h] at hdecodes
    cases hdecodes with
    | unknown => exact ⟨_, rfl⟩
    | cutOff hend => exact absurd (.inr (.inr hend)) hfinished

/-! ## Written literals -/

/-- A character stands for itself or is written as its escape. -/
theorem encodeChar_cases (c : Char) :
    (∃ e, encodeChar c = ['\\', e] ∧ e ≠ '\n' ∧ escaped? e = some c) ∨
      (encodeChar c = [c] ∧ c ≠ '\\' ∧ c ≠ '"') := by
  unfold encodeChar
  split
  · exact .inl ⟨'\\', rfl, by decide, rfl⟩
  · exact .inl ⟨'"', rfl, by decide, rfl⟩
  · exact .inl ⟨'n', rfl, by decide, rfl⟩
  · rename_i hbackslash hquote _
    exact .inr ⟨rfl, hbackslash, hquote⟩

/-- A text is written in units. -/
theorem inUnits_flatMap_encodeChar (text : List Char) : InUnits (text.flatMap encodeChar) text := by
  induction text with
  | nil => exact inUnits_nil
  | cons c rest ih =>
      rw [List.flatMap_cons]
      rcases encodeChar_cases c with ⟨e, hencode, -, hescape⟩ | ⟨hencode, hbackslash, -⟩
      · rw [hencode]
        exact (isUnit_of_escaped? hescape).inUnits ih
      · rw [hencode]
        exact (IsUnit.plain hbackslash).inUnits ih

/-- Decoding undoes encoding. -/
theorem decode_encode (text : List Char) : decode (encode text) = .ok text := by
  have hunits := inUnits_flatMap_encodeChar text
  rw [encode, decode_quoted hunits.endsEscaping, hunits.decodeBody]

end TailLisp.StringLiteral

namespace TailLisp.Token

open StringLiteral

theorem stringTail_cons_of_ne {c : Char} (hbackslash : c ≠ '\\') (hquote : c ≠ '"')
    (rest : List Char) :
    stringTail (c :: rest) = (c :: (stringTail rest).1, (stringTail rest).2) := by
  rw [stringTail]
  · rintro rfl
    exact absurd rfl hquote
  · rintro rfl
    exact absurd rfl hbackslash
  · rintro d rest' rfl
    exact absurd rfl hbackslash

/-- The lexer cuts a written literal off right behind its closing quote. -/
theorem stringTail_encoded (text rest : List Char) :
    stringTail (text.flatMap encodeChar ++ '"' :: rest) =
      (text.flatMap encodeChar ++ ['"'], rest) := by
  induction text with
  | nil => rfl
  | cons c text ih =>
      rw [List.flatMap_cons]
      rcases encodeChar_cases c with ⟨e, hencode, hnewline, -⟩ | ⟨hencode, hbackslash, hquote⟩
      · rw [hencode]
        show stringTail ('\\' :: e :: (text.flatMap encodeChar ++ '"' :: rest)) = _
        rw [stringTail, if_neg hnewline, ih]
        rfl
      · rw [hencode, List.singleton_append, List.cons_append,
          stringTail_cons_of_ne hbackslash hquote, ih]
        rfl

/-- A written string is read as the string. -/
theorem readString_encode (text : String) :
    readString (String.ofList (encode text.toList)) = .ok (.str text) := by
  rw [readString, String.toList_ofList, decode_encode]
  simp only [Except.map, String.ofList_toList]

end TailLisp.Token
