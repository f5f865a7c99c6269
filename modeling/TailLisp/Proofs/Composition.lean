import TailLisp.Proofs.Balance
import TailLisp.Proofs.ClosingQuotes
import TailLisp.Program

/-! # Composition — a text behind another

    A text that can be read ends no matter how: in a comment, in a word, in the middle of a
    line.  Put behind it in a new line, another text is cut up, read and evaluated as it would
    be alone, whatever it is.

    * **`lexChars_append_newline`** — no turn of the lexer's loop looks beyond the end of the
      line, unless it cuts off a string without a closing quote; and that cannot be read.
    * **`readFrom_append`** and **`fold_append`** — reading a form leaves what stands behind it
      alone, so all forms of the one text come before those of the other.
    * **`texts_compose`** — evaluating both texts as one is evaluating one after the other. -/

namespace TailLisp

/-! ## Strings that can be read -/

namespace Token

variable {cs rest : List Char}

/-- A token that can be read. -/
def IsReadable (token : Token) : Prop :=
  ∃ role, token.role = .ok role

/-- A string that can be read ends at its closing quote, whatever follows. -/
theorem stringTail_append_of_isReadable (h : (string ('"' :: (stringTail cs).1)).IsReadable)
    (rest : List Char) :
    stringTail (cs ++ rest) = ((stringTail cs).1, (stringTail cs).2 ++ rest) := by
  have hcs := stringTail_append cs
  obtain ⟨units, hunits, hclosed | ⟨hopen, -⟩⟩ := units_stringTail cs
  · generalize (stringTail cs).2 = after at hcs ⊢
    rw [hclosed] at hcs ⊢
    rw [← hcs, List.append_assoc, List.append_assoc, List.singleton_append,
      hunits.stringTail_append]
  · obtain ⟨role, hrole⟩ := h
    have hrefused : readString (String.ofList ('"' :: (stringTail cs).1)) =
        .error (.unreadable .unterminatedString) := by
      rw [readString, String.toList_ofList, hopen, hunits.decode]
      rfl
    rw [Token.role, string, hrefused] at hrole
    cases hrole

/-! ## Cutting up two texts -/

theorem Delimits.append_newline (h : Delimits cs) (rest : List Char) :
    Delimits (cs ++ '\n' :: rest) := by
  cases cs with
  | nil => exact delimits_cons (by decide) rest
  | cons c cs => exact delimits_cons (h c rfl) _

/-- A comment goes to the end of its line. -/
theorem dropWhile_append_newline (cs rest : List Char) :
    (cs ++ '\n' :: rest).dropWhile (· != '\n') = cs.dropWhile (· != '\n') ++ '\n' :: rest := by
  rw [List.dropWhile_append]
  split
  case isTrue hnil =>
    rw [List.isEmpty_iff.mp hnil]
    exact List.dropWhile_cons_of_neg (by decide)
  case isFalse => rfl

/-- What is cut off a text is cut off it also where another line follows. -/
theorem Cuts.append_newline {token? : Option Token} (h : Cuts cs (token?, rest))
    (hread : ∀ token ∈ token?, token.IsReadable) (others : List Char) :
    Cuts (cs ++ '\n' :: others) (token?, rest ++ '\n' :: others) := by
  cases h with
  | comment cs =>
      rw [← dropWhile_append_newline]
      exact .comment _
  | opening cs => exact .opening _
  | closing cs => exact .closing _
  | string cs =>
      have htail := stringTail_append_of_isReadable (hread _ rfl) ('\n' :: others)
      have hcuts := Cuts.string (cs ++ '\n' :: others)
      rw [htail] at hcuts
      exact hcuts
  | word hword hrest =>
      rw [List.append_assoc]
      exact .word hword (hrest.append_newline others)

/-- The tokens of two texts, the second in a line behind the first: if those of the first can be
    read, they are the tokens of the one and then those of the other. -/
theorem lexChars_append_newline (hread : ∀ token ∈ lexChars cs, token.IsReadable)
    (others : List Char) :
    lexChars (cs ++ '\n' :: others) = lexChars cs ++ lexChars others := by
  induction hlength : cs.length using Nat.strongRecOn generalizing cs with
  | ind n ih =>
    subst hlength
    cases hcut : cut? cs with
    | none =>
        have hgap : IsGap cs := .of_separators (cut?_eq_none_iff.mp hcut)
        rw [hgap.lexChars_append, lexChars_separator (by decide),
          (IsLastGap.closed hgap).lexChars_eq_nil, List.nil_append]
    | some cut =>
        have hprogress := cut?_length_lt hcut
        obtain ⟨token?, rest⟩ := cut
        obtain ⟨gap, after, rfl, hseparators, hcuts⟩ := cuts_of_cut? hcut
        have hgap : IsGap gap := .of_separators hseparators
        rw [hgap.lexChars_append, hcuts.lexChars] at hread ⊢
        obtain ⟨htoken, hrest⟩ := List.forall_mem_append.mp hread
        have hlonger := hcuts.append_newline
          (fun token hmem => htoken token (Option.mem_toList.mpr hmem)) others
        rw [List.append_assoc, hgap.lexChars_append, hlonger.lexChars,
          ih rest.length hprogress hrest rfl, List.append_assoc]

theorem lex_append_newline {first : String} (hread : ∀ token ∈ lex first, token.IsReadable)
    (second : String) : lex (first ++ "\n" ++ second) = lex first ++ lex second := by
  have hchars : (first ++ "\n" ++ second).toList = first.toList ++ '\n' :: second.toList := by
    rw [String.toList_append, String.toList_append, List.append_assoc]
    rfl
  rw [lex, hchars]
  exact lexChars_append_newline hread second.toList

end Token

/-! ## Reading two texts -/

namespace Value

variable {limit : Nat} {stack : List (List Value)} {tokens rest : List Token}

/-- A form is read in the same way whatever stands behind it. -/
theorem readFrom_append {form : Value} (h : readFrom limit stack tokens = (.ok (some form), rest))
    (others : List Token) :
    readFrom limit stack (tokens ++ others) = (.ok (some form), rest ++ others) := by
  fun_induction readFrom limit stack tokens with
  | case1 | case2 | case3 | case5 | case6 => cases h
  | case4 stack token tail hrole hdepth ih =>
      rw [List.cons_append, readFrom_opening hrole hdepth]
      exact ih h
  | case7 token tail hrole items =>
      obtain ⟨hform, rfl⟩ := Prod.mk.inj h
      rw [List.cons_append, readFrom_closing hrole]
      exact congrArg (·, tail ++ others) hform
  | case8 token tail hrole items outer stack ih =>
      rw [List.cons_append, readFrom_closing hrole]
      exact ih h
  | case9 token tail value hrole =>
      obtain ⟨hform, rfl⟩ := Prod.mk.inj h
      rw [List.cons_append, readFrom_atom hrole]
      exact congrArg (·, tail ++ others) hform
  | case10 token tail value hrole items stack ih =>
      rw [List.cons_append, readFrom_atom hrole]
      exact ih h

/-- What is consumed for a form can be read. -/
theorem isReadable_of_readFrom {form? : Option Value}
    (h : readFrom limit stack tokens = (.ok form?, rest)) :
    ∀ token ∈ tokens, token ∈ rest ∨ token.IsReadable := by
  fun_induction readFrom limit stack tokens with
  | case1 => exact List.forall_mem_nil _
  | case2 | case3 | case5 | case6 => cases h
  | case4 stack token tail hrole hdepth ih | case8 token tail hrole items outer stack ih
  | case10 token tail value hrole items stack ih =>
      exact List.forall_mem_cons.mpr ⟨.inr ⟨_, hrole⟩, ih h⟩
  | case7 token tail hrole items | case9 token tail value hrole =>
      obtain ⟨-, rfl⟩ := Prod.mk.inj h
      exact List.forall_mem_cons.mpr ⟨.inr ⟨_, hrole⟩, fun _ => .inl⟩

/-- If all forms are read, all tokens can be read. -/
theorem isReadable_of_readForms {forms : List Value}
    (h : (readForms limit tokens).1 = .ok forms) : ∀ token ∈ tokens, token.IsReadable := by
  induction tokens using readForm_induct limit generalizing forms with
  | failed tokens fault rest hread =>
      rw [readForms_of_error hread] at h
      exact nomatch h
  | ended tokens rest hread =>
      obtain ⟨-, rfl⟩ := eq_nil_of_readFrom hread
      exact List.forall_mem_nil _
  | form tokens form rest hread ih =>
      rw [readForms_of_some hread] at h
      cases hforms : (readForms limit rest).1 with
      | error fault =>
          rw [hforms] at h
          exact nomatch h
      | ok forms =>
          intro token hmem
          exact (isReadable_of_readFrom hread token hmem).elim (ih hforms token) id

/-- Whether a text holds a form, which comes before anything in it that cannot be read. -/
def holdsForm (limit : Nat) (source : String) : Bool :=
  match ofString? limit source with
  | .ok (some _) => true
  | _ => false

end Value

/-! ## Evaluating one text and two -/

namespace Program

open Value

variable {α : Type} {limits : Limits} {visit : α → Value → Eval α}

/-- A text of one form is evaluated as this form. -/
theorem run_eval_of_readForm {source : String} {form : Value}
    (h : readForm limits.depth (Token.lex source) = (.ok (some form), [])) (s : Store) :
    (eval limits source).run s = (evalForm limits form).run s := by
  have hend : readForm limits.depth [] = (.ok none, []) := rfl
  rw [eval, fold_of_some _ _ h, EStateM.run_bind]
  simp only [pure_bind, fold_of_none _ _ hend]
  cases (evalForm limits form).run s <;> rfl

/-- If all tokens up to some point are read as forms, those behind it come afterwards. -/
theorem fold_append (visit : α → Value → Eval α) (start : α) {tokens : List Token}
    {forms : List Value} (h : (readForms limits.depth tokens).1 = .ok forms)
    (others : List Token) :
    fold limits visit start (tokens ++ others) =
      fold limits visit start tokens >>= fun a => fold limits visit a others := by
  induction tokens using readForm_induct limits.depth generalizing start forms with
  | failed tokens fault rest hread =>
      rw [readForms_of_error hread] at h
      exact nomatch h
  | ended tokens rest hread =>
      rw [fold_of_none _ _ hread]
      obtain ⟨-, rfl⟩ := eq_nil_of_readFrom hread
      rfl
  | form tokens form rest hread ih =>
      rw [readForms_of_some hread] at h
      cases hforms : (readForms limits.depth rest).1 with
      | error fault =>
          rw [hforms] at h
          exact nomatch h
      | ok forms =>
          have hlonger : readForm limits.depth (tokens ++ others) =
              (.ok (some form), rest ++ others) := readFrom_append hread others
          rw [fold_of_some _ _ hread, fold_of_some _ _ hlonger]
          simp only [bind_assoc]
          exact bind_congr fun value => bind_congr fun next => ih next hforms

/-- If a visit does not look at what came before, only a text without forms hands that on. -/
theorem fold_start (hvisit : ∀ a b value, visit a value = visit b value) (start a : α)
    (source : String) :
    fold limits visit a (Token.lex source) =
      fold limits visit start (Token.lex source) >>= fun b =>
        pure (if holdsForm limits.depth source then b else a) := by
  rw [holdsForm, ofString?]
  rcases hread : readForm limits.depth (Token.lex source) with ⟨fault | (_ | form), rest⟩
  · rw [fold_of_error _ _ hread, fold_of_error _ _ hread]
    rfl
  · rw [fold_of_none _ _ hread, fold_of_none _ _ hread]
    rfl
  · rw [fold_of_some _ _ hread, fold_of_some _ _ hread]
    simp only [if_true, bind_pure, hvisit a start]

/-- A text behind another, for a visit that does not look at what came before. -/
theorem fold_lex_append (hvisit : ∀ a b value, visit a value = visit b value) (start : α)
    {first : String} {forms : List Value} (h : listOfString limits.depth first = .ok forms)
    (second : String) :
    fold limits visit start (Token.lex (first ++ "\n" ++ second)) =
      fold limits visit start (Token.lex first) >>= fun a =>
        fold limits visit start (Token.lex second) >>= fun b =>
          pure (if holdsForm limits.depth second then b else a) := by
  rw [Token.lex_append_newline (isReadable_of_readForms h), fold_append visit start h]
  exact bind_congr fun a => fold_start hvisit start a second

/-- **Texts compose.**  If a text can be read, another one in a line behind it is cut up as it is
    alone, and evaluating both as one, with or without printing, is evaluating the one and, if
    that did not fail, the other; what it comes to is what the second comes to, if that holds a
    form, and otherwise what the first comes to. -/
theorem texts_compose {first : String} {forms : List Value}
    (h : listOfString limits.depth first = .ok forms) (second : String) :
    Token.lex (first ++ "\n" ++ second) = Token.lex first ++ Token.lex second ∧
      (∀ s, (eval limits (first ++ "\n" ++ second)).run s =
        (do
          let v ← eval limits first
          let w ← eval limits second
          return if holdsForm limits.depth second then w else v : Eval Value).run s) ∧
      ∀ s, (rep limits (first ++ "\n" ++ second)).run s =
        (do
          let t ← rep limits first
          let u ← rep limits second
          return if holdsForm limits.depth second then u else t : Eval (Option String)).run s := by
  refine ⟨Token.lex_append_newline (isReadable_of_readForms h) second, fun s => ?_, fun s => ?_⟩
  · exact congrArg (EStateM.run · s) (fold_lex_append (fun _ _ _ => rfl) _ h second)
  · exact congrArg (EStateM.run · s) (fold_lex_append (fun _ _ _ => rfl) _ h second)

/-- A text that ends in a comment with a quote in it, and one that cannot be read to its end. -/
theorem texts_compose_of_comment :
    let first := "(prn \"a\n\") f ; \"("
    let second := "\\ )"
    (∃ forms, listOfString Limits.standard.depth first = .ok forms) ∧
      Token.lex (first ++ "\n" ++ second) =
        Token.lex first ++ [⟨.symbol, "\\"⟩, ⟨.closing, ")"⟩] ∧
      ∀ s, (eval .standard (first ++ "\n" ++ second)).run s =
        (do
          let v ← eval .standard first
          let w ← eval .standard second
          return if holdsForm Limits.standard.depth second then w else v : Eval Value).run s := by
  intro first second
  have hfirst : listOfString Limits.standard.depth first =
      .ok [.list none [.sym "prn", .str "a\n"], .sym "f"] := by decide +kernel
  have hsecond : Token.lex second = [⟨.symbol, "\\"⟩, ⟨.closing, ")"⟩] := by decide +kernel
  obtain ⟨hlex, heval, -⟩ := texts_compose hfirst second
  exact ⟨⟨_, hfirst⟩, hsecond ▸ hlex, heval⟩

end Program

end TailLisp
