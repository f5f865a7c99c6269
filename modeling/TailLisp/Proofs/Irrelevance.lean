import TailLisp.Proofs.Cutting
import TailLisp.Proofs.Independence

/-! # Irrelevance — definitions that no text asks for change nothing

    Two sessions of which one has made one definition more have root frames that differ in a
    binding, and in what closures see from there.  If the name is in none of the texts, or
    names a special form and is only where lists begin, then nothing that the texts evaluate
    asks for it.  So the texts cannot tell the sessions apart.

    * **`Value.readForm_definition`** — a text `(def! name expr)` is read as this definition,
      and what it leaves has no other one in it.
    * **`Program.spares_definition`** — it changes no frame of the store without the name.
    * **`Session.irrelevant_definition`** — all other texts have the same answers, wherever in
      the session it is made. -/

namespace TailLisp

/-! ## The text of a definition -/

namespace Token

/-- A parenthesis behind the end of a text is left behind a string, or taken for a part of a
    string that is open. -/
theorem stringTail_concat (cs : List Char) :
    (stringTail (cs ++ [')'])).2 = (stringTail cs).2 ++ [')'] ∨
      (stringTail (cs ++ [')'])).2 = [] := by
  fun_induction stringTail cs with
  | case1 | case3 => exact .inr rfl
  | case2 | case4 => exact .inl rfl
  | case5 c rest hc body after hrest ih =>
      rw [hrest] at ih
      rw [List.cons_append, List.cons_append, stringTail, if_neg hc]
      exact ih
  | case6 c rest hquote hlone hescape body after hrest ih =>
      have hbackslash : c ≠ '\\' := by
        rintro rfl
        cases rest with
        | nil => exact hlone rfl rfl
        | cons d rest => exact hescape d rest rfl rfl
      rw [hrest] at ih
      rw [List.cons_append, stringTail_cons_of_ne hbackslash hquote]
      exact ih

/-- A closing parenthesis behind the end of a text makes no symbol. -/
theorem symbol_mem_of_concat {cs : List Char} {text : String}
    (h : ⟨.symbol, text⟩ ∈ lexChars (cs ++ [')'])) : ⟨.symbol, text⟩ ∈ lexChars cs := by
  have hclosing : Delimits [')'] := by
    rintro c ⟨⟩
    decide
  fun_induction lexChars cs with
  | case1 =>
      rw [List.nil_append, lexChars_closing, lexChars_nil] at h
      cases List.mem_singleton.mp h
  | case2 c cs hc ih =>
      rw [List.cons_append, lexChars_separator hc] at h
      exact ih h
  | case3 cs _ ih =>
      rw [List.cons_append, lexChars_comment, List.dropWhile_append] at h
      split at h
      · rw [show [')'].dropWhile (· != '\n') = [] from rfl, lexChars_nil] at h
        cases h
      · exact ih h
  | case4 cs _ _ ih =>
      rw [List.cons_append, lexChars_opening] at h
      rcases List.mem_cons.mp h with heq | hrest
      · cases heq
      · exact List.mem_cons_of_mem _ (ih hrest)
  | case5 cs _ _ _ ih =>
      rw [List.cons_append, lexChars_closing] at h
      rcases List.mem_cons.mp h with heq | hrest
      · cases heq
      · exact List.mem_cons_of_mem _ (ih hrest)
  | case6 cs _ _ _ _ ih =>
      rw [List.cons_append, lexChars_quote] at h
      rcases List.mem_cons.mp h with heq | hrest
      · cases heq
      rcases stringTail_concat cs with hleft | hnone
      · rw [hleft] at hrest
        exact List.mem_cons_of_mem _ (ih hrest)
      · rw [hnone, lexChars_nil] at hrest
        cases hrest
  | case7 c cs hseparator hcomment hopening hclose hquote ih =>
      have hword : IsWord (c :: cs.takeWhile isSymbolChar) := by
        have hc : isSymbolChar c = true := isSymbolChar_iff.mpr
          ⟨Bool.not_eq_true _ ▸ hseparator, hopening, hclose, hcomment, hquote⟩
        refine ⟨List.cons_ne_nil _ _, List.forall_mem_cons.mpr ⟨hc, ?_⟩⟩
        exact fun d hd => List.mem_takeWhile_imp hd
      have hrest : Delimits (cs.dropWhile isSymbolChar ++ [')']) := by
        have hafter := delimits_dropWhile cs
        cases hcs : cs.dropWhile isSymbolChar with
        | nil => exact hclosing
        | cons d rest =>
            rw [hcs] at hafter
            exact hafter
      have hsplit : c :: cs ++ [')'] =
          (c :: cs.takeWhile isSymbolChar) ++ (cs.dropWhile isSymbolChar ++ [')']) := by
        show c :: (cs ++ [')']) =
          c :: (cs.takeWhile isSymbolChar ++ (cs.dropWhile isSymbolChar ++ [')']))
        rw [← List.append_assoc, List.takeWhile_append_dropWhile]
      rw [hsplit, lexChars_word hword hrest] at h
      rcases List.mem_cons.mp h with hsame | hlater
      · exact hsame ▸ List.mem_cons_self
      · exact List.mem_cons_of_mem _ (ih hlater)

/-- The tokens of a definition: those behind the name have no symbol that the expression does not
    have. -/
theorem lex_definition {name : String} (hname : IsReadableName name) (expr : String) :
    ∃ tokens, lex ("(def! " ++ name ++ " " ++ expr ++ ")") =
        opening :: ⟨.symbol, SpecialForm.define.name⟩ :: ⟨.symbol, name⟩ :: tokens ∧
      ∀ text, ⟨.symbol, text⟩ ∈ tokens → ⟨.symbol, text⟩ ∈ lex expr := by
  have hspace : ∀ rest, Delimits (' ' :: rest) := by
    rintro rest c ⟨⟩
    decide
  have hdefine : IsWord SpecialForm.define.name.toList :=
    ⟨List.cons_ne_nil _ _, List.all_eq_true.mp rfl⟩
  obtain ⟨hword, -⟩ := isReadableName_iff.mp hname
  have hchars : ("(def! " ++ name ++ " " ++ expr ++ ")").toList =
      '(' :: (SpecialForm.define.name.toList ++
        ' ' :: (name.toList ++ ' ' :: (expr.toList ++ [')']))) := by
    simp only [String.toList_append, List.append_assoc]
    rfl
  refine ⟨lexChars (expr.toList ++ [')']), ?_, fun text h => symbol_mem_of_concat h⟩
  rw [lex, hchars, lexChars_opening, lexChars_word hdefine (hspace _),
    lexChars_separator (by decide), lexChars_word hword (hspace _),
    lexChars_separator (by decide), symbol, symbol, String.ofList_toList, String.ofList_toList]

end Token

/-! ## Reading it -/

namespace Value

variable {P : Value → Prop} {base items : List Value} {stack : List (List Value)}

/-- Open lists of which the outermost began with some items that are there already; all other
    items have a property. -/
inductive Onto (base : List Value) (P : Value → Prop) : List (List Value) → Prop where
  | outermost {items : List Value} : (∀ v ∈ items, P v) → Onto base P [items ++ base]
  | inner {items : List Value} {stack : List (List Value)} : (∀ v ∈ items, P v) →
      Onto base P stack → Onto base P (items :: stack)

theorem Onto.ne_nil (h : Onto base P stack) : stack ≠ [] := by
  cases h <;> exact List.cons_ne_nil _ _

theorem Onto.item (h : Onto base P (items :: stack)) {v : Value} (hv : P v) :
    Onto base P ((v :: items) :: stack) := by
  cases h with
  | @outermost new hnew => exact .outermost (List.forall_mem_cons.mpr ⟨hv, hnew⟩)
  | inner hitems hstack => exact .inner (List.forall_mem_cons.mpr ⟨hv, hitems⟩) hstack

/-- A list that is closed becomes an item of the one around it. -/
theorem Onto.closed {outer : List Value} (h : Onto base P (items :: outer :: stack))
    (hlist : ∀ items, (∀ v ∈ items, P v) → P (.list none items)) :
    Onto base P ((.list none items.reverse :: outer) :: stack) := by
  cases h with
  | inner hitems hstack =>
      exact hstack.item (hlist _ fun v hv => hitems v (List.mem_reverse.mp hv))

/-- The form that is read has the first items of the outermost list in front. -/
theorem exists_items_of_readFrom (hlist : ∀ items, (∀ v ∈ items, P v) → P (.list none items))
    {limit : Nat} {tokens rest : List Token} {form : Value}
    (htokens : ∀ token ∈ tokens, OrdinaryOr (Token.Role.Holds P) token.role)
    (hstack : Onto base P stack)
    (hread : readFrom limit stack tokens = (.ok (some form), rest)) :
    ∃ items, form = .list none (base.reverse ++ items) ∧ ∀ v ∈ items, P v := by
  fun_induction readFrom limit stack tokens with
  | case1 | case2 | case3 | case5 | case6 => cases hread
  | case4 stack token rest hrole hdepth ih =>
      obtain ⟨-, hrest⟩ := List.forall_mem_cons.mp htokens
      exact ih hrest (.inner (List.forall_mem_nil _) hstack) hread
  | case7 token rest hrole items =>
      cases hread
      cases hstack with
      | @outermost new hnew =>
          refine ⟨new.reverse, ?_, fun v hv => hnew v (List.mem_reverse.mp hv)⟩
          rw [List.reverse_append]
      | inner _ hnone => exact absurd rfl hnone.ne_nil
  | case8 token rest hrole items outer stack ih =>
      obtain ⟨-, hrest⟩ := List.forall_mem_cons.mp htokens
      exact ih hrest (hstack.closed hlist) hread
  | case9 => exact absurd rfl hstack.ne_nil
  | case10 token rest v hrole items stack ih =>
      obtain ⟨htoken, hrest⟩ := List.forall_mem_cons.mp htokens
      rw [hrole] at htoken
      exact ih hrest (hstack.item htoken) hread

/-- A definition is read with its name in front, and of what is behind this there is no
    other definition. -/
theorem readForm_definition {name : String} (hname : IsReadableName name) {limit : Nat}
    {tokens rest : List Token} {form : Value}
    (h : ⟨.symbol, SpecialForm.define.name⟩ ∉ tokens)
    (hread : readForm limit (.opening :: ⟨.symbol, SpecialForm.define.name⟩ ::
      ⟨.symbol, name⟩ :: tokens) = (.ok (some form), rest)) :
    ∃ args, form = SpecialForm.define.applied none (.sym name :: args) ∧
      (∀ arg ∈ args, ¬ arg.Occurs SpecialForm.define.name) ∧ rest <:+ tokens := by
  have hdefine : (⟨.symbol, SpecialForm.define.name⟩ : Token).role =
      .ok (.atom (.sym SpecialForm.define.name)) := rfl
  have hsymbol : (⟨.symbol, name⟩ : Token).role = .ok (.atom (.sym name)) := by
    rw [Token.role, Token.readWord_of_isReadableName hname]
    rfl
  have hopening : Token.opening.role = .ok .opens := rfl
  by_cases hlimit : 0 < limit
  · have hstart : readForm limit (.opening :: ⟨.symbol, SpecialForm.define.name⟩ ::
        ⟨.symbol, name⟩ :: tokens) =
          readFrom limit [[.sym name, .sym SpecialForm.define.name]] tokens := by
      rw [readForm, readFrom_opening hopening hlimit, readFrom_atom hdefine, handOver,
        readFrom_atom hsymbol, handOver]
    rw [hstart] at hread
    have hsuffix := readFrom_suffix limit [[.sym name, .sym SpecialForm.define.name]] tokens
    rw [hread] at hsuffix
    have hbase : Onto [.sym name, .sym SpecialForm.define.name]
        (fun v => ¬ v.Occurs SpecialForm.define.name)
        [[.sym name, .sym SpecialForm.define.name]] := .outermost (List.forall_mem_nil _)
    have hlist : ∀ items : List Value, (∀ v ∈ items, ¬ v.Occurs SpecialForm.define.name) →
        ¬ (Value.list none items).Occurs SpecialForm.define.name := by
      rintro items hitems (_ | ⟨hmem, hoccurs⟩)
      exact hitems _ hmem hoccurs
    obtain ⟨args, rfl, hargs⟩ := exists_items_of_readFrom hlist
      (fun token hmem => token.ordinaryOr_role_of_ne fun heq => h (heq ▸ hmem)) hbase hread
    exact ⟨args, rfl, hargs, hsuffix⟩
  · rw [readForm, readFrom.eq_def] at hread
    simp only [hopening, List.length_nil, if_neg hlimit] at hread
    cases hread

end Value

/-! ## Evaluating it -/

namespace Eval

variable {α β : Type} {P : Store → Prop} {s : Store}

/-- What holds of the store after the first part, and is kept by the second one, holds in the
    end. -/
theorem holds_after_bind {x : Eval α} {f : α → Eval β} (hx : P (x.after s))
    (hf : ∀ a s', P s' → P ((f a).after s')) : P ((x >>= f).after s) := by
  cases hrun : x.run s with
  | ok a s' =>
      have hbind : (x >>= f).run s = (f a).run s' := by
        rw [EStateM.run_bind, hrun]
      rw [after_of_ok hrun] at hx
      rw [after, hbind]
      exact hf a s' hx
  | error fault s' =>
      have hbind : (x >>= f).run s = .error fault s' := by
        rw [EStateM.run_bind, hrun]
      rw [after_of_error hrun] at hx
      rwa [after_of_error hbind]

/-- What holds after the expression, and is kept by the definition itself, holds after both. -/
theorem holds_after_define (fuel depth : Nat) {i : Option Serial} {name : String}
    {args : List Value} {e : FrameId} (hs : P s)
    (hargs : ∀ arg ∈ args, ∀ depth, P ((evaluate fuel depth arg e).after s))
    (hdefine : ∀ s' v, P s' → P (s'.define e name v)) :
    P ((evaluate fuel depth (SpecialForm.define.applied i (.sym name :: args)) e).after s) := by
  cases depth with
  | zero => exact hs
  | succ depth =>
  cases fuel with
  | zero => exact hs
  | succ fuel =>
  rw [evaluate, follow, step_special]
  cases hmisuse : SpecialForm.define.misuse? (.sym name :: args) with
  | some cause =>
      rw [special_of_misuse _ e hmisuse]
      exact hs
  | none =>
      have hshape := SpecialForm.wellShaped_of_misuse?_eq_none hmisuse
      generalize hall : Value.sym name :: args = all at hshape
      cases hshape with
      | define name' expr =>
          obtain ⟨hname, rfl⟩ := List.cons.inj hall
          obtain rfl := Value.sym.inj hname
          rw [special]
          simp only [bind_assoc, pure_bind]
          refine holds_after_bind (hargs expr List.mem_cons_self depth) ?_
          intro v s' hs'
          exact hdefine s' v hs'

end Eval

/-! ## The store without the name -/

namespace Store

variable {hidden : List String} {n : Nat} {s t : Store}

theorem Spares.without (h : s.Spares n t) (hidden : List String) :
    (s.without hidden).Spares n (t.without hidden) := by
  refine ⟨?_, fun hn f hf => ?_⟩
  · rw [size_without, size_without]
    exact h.grows
  · rw [size_without] at hn
    rw [frame_without, frame_without, h.frame hn f hf]

theorem IsNumbered.without (h : s.IsNumbered) (hidden : List String) :
    (s.without hidden).IsNumbered := by
  refine ⟨?_, fun f o houter => ?_, fun f entry hentry => ?_⟩
  · rw [size_without]
    exact h.root
  · rw [outer?_without] at houter
    rw [size_without]
    exact h.links f o houter
  · rw [bindings_without] at hentry
    have hsize := Nat.le_of_eq (s.size_without hidden).symm
    exact (h.values f entry (List.mem_filter.mp hentry).1).mono
      (Value.HasNumbers.mono hsize (Nat.le_refl _))

/-- A store and what becomes of it while its frames without the hidden names stay as they are. -/
theorem IsNumbered.exists_mirrors_without (hs : s.IsNumbered) (hcounts : s.Counts t)
    (hspares : (s.without hidden).Spares s.frames.size (t.without hidden))
    (hinert : s.Holds (Value.IsInert hidden)) :
    ∃ ρ : Renumbering, s.MirrorsWithout hidden ρ s.printed.size t.printed.size t := by
  have hcounts' : (s.without hidden).Counts (t.without hidden) := by
    refine ⟨?_, hcounts.serials, fun _ => (hcounts.keeps hs).without hidden⟩
    rw [size_without, size_without]
    exact hcounts.frames
  rw [← s.size_without hidden] at hspares
  obtain ⟨ρ, hmirrors⟩ := (hs.without hidden).exists_mirrors hcounts' hspares
  exact ⟨ρ, hmirrors, hinert⟩

theorem holds_isInert_initial (hidden : List String) : initial.Holds (Value.IsInert hidden) := by
  intro f entry hentry
  obtain ⟨b, -, rfl⟩ := mem_bindings_initial hentry
  exact .atom trivial trivial

end Store

/-- A definition of a hidden name, in whose expression there is none, changes no frame of the store
    without the hidden names. -/
theorem Program.spares_definition (limits : Limits) {s : Store} {n : Nat}
    (hn : n ≤ s.frames.size) {name : String} (hname : IsReadableName name) {expr : String}
    (hexpr : ⟨.symbol, SpecialForm.define.name⟩ ∉ Token.lex expr) :
    (s.without [name]).Spares n (((rep limits ("(def! " ++ name ++ " " ++ expr ++ ")")).after
      s).without [name]) := by
  obtain ⟨tokens, hlex, hsymbols⟩ := Token.lex_definition hname expr
  have htokens : ⟨.symbol, SpecialForm.define.name⟩ ∉ tokens := mt (hsymbols _) hexpr
  let P : Store → Prop := fun st => (s.without [name]).Spares n (st.without [name])
  have hrefl : P s := .of_frames_eq rfl
  have hsize : ∀ st, P st → n ≤ st.frames.size := by
    intro st h
    have hgrows := h.grows
    rw [Store.size_without, Store.size_without] at hgrows
    exact Nat.le_trans hn hgrows
  rw [rep, hlex]
  rcases hread : Value.readForm limits.depth (.opening ::
    ⟨.symbol, SpecialForm.define.name⟩ :: ⟨.symbol, name⟩ :: tokens) with
      ⟨fault | (_ | form), rest⟩
  · rw [fold_of_error _ _ hread]
    exact hrefl
  · rw [fold_of_none _ _ hread]
    exact hrefl
  obtain ⟨args, rfl, hargs, hrest⟩ := Value.readForm_definition hname htokens hread
  rw [fold_of_some _ _ hread]
  refine Eval.holds_after_bind (P := P) ?_ ?_
  · -- The expression is evaluated in a sealed frame, and the definition is hidden.
    refine Eval.holds_after_define (P := P) _ _ hrefl ?_ ?_
    · intro arg hmem depth
      have hseals : arg.Seals n s Store.root := ⟨hn, fun _ => hargs arg hmem⟩
      exact (Eval.spares_evaluate _ depth hseals).without [name]
    · intro st v hst
      show (s.without [name]).Spares n ((st.define Store.root name v).without [name])
      rw [Store.without_define, if_pos (List.mem_singleton.mpr rfl)]
      exact hst
  · intro v st hst
    refine Eval.holds_after_bind (P := P) ?_ ?_
    · cases hprint : v.print limits.depth <;> exact hst
    · intro a st hst
      have hnone := mt (hrest.subset ·) htokens
      exact hst.trans ((spares_fold limits (hsize st hst) a hnone).without [name])

/-! ## Sessions -/

namespace Token

variable {name : String} {tokens : List Token}

/-- A symbol stands only right behind opening parentheses: as the first item of lists. -/
def Leads (name : String) (tokens : List Token) : Prop :=
  (closing :: tokens).IsChain fun before token => token = ⟨.symbol, name⟩ → before = opening

instance (name : String) (tokens : List Token) : Decidable (Leads name tokens) :=
  inferInstanceAs (Decidable (List.IsChain _ _))

theorem Leads.bypass (h : Leads name tokens) {kind : SpecialForm} (hkind : kind.name = name) :
    Bypass [name] tokens := by
  refine h.imp fun before token hlead other hother heq => ?_
  obtain rfl := List.mem_singleton.mp hother
  exact ⟨hlead heq, kind, hkind⟩

theorem bypass_of_not_mem (h : ⟨.symbol, name⟩ ∉ tokens) : Bypass [name] tokens := by
  refine bypass_of_forall fun token htoken => List.forall_mem_singleton.mpr ?_
  rintro rfl
  exact h htoken

end Token

namespace Session

variable (limits : Limits)

/-- A fresh session mirrors itself, also without names that its prelude does not ask for. -/
theorem exists_mirrors_start {hidden : List String} (prelude : Option String)
    (h : ∀ source ∈ prelude, Token.Bypass hidden (Token.lex source)) :
    ∃ (ρ : Renumbering) (p q : Nat), (start limits prelude).store.MirrorsWithout hidden ρ p q
      (start limits prelude).store := by
  have hcounts : Store.initial.Counts Store.initial := .of_frames_eq rfl (Nat.le_refl _)
  obtain ⟨ρ, hmirrors⟩ := Store.isNumbered_initial.exists_mirrors hcounts (.of_frames_eq rfl)
  have hinitial : Store.initial.MirrorsWithout hidden ρ _ _ Store.initial :=
    ⟨hmirrors.without hidden, Store.holds_isInert_initial hidden⟩
  cases prelude with
  | none => exact ⟨ρ, _, _, hinitial⟩
  | some source =>
      refine ⟨ρ, Store.initial.printed.size, Store.initial.printed.size, ?_⟩
      exact (Correspondence.matches_load (Mirroring.admits_bypass limits) hinitial
        (h source rfl)).after

/-- **Definitions that no text asks for change nothing.**  If a symbol is in none of the texts
    of a session, or is that of a special form and only the first item of lists in them, then
    a definition of it, made anywhere in the session from an expression without a `def!`,
    changes no other answer and no other output. -/
theorem irrelevant_definition (prelude : Option String) (before after : List String)
    {name expr : String} (hname : IsReadableName name)
    (hunused : (∀ text ∈ prelude.toList ++ before ++ after, ⟨.symbol, name⟩ ∉ Token.lex text) ∨
      (∃ kind : SpecialForm, kind.name = name) ∧
        ∀ text ∈ prelude.toList ++ before ++ after, Token.Leads name (Token.lex text))
    (hexpr : ⟨.symbol, SpecialForm.define.name⟩ ∉ Token.lex expr) :
    let s := start limits prelude
    let definition := "(def! " ++ name ++ " " ++ expr ++ ")"
    (s.answerAll limits ((before ++ definition :: after).map .rep)).1.eraseIdx before.length =
      (s.answerAll limits ((before ++ after).map .rep)).1 := by
  intro s definition
  have hbypass : ∀ text ∈ prelude.toList ++ before ++ after,
      Token.Bypass [name] (Token.lex text) := by
    intro text htext
    rcases hunused with habsent | ⟨⟨kind, hkind⟩, hleads⟩
    · exact Token.bypass_of_not_mem (habsent text htext)
    · exact (hleads text htext).bypass hkind
  simp only [List.mem_append, or_imp, forall_and] at hbypass
  obtain ⟨⟨hprelude, hbefore⟩, hafter⟩ := hbypass
  -- Up to the definition the session mirrors itself, so its closures do not ask for the name.
  obtain ⟨ρ, p, q, hstart⟩ :=
    exists_mirrors_start limits prelude fun text htext => hprelude text (Option.mem_toList.mpr htext)
  have hinert := (answerAll_mirrors_without limits hstart hbefore).2.inert
  have hnumbered : (s.answerAll limits (before.map .rep)).2.store.IsNumbered :=
    isNumbered_answerAll limits (isNumbered_start limits prelude) before
  have hspares := Program.spares_definition limits (Nat.le_refl _) hname hexpr
    (s := (s.answerAll limits (before.map .rep)).2.store)
  rw [← store_carryOut _ _ Reply.printed] at hspares
  obtain ⟨ρ, hmirrors⟩ := hnumbered.exists_mirrors_without
    (counts_rep limits hnumbered definition) hspares hinert
  rw [eraseIdx_answerAll, List.map_append, answerAll_append]
  exact congrArg (_ ++ ·) (answerAll_mirrors_without limits hmirrors hafter).1

/-- A closure whose parameter is `if` goes on to tell true from false. -/
theorem irrelevant_definition_of_parameter :
    let s := start .standard none
    let setup := "(def! f (fn* (if) (if true 1 2)))"
    (∀ text ∈ [setup, "(f 7)"], Token.Leads "if" (Token.lex text)) ∧
      (s.answerAll .standard [.rep setup, .rep "(def! if (list 5))", .rep "(f 7)"]).1.eraseIdx 1 =
        (s.answerAll .standard [.rep setup, .rep "(f 7)"]).1 := by
  intro s setup
  have hleads : ∀ text ∈ [setup, "(f 7)"], Token.Leads "if" (Token.lex text) := by
    decide +kernel
  have hexpr : (⟨.symbol, SpecialForm.define.name⟩ : Token) ∉ Token.lex "(list 5)" := by
    decide +kernel
  have hname : IsReadableName "if" := Token.isReadableName_iff.mpr
    ⟨⟨List.cons_ne_nil _ _, List.all_eq_true.mp rfl⟩, by decide, by decide⟩
  have htext : "(def! " ++ "if" ++ " " ++ "(list 5)" ++ ")" = "(def! if (list 5))" := by decide
  have hanswers := irrelevant_definition .standard none [setup] ["(f 7)"] hname
    (.inr ⟨⟨.branch, rfl⟩, hleads⟩) hexpr
  rw [htext] at hanswers
  exact ⟨hleads, hanswers⟩

end Session

end TailLisp
