import TailLisp.Proofs.Interleaving
import TailLisp.Proofs.Parts
import TailLisp.Proofs.WellFormed

/-! # Showing — a text evaluated with and without its values being printed

    Two requests evaluate a text.  One is answered with the value of the last form.  The other
    prints each value as soon as there is one and is answered with the last of these texts, so
    it can fail at a form where the first goes on.  Nowhere else do the two part.

    * **`Unprinted`** — a value on the way that is not printed, and where the forms up to it lead.
    * **`Shows`** — how showing a text ends, by how evaluating it ends.  Form by form the two are
      at the same store, and what is shown so far is the text of the value so far.
    * **`rep_agrees_with_eval`** — so a shown text is that of the value, nothing is shown of a text
      without forms, and whatever fails in evaluating fails in showing, unless a value before it
      is not printed. -/

namespace TailLisp.Program

open Value

variable {limits : Limits}

/-- One of some forms that are evaluated one after another has a value that is not printed: the
    fault of printing it, and the store behind this form. -/
inductive Unprinted (limits : Limits) (forms : List Value) (s : Store) : Fault → Store → Prop where
  | intro {before : List Value} {form v : Value} {fault : Fault} {s' : Store} :
      before ++ [form] <+: forms →
      (evalInTurn limits .nil (before ++ [form])).run s = .ok v s' →
      v.print limits.depth = .error fault →
      Unprinted limits forms s fault s'

/-- How showing a text ends, in terms of what is found in it and of how evaluating it ends, with
    a value and its text, or else none, from the forms before. -/
inductive Shows (limits : Limits) (found : Harvest) (last : Value) (shown : Option String)
    (s : Store) : Outcome Value → Outcome (Option String) → Prop where
  /-- Nothing is left. -/
  | ended : found = ⟨[], none⟩ → Shows limits found last shown s (.ok last s) (.ok shown s)
  /-- The text is that of the value. -/
  | printed {v : Value} {text : String} {s' : Store} : v.print limits.depth = .ok text →
      Shows limits found last shown s (.ok v s') (.ok (some text) s')
  /-- Both fail alike. -/
  | failed {fault : Fault} {s' : Store} :
      Shows limits found last shown s (.error fault s') (.error fault s')
  /-- A value is not printed, whatever becomes of the forms behind it. -/
  | unprinted {fault : Fault} {s' : Store} {valued : Outcome Value} :
      Unprinted limits found.forms s fault s' →
      Shows limits found last shown s valued (.error fault s')

section Step

variable {form v : Value} {s s₁ : Store}

/-- The value of at least one form is the same whatever came before it. -/
theorem evalInTurn_of_ne_nil {forms : List Value} (h : forms ≠ []) (last other : Value) :
    evalInTurn limits last forms = evalInTurn limits other forms := by
  cases forms with
  | nil => exact absurd rfl h
  | cons form rest => rfl

theorem Unprinted.first (hform : (evalForm limits form).run s = .ok v s₁) {fault : Fault}
    (hprint : v.print limits.depth = .error fault) (forms : List Value) :
    Unprinted limits (form :: forms) s fault s₁ := by
  have hprefix : [] ++ [form] <+: form :: forms := List.prefix_append [form] forms
  exact .intro hprefix (run_evalInTurn_cons .nil hform []) hprint

/-- One more form in front, which has a value. -/
theorem Unprinted.cons (hform : (evalForm limits form).run s = .ok v s₁) {forms : List Value}
    {fault : Fault} {s' : Store} (h : Unprinted limits forms s₁ fault s') :
    Unprinted limits (form :: forms) s fault s' := by
  cases h with
  | @intro before last w _ _ hprefix hrun hprint =>
      have hrest : (evalInTurn limits v (before ++ [last])).run s₁ = .ok w s' := by
        rw [evalInTurn_of_ne_nil (List.concat_ne_nil last before) v .nil]
        exact hrun
      have hfirst := run_evalInTurn_cons .nil hform (before ++ [last])
      have hforms : (form :: before) ++ [last] <+: form :: forms :=
        List.cons_prefix_cons.mpr ⟨rfl, hprefix⟩
      exact .intro hforms (hfirst.trans hrest) hprint

/-- One more form in front, whose value is printed. -/
theorem Shows.cons (hform : (evalForm limits form).run s = .ok v s₁) {text : String}
    (hprint : v.print limits.depth = .ok text) {found : Harvest} {last : Value}
    {shown : Option String} {valued : Outcome Value} {told : Outcome (Option String)}
    (h : Shows limits found v (some text) s₁ valued told) :
    Shows limits (found.cons form) last shown s valued told := by
  cases h with
  | ended => exact .printed hprint
  | printed hlast => exact .printed hlast
  | failed => exact .failed
  | unprinted hvalue => exact .unprinted (hvalue.cons hform)

end Step

/-- Showing and evaluating what is left of a text, by induction on its forms. -/
theorem shows_fold (last : Value) (shown : Option String) (tokens : List Token) (s : Store) :
    Shows limits (harvest limits.depth tokens).1 last shown s
      ((fold limits (fun _ value => return value) last tokens).run s)
      ((fold limits (fun _ value => do return some (← value.print limits.depth)) shown
        tokens).run s) := by
  induction tokens using readForm_induct limits.depth generalizing last shown s with
  | failed tokens fault rest hread =>
      rw [fold_of_error _ _ hread, fold_of_error _ _ hread]
      exact .failed
  | ended tokens rest hread =>
      rw [harvest_of_none hread, fold_of_none _ _ hread, fold_of_none _ _ hread]
      exact .ended rfl
  | form tokens form rest hread ih =>
      rw [harvest_of_some hread, fold_of_some _ _ hread, fold_of_some _ _ hread,
        EStateM.run_bind, EStateM.run_bind]
      cases hform : (evalForm limits form).run s with
      | error fault s₁ => exact .failed
      | ok v s₁ =>
          cases hprint : v.print limits.depth with
          | error fault =>
              simp only [hprint]
              exact .unprinted (.first hform hprint _)
          | ok text =>
              simp only [hprint]
              exact (ih v (some text) s₁).cons hform hprint

variable {source : String} {s s' : Store}

variable (limits source s) in
theorem shows_rep :
    Shows limits (harvest limits.depth (Token.lex source)).1 .nil none s
      ((eval limits source).run s) ((rep limits source).run s) :=
  shows_fold .nil none (Token.lex source) s

/-- What a text is shown as is the text of its value. -/
theorem exists_run_eval_of_rep {text : String}
    (h : (rep limits source).run s = .ok (some text) s') :
    ∃ v, (eval limits source).run s = .ok v s' ∧ v.print limits.depth = .ok text := by
  have hshows := shows_rep limits source s
  rw [h] at hshows
  generalize (eval limits source).run s = valued at hshows ⊢
  cases hshows with
  | printed hprint => exact ⟨_, rfl, hprint⟩

/-- In a well-formed store, what fails in showing a text because of a value that is not printed
    fails for its digits or its depth. -/
theorem Unprinted.digits_or_depth {forms : List Value} {fault : Fault} (hs : s.WellFormed)
    (hshown : (rep limits source).run s = .error fault s')
    (h : Unprinted limits forms s fault s') : fault = .digitLimit ∨ fault = .stackOverflow := by
  have hreply : ((Session.ofStore s).answer limits (.rep source)).1 = .failed fault := by
    rw [Session.answer, Session.carryOut, Session.ofStore, hshown]
  have hordinary : fault.IsOrdinary := by
    have hclean := (Session.extends_answer limits (s := .ofStore s) hs (.rep source)).2
    rwa [hreply] at hclean
  cases h with
  | intro _ _ hprint =>
      cases unprintable_of_checkText (checkText_eq_error_of_print hprint) with
      | depth => exact .inr rfl
      | digits => exact .inl rfl
      | foreign => exact hordinary.elim

/-- **Showing a text and evaluating it agree.**  If a text is shown, what is shown is the text of
    the value that it is evaluated to, and both leave the same store.  Nothing is shown just if
    there is nothing in the text; then its value is `nil`, and the store stays as it is.  If
    evaluating fails, showing fails, with the same fault at the same store, unless the value of
    an earlier form is not printed.  If only showing fails, it is for a value that is not
    printed, at the store behind the form that has it; in a well-formed store, as all are that a
    session reaches, this value has an integer too long or is nested too deep. -/
theorem rep_agrees_with_eval (limits : Limits) (source : String) (s : Store) :
    let forms := (harvest limits.depth (Token.lex source)).1.forms
    let shown := (rep limits source).run s
    let valued := (eval limits source).run s
    (∀ text s', shown = .ok (some text) s' →
        ∃ v, valued = .ok v s' ∧ v.print limits.depth = .ok text) ∧
      (∀ s', shown = .ok none s' ↔ listOfString limits.depth source = .ok [] ∧ s' = s) ∧
      (listOfString limits.depth source = .ok [] → valued = .ok .nil s) ∧
      (∀ fault s', valued = .error fault s' → shown = .error fault s' ∨
        ∃ other s₁, shown = .error other s₁ ∧ Unprinted limits forms s other s₁) ∧
      ∀ v s₁ fault s', valued = .ok v s₁ → shown = .error fault s' →
        Unprinted limits forms s fault s' ∧
          (s.WellFormed → fault = .digitLimit ∨ fault = .stackOverflow) := by
  intro forms shown valued
  have hshows : Shows limits _ .nil none s valued shown := shows_rep limits source s
  have hempty : listOfString limits.depth source = .ok [] →
      valued = .ok .nil s ∧ shown = .ok none s := by
    intro hnothing
    obtain ⟨rest, hread⟩ := exists_readForm_eq_none hnothing
    have hvalued : eval limits source = pure .nil := fold_of_none _ _ hread
    have hshown : rep limits source = pure none := fold_of_none _ _ hread
    exact ⟨congrArg (·.run s) hvalued, congrArg (·.run s) hshown⟩
  refine ⟨?_, ?_, fun hnothing => (hempty hnothing).1, ?_, ?_⟩
  · exact fun text s' hshown => exists_run_eval_of_rep hshown
  · intro s'
    constructor
    · intro hshown
      rw [hshown] at hshows
      generalize valued = outcome at hshows
      cases hshows with
      | ended hfound =>
          refine ⟨?_, rfl⟩
          rw [listOfString, readForms_eq_harvest, Prod.map_fst, hfound]
          rfl
    · rintro ⟨hnothing, rfl⟩
      exact (hempty hnothing).2
  · intro fault s' hvalued
    rw [hvalued] at hshows
    generalize shown = outcome at hshows ⊢
    cases hshows with
    | failed => exact .inl rfl
    | unprinted hvalue => exact .inr ⟨_, _, rfl, hvalue⟩
  · intro v s₁ fault s' hvalued hshown
    rw [hvalued, hshown] at hshows
    cases hshows with
    | unprinted hvalue => exact ⟨hvalue, fun hs => hvalue.digits_or_depth hs hshown⟩

/-- A list that was made level by level is a value, but too deep to be shown on the way to `7`. -/
theorem rep_agrees_with_eval_of_deep_list :
    let limits : Limits := ⟨3, 100⟩
    let source := "(def! x (list 1)) (def! x (list x)) (def! x (list x)) (def! x (list x)) 7"
    let forms := (harvest limits.depth (Token.lex source)).1.forms
    (eval limits source).run' .initial = some (.int 7) ∧
      ∃ fault s', (rep limits source).run .initial = .error fault s' ∧
        Unprinted limits forms .initial fault s' ∧
        (fault = .digitLimit ∨ fault = .stackOverflow) := by
  intro limits source forms
  have hvalued : (eval limits source).run' .initial = some (.int 7) := by decide +kernel
  have hshown : (rep limits source).run' .initial = none := by decide +kernel
  refine ⟨hvalued, ?_⟩
  delta EStateM.run' at hvalued hshown
  cases heval : (eval limits source).run .initial with
  | error fault s₁ =>
      rw [heval] at hvalued
      cases hvalued
  | ok v s₁ =>
      cases hrep : (rep limits source).run .initial with
      | ok text s' =>
          rw [hrep] at hshown
          cases hshown
      | error fault s' =>
          obtain ⟨-, -, -, -, honly⟩ := rep_agrees_with_eval limits source .initial
          obtain ⟨hvalue, hkind⟩ := honly v s₁ fault s' heval hrep
          exact ⟨fault, s', rfl, hvalue, hkind .initial⟩

end TailLisp.Program
