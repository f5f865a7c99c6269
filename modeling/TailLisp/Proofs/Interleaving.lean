import TailLisp.Program
import TailLisp.Proofs.Descent
import TailLisp.Proofs.Exhaustion

/-! # Interleaving — reading a text between the evaluations of its forms

    A text is read while it is evaluated.  What there is to read is the same as if all of
    it was read beforehand, be it by looking ahead for the end or until no form is left.

    * The twin of evaluating a text, `progress`, also says which tokens are unread when it
      ends.
    * **`eval_interleaves`** — the forms are evaluated one after the other, and no further
      after one that fails, behind which nothing was read; the reader's fault comes after
      all forms before it.  The induction is on the forms, each of which is put in front of
      what is found behind it. -/

namespace TailLisp.Program

open Value

/-- Evaluates forms in the root frame one after the other; the value of the last, or `last`
    if there are none. -/
def evalInTurn (limits : Limits) (last : Value) (forms : List Value) : Eval Value :=
  forms.foldlM (fun _ form => evalForm limits form) last

/-- Reads and evaluates all forms; the value of the last, or `last` if there are none, and the
    tokens that were not read. -/
def progress (limits : Limits) (last : Value) (tokens : List Token) (s : Store) :
    Outcome Value × List Token :=
  match _h : readForm limits.depth tokens with
  | (.error fault, rest) => (.error fault s, rest)
  | (.ok none, rest) => (.ok last s, rest)
  | (.ok (some form), rest) =>
    match (evalForm limits form).run s with
    | .error fault s' => (.error fault s', rest)
    | .ok v s' => progress limits v rest s'
termination_by tokens.length
decreasing_by exact readForm_rest_length_lt _h

section Progress

variable {limits : Limits} {last : Value} {tokens rest : List Token} {s : Store}

theorem progress_of_error {fault : Fault}
    (h : readForm limits.depth tokens = (.error fault, rest)) :
    progress limits last tokens s = (.error fault s, rest) := by
  rw [progress]
  split <;> simp_all

theorem progress_of_none (h : readForm limits.depth tokens = (.ok none, rest)) :
    progress limits last tokens s = (.ok last s, rest) := by
  rw [progress]
  split <;> simp_all

theorem progress_of_some {form : Value}
    (h : readForm limits.depth tokens = (.ok (some form), rest)) :
    progress limits last tokens s =
      match (evalForm limits form).run s with
      | .error fault s' => (.error fault s', rest)
      | .ok v s' => progress limits v rest s' := by
  rw [progress]
  split <;> simp_all

/-- The unread tokens aside, this is the evaluation of a text. -/
theorem progress_fst (limits : Limits) (last : Value) (tokens : List Token) (s : Store) :
    (progress limits last tokens s).1 =
      (fold limits (fun _ value => return value) last tokens).run s := by
  induction tokens using readForm_induct limits.depth generalizing last s with
  | failed tokens fault rest hread =>
      rw [progress_of_error hread, fold_of_error _ _ hread]
      rfl
  | ended tokens rest hread =>
      rw [progress_of_none hread, fold_of_none _ _ hread]
      rfl
  | form tokens form rest hread ih =>
      rw [progress_of_some hread, fold_of_some _ _ hread, EStateM.run_bind]
      cases hform : (evalForm limits form).run s with
      | error fault s' => rfl
      | ok v s' => exact ih v s'

end Progress

/-- How evaluating a text ends, in terms of what is found when all of it is read. -/
inductive Interleaves (limits : Limits) (last : Value) (found : Harvest) (s : Store) :
    Outcome Value × List Token → Prop where
  /-- A form fails: those before it have been evaluated, and those behind it are still to be
      read. -/
  | failed {done rest : List Value} {form v : Value} {fault : Fault} {s₁ s₂ : Store}
      {unread : List Token} : found.forms = done ++ form :: rest →
      (evalInTurn limits last done).run s = .ok v s₁ →
      (evalForm limits form).run s₁ = .error fault s₂ →
      (harvest limits.depth unread).1 = ⟨rest, found.stopped⟩ →
      Interleaves limits last found s (.error fault s₂, unread)
  /-- The reader fails behind the last form. -/
  | stopped {fault : Fault} {v : Value} {s₁ : Store} {unread : List Token} :
      found.stopped = some fault → (evalInTurn limits last found.forms).run s = .ok v s₁ →
      Interleaves limits last found s (.error fault s₁, unread)
  /-- The end comes behind the last form. -/
  | finished {v : Value} {s₁ : Store} {unread : List Token} :
      found.stopped = none → (evalInTurn limits last found.forms).run s = .ok v s₁ →
      Interleaves limits last found s (.ok v s₁, unread)

theorem run_evalInTurn_cons {limits : Limits} (last : Value) {form v : Value} {s s' : Store}
    (h : (evalForm limits form).run s = .ok v s') (forms : List Value) :
    (evalInTurn limits last (form :: forms)).run s = (evalInTurn limits v forms).run s' := by
  rw [evalInTurn, List.foldlM_cons, EStateM.run_bind, h]
  rfl

/-- One more form in front, which has a value. -/
theorem Interleaves.cons {limits : Limits} {last form v : Value} {found : Harvest}
    {s s' : Store} {run : Outcome Value × List Token}
    (hform : (evalForm limits form).run s = .ok v s') (h : Interleaves limits v found s' run) :
    Interleaves limits last (found.cons form) s run := by
  have hfirst := run_evalInTurn_cons last hform
  cases h with
  | @failed done rest failing _ _ _ _ _ hforms hdone hfails hunread =>
      have hsplit : (found.cons form).forms = (form :: done) ++ failing :: rest :=
        congrArg (form :: ·) hforms
      exact .failed hsplit ((hfirst done).trans hdone) hfails hunread
  | stopped hstopped hall => exact .stopped hstopped ((hfirst found.forms).trans hall)
  | finished hstopped hall => exact .finished hstopped ((hfirst found.forms).trans hall)

theorem interleaves_progress (limits : Limits) (last : Value) (tokens : List Token)
    (s : Store) :
    Interleaves limits last (harvest limits.depth tokens).1 s
      (progress limits last tokens s) := by
  induction tokens using readForm_induct limits.depth generalizing last s with
  | failed tokens fault rest hread =>
      rw [harvest_of_error hread, progress_of_error hread]
      exact .stopped rfl rfl
  | ended tokens rest hread =>
      rw [harvest_of_none hread, progress_of_none hread]
      exact .finished rfl rfl
  | form tokens form rest hread ih =>
      rw [harvest_of_some hread, progress_of_some hread]
      cases hform : (evalForm limits form).run s with
      | error fault s' =>
          have hfirst : ((harvest limits.depth rest).1.cons form).forms =
              [] ++ form :: (harvest limits.depth rest).1.forms := rfl
          exact .failed hfirst rfl hform rfl
      | ok v s' => exact (ih v s').cons hform

/-- **Reading and evaluating take turns.**  The forms of a text, and the fault after them, are
    the same whether they are found by looking ahead for the end or by reading until there is
    none; and evaluating the text is to evaluate these forms one after the other, up to the
    first that fails, or to the reader's fault behind the last. -/
theorem eval_interleaves (limits : Limits) (source : String) (s : Store) :
    ∃ found : Harvest,
      ((TokenStream.ofList (Token.lex source)).harvest limits.depth).1 = found ∧
      (harvest limits.depth (Token.lex source)).1 = found ∧
      ∃ unread : List Token,
        progress limits .nil (Token.lex source) s = ((eval limits source).run s, unread) ∧
        Interleaves limits .nil found s ((eval limits source).run s, unread) := by
  refine ⟨_, ?_, rfl, (progress limits .nil (Token.lex source) s).2, ?_, ?_⟩
  · rw [TokenStream.harvest_eq limits.depth (TokenStream.length_buffer_ofList _)]
    rfl
  · exact Prod.ext (progress_fst limits .nil (Token.lex source) s) rfl
  · rw [eval, ← progress_fst]
    exact interleaves_progress limits .nil (Token.lex source) s

end TailLisp.Program
