import TailLisp.Proofs.Interleaving
import TailLisp.Session

/-! # Opened texts — texts read by turns make one program

    A session may have any number of texts open, each read up to some form, and evaluate other
    texts in between.  What an opened text gives next depends on what it gave before and on
    nothing else, and it is evaluated in the root frame as that is by then.  So all that is ever
    done is to evaluate single forms one after another, in the order in which they are asked for.

    * **`Reading`** — an opened text as its user sees it: what it is, and its replies so far.
    * **`recital`** — requests answered by single forms, with no tokens left to keep.
    * **`Session.Shows`** — the tokens that a session keeps of a text are those behind the forms
      it gave.  One request at a time this stays so, whatever becomes of the store.
    * **`Session.answerAll_recital`** — so a session is the recital of its requests. -/

namespace TailLisp

/-! ## Single forms -/

namespace Program

variable {α : Type} (limits : Limits)

/-- The store after forms were evaluated in the root frame one after another, whatever became of
    each of them. -/
def afterForms (s : Store) (forms : List Value) : Store :=
  forms.foldl (fun s form => (evalForm limits form).after s) s

/-- Evaluates forms one after another and hands each value to `visit`, up to the first fault;
    behind the last form there may be a fault of the reader.  The result, and the forms that were
    evaluated. -/
def recite (visit : α → Value → Except Fault α) (stopped : Option Fault) (a : α) (s : Store) :
    List Value → Except Fault α × List Value
  | [] => (stopped.elim (.ok a) .error, [])
  | form :: rest =>
    match (evalForm limits form).run s with
    | .error fault _ => (.error fault, [form])
    | .ok v s' =>
      match visit a v with
      | .error fault => (.error fault, [form])
      | .ok b =>
        let (result, forms) := recite visit stopped b s' rest
        (result, form :: forms)

theorem afterForms_append (s : Store) (forms others : List Value) :
    afterForms limits s (forms ++ others) = afterForms limits (afterForms limits s forms) others :=
  List.foldl_append

section Recite

variable {limits} {form v : Value} {fault : Fault} {s s' : Store}
  (visit : α → Value → Except Fault α) (stopped : Option Fault) (a : α) (rest : List Value)

theorem afterForms_of_ok (h : (evalForm limits form).run s = .ok v s') :
    afterForms limits s (form :: rest) = afterForms limits s' rest := by
  rw [afterForms, List.foldl_cons, Eval.after_of_ok h]
  rfl

theorem afterForms_of_error (h : (evalForm limits form).run s = .error fault s') :
    afterForms limits s [form] = s' :=
  Eval.after_of_error h

theorem recite_of_error (h : (evalForm limits form).run s = .error fault s') :
    recite limits visit stopped a s (form :: rest) = (.error fault, [form]) := by
  rw [recite, h]

theorem recite_of_refused (h : (evalForm limits form).run s = .ok v s')
    (hvisit : visit a v = .error fault) :
    recite limits visit stopped a s (form :: rest) = (.error fault, [form]) := by
  simp only [recite, h, hvisit]

theorem recite_of_ok (h : (evalForm limits form).run s = .ok v s') {b : α}
    (hvisit : visit a v = .ok b) :
    recite limits visit stopped a s (form :: rest) =
      ((recite limits visit stopped b s' rest).1,
        form :: (recite limits visit stopped b s' rest).2) := by
  simp only [recite, h, hvisit]

variable (limits) in
/-- Evaluating a text is a recital of the forms that are found in it. -/
theorem run_fold (start : α) (tokens : List Token) (s : Store) :
    let found := (Value.harvest limits.depth tokens).1
    let told := recite limits visit found.stopped start s found.forms
    (fold limits (fun a v => liftM (visit a v)) start tokens).run s =
      (liftM told.1 : Eval α).run (afterForms limits s told.2) := by
  intro found told
  induction tokens using Value.readForm_induct limits.depth generalizing start s with
  | failed tokens fault rest hread =>
      have hfound : found = ⟨[], some fault⟩ := congrArg Prod.fst (Value.harvest_of_error hread)
      rw [fold_of_error _ _ hread]
      simp only [told, hfound]
      rfl
  | ended tokens rest hread =>
      have hfound : found = ⟨[], none⟩ := congrArg Prod.fst (Value.harvest_of_none hread)
      rw [fold_of_none _ _ hread]
      simp only [told, hfound]
      rfl
  | form tokens form rest hread ih =>
      have hfound : found = (Value.harvest limits.depth rest).1.cons form :=
        congrArg Prod.fst (Value.harvest_of_some hread)
      rw [fold_of_some _ _ hread, EStateM.run_bind]
      simp only [told, hfound, Harvest.cons]
      cases hform : (evalForm limits form).run s with
      | error fault s' =>
          rw [recite_of_error _ _ _ _ hform, afterForms_of_error hform]
          rfl
      | ok v s' =>
          cases hvisit : visit start v with
          | error fault =>
              rw [recite_of_refused _ _ _ _ hform hvisit, afterForms_of_ok _ hform]
              simp only [hvisit]
              rfl
          | ok a =>
              rw [recite_of_ok _ _ _ _ hform hvisit, afterForms_of_ok _ hform]
              simp only [hvisit]
              exact ih a s'

end Recite

end Program

/-! ## What an opened text has shown -/

/-- The replies that hand out a value. -/
def Reply.IsValue : Reply → Prop
  | .value _ => True
  | _ => False

instance : DecidablePred Reply.IsValue := fun reply =>
  match reply with
  | .value _ => isTrue trivial
  | .printed _ | .opened _ | .done | .failed _ => isFalse id

/-- The reply to a request that comes to a result. -/
def Reply.ofResult {α : Type} (reply : α → Reply) : Except Fault α → Reply
  | .ok a => reply a
  | .error fault => .failed fault

/-- An opened text as its user sees it: what it is, and its replies so far. -/
structure Reading where
  source : String
  replies : List Reply

namespace Reading

open Program

variable (limits : Limits) (r : Reading)

/-- Nothing but values was replied so far. -/
def IsLive : Prop := ∀ reply ∈ r.replies, reply.IsValue

instance : Decidable r.IsLive :=
  inferInstanceAs (Decidable (∀ reply ∈ r.replies, reply.IsValue))

/-- The forms of the text, and the fault behind them if there is one. -/
def found : Harvest := (Value.harvest limits.depth (Token.lex r.source)).1

/-- The form that comes next, as far into the text as it was asked for forms. -/
def form? : Option Value := (r.found limits).forms[r.replies.length]?

/-- The same text after one more reply. -/
def note (reply : Reply) : Reading := ⟨r.source, r.replies ++ [reply]⟩

/-- The reply to the next request, and the forms that are evaluated for it.  Behind an end or a
    fault there is nothing more. -/
def next (s : Store) : Reply × List Value :=
  if r.IsLive then
    match r.form? limits with
    | some form =>
      match (evalForm limits form).run s with
      | .ok v _ => (.value v, [form])
      | .error fault _ => (.failed fault, [form])
    | none => ((r.found limits).stopped.elim .done .failed, [])
  else (.done, [])

/-- The tokens that are left of a text: those behind the forms that it gave, and none behind an
    end or a fault. -/
inductive Leaves : List Token → Prop where
  | live {tokens : List Token} : r.IsLive →
      (Value.harvest limits.depth tokens).1 =
        ⟨(r.found limits).forms.drop r.replies.length, (r.found limits).stopped⟩ →
      Leaves tokens
  | ended : ¬ r.IsLive → Leaves []

variable {limits r} {s s' : Store} {form v : Value} {fault : Fault}

theorem next_of_ok (hlive : r.IsLive) (hform : r.form? limits = some form)
    (h : (evalForm limits form).run s = .ok v s') : r.next limits s = (.value v, [form]) := by
  rw [next, if_pos hlive, hform]
  simp only [h]

theorem next_of_error (hlive : r.IsLive) (hform : r.form? limits = some form)
    (h : (evalForm limits form).run s = .error fault s') :
    r.next limits s = (.failed fault, [form]) := by
  rw [next, if_pos hlive, hform]
  simp only [h]

theorem next_of_none (hlive : r.IsLive) (hform : r.form? limits = none) (s : Store) :
    r.next limits s = ((r.found limits).stopped.elim .done .failed, []) := by
  rw [next, if_pos hlive, hform]

theorem next_of_ended (hended : ¬ r.IsLive) (s : Store) : r.next limits s = (.done, []) :=
  if_neg hended

/-- The next form is the first of those that are left. -/
theorem form?_of_harvest {tokens : List Token}
    (h : (Value.harvest limits.depth tokens).1 =
      ⟨(r.found limits).forms.drop r.replies.length, (r.found limits).stopped⟩) :
    r.form? limits = (Value.harvest limits.depth tokens).1.forms.head? := by
  rw [h, List.head?_drop, form?]

theorem isLive_note {reply : Reply} : (r.note reply).IsLive ↔ r.IsLive ∧ reply.IsValue := by
  simp only [IsLive, note, List.forall_mem_append, List.forall_mem_singleton]

/-- Behind anything but a value nothing is left. -/
theorem leaves_note (r : Reading) {reply : Reply} (h : ¬ reply.IsValue) :
    (r.note reply).Leaves limits [] :=
  .ended fun hlive => h (isLive_note.mp hlive).2

/-- Behind a form that has a value, its successors are left. -/
theorem leaves_note_value (hlive : r.IsLive) {tokens rest : List Token}
    (htokens : (Value.harvest limits.depth tokens).1 =
      ⟨(r.found limits).forms.drop r.replies.length, (r.found limits).stopped⟩)
    (hread : Value.readForm limits.depth tokens = (.ok (some form), rest)) (v : Value) :
    (r.note (.value v)).Leaves limits rest := by
  rw [Value.harvest_of_some hread] at htokens
  obtain ⟨hforms, hstopped⟩ := Harvest.mk.inj htokens
  refine .live (isLive_note.mpr ⟨hlive, trivial⟩) ?_
  have hdrop : (r.found limits).forms.drop (r.replies.length + 1) =
      (Value.harvest limits.depth rest).1.forms := by
    rw [← List.tail_drop, ← hforms]
    rfl
  rw [note, List.length_append, List.length_singleton]
  exact Harvest.mk.injEq .. ▸ ⟨hdrop.symm, hstopped⟩

end Reading

/-- What opened texts have shown after one more request with its reply. -/
def Reading.noteAll (opened : List Reading) : Request × Reply → List Reading
  | (.openText source, _) => opened ++ [⟨source, []⟩]
  | (.next text, reply) => opened.modify text (note · reply)
  | (.eval _, _) | (.rep _, _) => opened

/-- What the texts that were opened have shown in the course of some requests, in the order in
    which they were opened. -/
def readings (history : List (Request × Reply)) : List Reading :=
  history.foldl Reading.noteAll []

/-! ## Requests as single forms -/

section Recital

variable (limits : Limits)

/-- The reply to a request, and the forms that are evaluated for it, given what the opened texts
    have shown. -/
def account (opened : List Reading) (s : Store) : Request → Reply × List Value
  | .eval source =>
    let found := (Value.harvest limits.depth (Token.lex source)).1
    let told := Program.recite limits (fun _ v => .ok v) found.stopped .nil s found.forms
    (.ofResult .value told.1, told.2)
  | .rep source =>
    let found := (Value.harvest limits.depth (Token.lex source)).1
    let told := Program.recite limits (fun _ v => (v.print limits.depth).map some) found.stopped
      none s found.forms
    (.ofResult .printed told.1, told.2)
  | .openText _ => (.opened opened.length, [])
  | .next text => opened[text]?.elim (.done, []) (·.next limits s)

/-- Requests answered one after another by single forms: the replies with what was printed for
    each, and all forms in the order in which they are evaluated. -/
def recital (opened : List Reading) (s : Store) :
    List Request → List (Reply × String) × List Value
  | [] => ([], [])
  | request :: rest =>
    let (reply, forms) := account limits opened s request
    let s' := Program.afterForms limits s forms
    let (replies, others) := recital (Reading.noteAll opened (request, reply)) s' rest
    ((reply, s'.outputFrom s.printed.size) :: replies, forms ++ others)

end Recital

namespace Session

open Program

variable {limits : Limits} {s : Session} {opened : List Reading}

/-! ## Opened texts in a session -/

/-- The tokens that a session keeps are what is left of its opened texts. -/
structure Shows (limits : Limits) (s : Session) (opened : List Reading) : Prop where
  size : s.texts.size = opened.length
  text : ∀ (k : Nat) (r : Reading), opened[k]? = some r →
    ∃ tokens, s.texts[k]? = some tokens ∧ r.Leaves limits tokens

/-- What becomes of an opened text that is asked for a form: its reply, one form at most, and
    what is left of it then. -/
theorem advance_of_leaves {k : Nat} {r : Reading} {tokens : List Token}
    (htext : s.texts[k]? = some tokens) (hr : r.Leaves limits tokens) :
    ∃ rest, s.advance limits k =
        ((r.next limits s.store).1,
          ⟨afterForms limits s.store (r.next limits s.store).2, s.texts.setIfInBounds k rest⟩) ∧
      (r.note (r.next limits s.store).1).Leaves limits rest := by
  rw [advance, htext, Option.getD_some]
  cases hr with
  | ended hended =>
      rw [r.next_of_ended hended]
      exact ⟨[], rfl, r.leaves_note id⟩
  | live hlive hleft =>
      have hform := r.form?_of_harvest hleft
      have hstopped := congrArg Harvest.stopped hleft
      rcases hread : Value.readForm limits.depth tokens with ⟨fault | (_ | form), rest⟩
      · rw [Value.harvest_of_error hread] at hform hstopped
        rw [r.next_of_none hlive hform, ← hstopped]
        simp only [Program.next, hread]
        exact ⟨[], rfl, r.leaves_note id⟩
      · rw [Value.harvest_of_none hread] at hform hstopped
        rw [r.next_of_none hlive hform, ← hstopped]
        simp only [Program.next, hread]
        exact ⟨[], rfl, r.leaves_note id⟩
      · rw [Value.harvest_of_some hread] at hform
        simp only [Program.next, hread, EStateM.run_bind]
        cases hrun : (evalForm limits form).run s.store with
        | ok v s' =>
            rw [r.next_of_ok hlive hform hrun, afterForms_of_ok [] hrun]
            exact ⟨rest, rfl, r.leaves_note_value hlive hleft hread v⟩
        | error fault s' =>
            rw [r.next_of_error hlive hform hrun, afterForms_of_error hrun]
            exact ⟨[], rfl, r.leaves_note id⟩

/-- A text that was not opened has nothing to give. -/
theorem advance_of_none {k : Nat} (h : s.texts[k]? = none) : s.advance limits k = (.done, s) := by
  have hsize : s.texts.size ≤ k := Array.getElem?_eq_none_iff.mp h
  rw [advance, h, Option.getD_none]
  show (Reply.done, (⟨s.store, s.texts.setIfInBounds k []⟩ : Session)) = _
  rw [Array.setIfInBounds_eq_of_size_le hsize]

/-- Behind an end or a fault, a text that is asked does nothing at all. -/
theorem advance_of_ended {k : Nat} {r : Reading} (h : s.Shows limits opened)
    (hr : opened[k]? = some r) (hended : ¬ r.IsLive) : s.advance limits k = (.done, s) := by
  obtain ⟨tokens, htext, hleaves⟩ := h.text k r hr
  cases hleaves with
  | live hlive => exact absurd hlive hended
  | ended =>
      obtain ⟨hk, hget⟩ := Array.getElem?_eq_some_iff.mp htext
      rw [advance, htext, Option.getD_some]
      show (Reply.done, (⟨s.store, s.texts.setIfInBounds k []⟩ : Session)) = _
      rw [← hget, Array.setIfInBounds_def, dif_pos hk, Array.set_getElem_self]

/-- An evaluation that comes to a recital. -/
theorem carryOut_of_recital {α : Type} {x : Eval α} {told : Except Fault α × List Value}
    (h : x.run s.store = (liftM told.1 : Eval α).run (afterForms limits s.store told.2))
    (reply : α → Reply) :
    s.carryOut x reply =
      (.ofResult reply told.1, ⟨afterForms limits s.store told.2, s.texts⟩) := by
  obtain ⟨result, forms⟩ := told
  rw [carryOut, h]
  cases result <;> rfl

theorem Shows.openText (h : s.Shows limits opened) (source : String) :
    (s.answer limits (.openText source)).2.Shows limits (opened ++ [⟨source, []⟩]) := by
  refine ⟨?_, ?_⟩
  · rw [answer, Array.size_push, h.size, List.length_append, List.length_singleton]
  · intro k r hr
    rw [answer, Array.getElem?_push, h.size]
    by_cases hk : k = opened.length
    · subst hk
      obtain rfl : r = ⟨source, []⟩ := by simpa using hr.symm
      exact ⟨_, if_pos rfl, .live (List.forall_mem_nil _) rfl⟩
    · rw [if_neg hk]
      refine h.text k r ?_
      rwa [List.getElem?_append_left (by grind)] at hr

theorem Shows.next (h : s.Shows limits opened) {k : Nat} {r : Reading} (hr : opened[k]? = some r)
    {reply : Reply} {store : Store} {rest : List Token} (hrest : (r.note reply).Leaves limits rest) :
    Shows limits ⟨store, s.texts.setIfInBounds k rest⟩ (opened.modify k (·.note reply)) := by
  refine ⟨?_, ?_⟩
  · rw [Array.size_setIfInBounds, List.length_modify]
    exact h.size
  · intro j r' hr'
    rw [List.getElem?_modify] at hr'
    by_cases hkj : k = j
    · subst hkj
      rw [hr] at hr'
      obtain rfl : r.note reply = r' := by simpa using hr'
      have hk : k < s.texts.size := h.size ▸ (List.getElem?_eq_some_iff.mp hr).1
      exact ⟨rest, by rw [Array.getElem?_setIfInBounds_self, if_pos hk], hrest⟩
    · obtain ⟨tokens, htext, hleaves⟩ := h.text j r' (by simpa [hkj] using hr')
      exact ⟨tokens, by rwa [Array.getElem?_setIfInBounds_ne hkj], hleaves⟩

/-- **One request** is answered from what the opened texts have shown, by single forms. -/
theorem answer_account (h : s.Shows limits opened) (request : Request) :
    let told := account limits opened s.store request
    (s.answer limits request).1 = told.1 ∧
      (s.answer limits request).2.store = afterForms limits s.store told.2 ∧
      (s.answer limits request).2.Shows limits (Reading.noteAll opened (request, told.1)) := by
  intro told
  cases request with
  | eval source =>
      have hrun := run_fold limits (fun _ v => .ok v) .nil (Token.lex source) s.store
      have hcarry := carryOut_of_recital (x := Program.eval limits source) hrun .value
      rw [answer, hcarry]
      exact ⟨rfl, rfl, h.size, h.text⟩
  | rep source =>
      have hrun := run_fold limits (fun _ v => (v.print limits.depth).map some) none
        (Token.lex source) s.store
      have hrep : Program.rep limits source =
          fold limits (fun _ v => liftM ((v.print limits.depth).map some)) none
            (Token.lex source) := by
        have hvisit : ∀ v : Value, (do return some (← v.print limits.depth) : Eval _) =
            liftM ((v.print limits.depth).map some) := by
          intro v
          cases v.print limits.depth <;> rfl
        simp only [Program.rep, hvisit]
      rw [← hrep] at hrun
      rw [answer, carryOut_of_recital hrun]
      exact ⟨rfl, rfl, h.size, h.text⟩
  | openText source => exact ⟨congrArg Reply.opened h.size, rfl, h.openText source⟩
  | next text =>
      rw [answer]
      cases hr : opened[text]? with
      | none =>
          have htext : s.texts[text]? = none := by
            rw [List.getElem?_eq_none_iff, ← h.size] at hr
            exact Array.getElem?_eq_none hr
          have hsame : Reading.noteAll opened (.next text, told.1) = opened :=
            List.modify_eq_self (List.getElem?_eq_none_iff.mp hr)
          rw [advance_of_none htext, hsame]
          simp only [told, account, hr]
          exact ⟨rfl, rfl, h⟩
      | some r =>
          obtain ⟨tokens, htext, hleaves⟩ := h.text text r hr
          obtain ⟨rest, hadvance, hrest⟩ := advance_of_leaves htext hleaves
          rw [hadvance]
          simp only [told, account, hr]
          exact ⟨rfl, rfl, h.next hr hrest⟩

/-! ## Whole sessions -/

/-- Any number of requests, by induction on their list. -/
theorem answerAll_account (h : s.Shows limits opened) (requests : List Request) :
    let played := recital limits opened s.store requests
    let answers := (s.answerAll limits requests).1
    answers = played.1 ∧
      (s.answerAll limits requests).2.store = afterForms limits s.store played.2 ∧
      (s.answerAll limits requests).2.Shows limits
        ((requests.zip (answers.map Prod.fst)).foldl Reading.noteAll opened) := by
  induction requests generalizing s opened with
  | nil => exact ⟨rfl, rfl, h⟩
  | cons request rest ih =>
      obtain ⟨hreply, hstore, hshows⟩ := answer_account h request
      obtain ⟨hrest, hlast, hshown⟩ := ih hshows
      rw [← hreply] at hrest hlast hshown
      simp only [answerAll, recital]
      rw [afterForms_append, ← hstore, ← hreply]
      exact ⟨congrArg (_ :: ·) hrest, hlast, hshown⟩

/-- **Texts read by turns make one program.**  A session answers as the recital of its requests
    does, with the same output, and leaves the store that evaluating the single forms leaves.
    Opening a text evaluates nothing.  Whatever was asked in the meantime, a text that has only
    given values gives the form next in it, evaluated in the root frame of the store as it is,
    or else its end or its fault; and a text that has once not given a value is at its end for
    good, and asking it changes nothing. -/
theorem answerAll_recital (limits : Limits) (store : Store) (requests : List Request) :
    let answers := ((ofStore store).answerAll limits requests).1
    let s := ((ofStore store).answerAll limits requests).2
    let opened := readings (requests.zip (answers.map Prod.fst))
    let played := recital limits [] store requests
    (answers = played.1 ∧ s.store = afterForms limits store played.2) ∧
      (∀ source, (s.answer limits (.openText source)).1 = .opened opened.length ∧
        (s.answer limits (.openText source)).2.store = s.store) ∧
      ∀ (k : Nat) (r : Reading), opened[k]? = some r →
        (r.IsLive → ∀ form, (r.found limits).forms[r.replies.length]? = some form →
          (s.answer limits (.next k)).1 = (s.carryOut (evalForm limits form) .value).1 ∧
            (s.answer limits (.next k)).2.store = (evalForm limits form).after s.store) ∧
        (r.IsLive → (r.found limits).forms[r.replies.length]? = none →
          (s.answer limits (.next k)).1 = (r.found limits).stopped.elim .done .failed ∧
            (s.answer limits (.next k)).2.store = s.store) ∧
        (¬ r.IsLive → s.answer limits (.next k) = (.done, s)) := by
  intro answers s opened played
  have hstart : (ofStore store).Shows limits [] := ⟨rfl, fun k r hr => nomatch hr⟩
  obtain ⟨hanswers, hstore, hshows⟩ := answerAll_account hstart requests
  refine ⟨⟨hanswers, hstore⟩, ?_, ?_⟩
  · exact fun source => ⟨congrArg Reply.opened hshows.size, rfl⟩
  · intro k r hr
    obtain ⟨tokens, htext, hleaves⟩ := hshows.text k r hr
    obtain ⟨rest, hadvance, -⟩ := advance_of_leaves htext hleaves
    refine ⟨?_, ?_, ?_⟩
    · intro hlive form hform
      rw [answer, hadvance, carryOut]
      cases hrun : (evalForm limits form).run s.store with
      | ok v s' =>
          rw [r.next_of_ok hlive hform hrun, Eval.after_of_ok hrun]
          exact ⟨rfl, afterForms_of_ok [] hrun⟩
      | error fault s' =>
          rw [r.next_of_error hlive hform hrun, Eval.after_of_error hrun]
          exact ⟨rfl, afterForms_of_error hrun⟩
    · intro hlive hform
      rw [answer, hadvance, r.next_of_none hlive hform]
      exact ⟨rfl, rfl⟩
    · exact advance_of_ended hshows hr

/-- A text that failed for want of a name is not taken up again when the name is there, while
    another text that asks for the same name goes on. -/
theorem answerAll_recital_of_failed_text :
    let requests : List Request := [.openText "1 x 2", .openText "(def! x 3) x", .next 0,
      .next 0, .next 1, .rep "(def! x 4)"]
    let s := ((ofStore .initial).answerAll ⟨6, 100⟩ requests).2
    s.answer ⟨6, 100⟩ (.next 0) = (.done, s) ∧
      (s.answer ⟨6, 100⟩ (.next 1)).1 =
        (s.carryOut (evalForm ⟨6, 100⟩ (.sym "x")) .value).1 := by
  intro requests s
  obtain ⟨-, -, hnext⟩ := answerAll_recital ⟨6, 100⟩ .initial requests
  let opened := readings
    (requests.zip (((ofStore .initial).answerAll ⟨6, 100⟩ requests).1.map Prod.fst))
  have hfailed : opened[0]?.any (¬ Reading.IsLive ·) = true := by decide +kernel
  have hgoing : opened[1]?.any (fun r => r.IsLive ∧ r.form? ⟨6, 100⟩ = some (.sym "x")) = true := by
    decide +kernel
  obtain ⟨r, hr, hended⟩ := (Option.any_eq_true _ _).mp hfailed
  obtain ⟨r', hr', hlive⟩ := (Option.any_eq_true _ _).mp hgoing
  obtain ⟨hlive, hform⟩ := of_decide_eq_true hlive
  exact ⟨(hnext 0 r hr).2.2 (of_decide_eq_true hended), ((hnext 1 r' hr').1 hlive _ hform).1⟩

end Session

end TailLisp
