import TailLisp.Proofs.Discipline
import TailLisp.Proofs.Parts

/-! # Journals — what is printed, by the events of a run

    Only calls of `prn` print, one value each.  A call that cannot print its value fails, and with
    it all that it is part of, so it comes last among the events.  What a run prints can therefore
    be told from its events: everything that `prn` was called with, but for a last call that failed.

    * **`Writes`** — what events write, given the fault that ended them if there was one.
    * **`Journal`** — a store that has printed what the events of a run write.
    * **`Traced.journals_evaluate`** — every run keeps its journal, whatever the store, by the
      way of the evaluator: one lemma for each function of it.
    * **`Session.journal_answerAll`** — so does a session, its prelude and each of its requests. -/

namespace TailLisp

/-! ## What events write -/

/-- The values that a completed event writes. -/
def Event.writes : Event → List Value
  | .called .prn args => args
  | _ => []

/-- The values that completed events write. -/
def written (events : List Event) : List Value := events.flatMap Event.writes

/-- What events write.  They were all completed, or all but the last, a call of `prn` that failed
    with the fault that ended them. -/
inductive Writes : Option Fault → List Event → List Value → Prop where
  | completed (ended : Option Fault) (events : List Event) : Writes ended events (written events)
  | refused {fault : Fault} {args : List Value} {room : Nat} {s : Store} (events : List Event) :
      (Builtin.prn.call room args).run s = .error fault s →
      Writes (some fault) (events ++ [.called .prn args]) (written events)

/-- Events that ended well were all completed. -/
theorem Writes.eq_written {events : List Event} {ws : List Value} (h : Writes none events ws) :
    ws = written events := by
  cases h with
  | completed => rfl

/-- What is written is what `prn` was called with. -/
theorem Writes.exists_call {ended : Option Fault} {events : List Event} {ws : List Value}
    (h : Writes ended events ws) {v : Value} (hv : v ∈ ws) :
    ∃ args, .called .prn args ∈ events ∧ v ∈ args := by
  have hwritten : ∀ {events : List Event}, v ∈ written events →
      ∃ args, .called .prn args ∈ events ∧ v ∈ args := by
    intro events hmem
    obtain ⟨event, hevent, hv⟩ := List.mem_flatMap.mp hmem
    unfold Event.writes at hv
    split at hv
    case h_1 args => exact ⟨args, hevent, hv⟩
    case h_2 => exact nomatch hv
  cases h with
  | completed => exact hwritten hv
  | refused events _ =>
      obtain ⟨args, hcall, hv⟩ := hwritten hv
      exact ⟨args, List.mem_append_left _ hcall, hv⟩

theorem Writes.append {ended : Option Fault} {es es' : List Event} {ws ws' : List Value}
    (h : Writes none es ws) (h' : Writes ended es' ws') :
    Writes ended (es ++ es') (ws ++ ws') := by
  obtain rfl := h.eq_written
  cases h' with
  | completed =>
      rw [written, written, ← List.flatMap_append]
      exact .completed ended (es ++ es')
  | refused events hcall =>
      rw [written, written, ← List.flatMap_append, ← List.append_assoc]
      exact .refused (es ++ events) hcall

/-- A value that can be printed, given levels enough. -/
def Value.IsPrintable (v : Value) : Prop :=
  ∃ room, v.checkText room = .ok ()

/-- From `s` on, `s'` has printed what the events write. -/
def Journal (ended : Option Fault) (s : Store) (events : List Event) (s' : Store) : Prop :=
  ∃ ws, Writes ended events ws ∧ s'.printed.toList = s.printed.toList ++ ws ∧
    ∀ v ∈ ws, v.IsPrintable

namespace Journal

variable {ended : Option Fault} {s s₁ s₂ : Store} {es es' : List Event}

/-- Events that write nothing, and nothing printed. -/
theorem silent (hnone : written es = []) (hprinted : s₁.printed = s.printed) :
    Journal ended s es s₁ := by
  refine ⟨written es, .completed ended es, ?_, ?_⟩
  · rw [hnone, hprinted, List.append_nil]
  · rw [hnone]
    exact List.forall_mem_nil _

theorem trans (h : Journal none s es s₁) (h' : Journal ended s₁ es' s₂) :
    Journal ended s (es ++ es') s₂ := by
  obtain ⟨ws, hwrites, hprinted, hprintable⟩ := h
  obtain ⟨ws', hwrites', hprinted', hprintable'⟩ := h'
  refine ⟨ws ++ ws', hwrites.append hwrites', ?_, ?_⟩
  · rw [hprinted', hprinted, List.append_assoc]
  · exact List.forall_mem_append.mpr ⟨hprintable, hprintable'⟩

end Journal

/-- The fault with which a computation stops, if it does. -/
def Eval.fault? {α : Type} (x : Eval α) (s : Store) : Option Fault :=
  match x.run s with
  | .ok _ _ => none
  | .error fault _ => some fault

/-! ## Calls of builtins -/

namespace Builtin

variable (room : Nat) (args : List Value) (s : Store)

/-- A call of `prn` prints its one argument, or fails and leaves the store alone. -/
theorem run_call_prn :
    (∃ v, args = [v] ∧ v.checkText room = .ok () ∧
      (Builtin.prn.call room args).run s = .ok .nil (s.record v)) ∨
      ∃ fault, (Builtin.prn.call room args).run s = .error fault s := by
  rw [call]
  split
  case isFalse => exact .inr ⟨_, rfl⟩
  case isTrue hcount =>
    obtain ⟨v, rfl⟩ := List.length_eq_one_iff.mp hcount
    rw [compute, EStateM.run_bind]
    cases hcheck : v.checkText room with
    | ok u => exact .inl ⟨v, rfl, hcheck, rfl⟩
    | error fault => exact .inr ⟨fault, rfl⟩

/-- The other builtins print nothing. -/
theorem printed_call {b : Builtin} (hb : b ≠ .prn) :
    ((b.call room args).after s).printed = s.printed := by
  by_cases hlist : b = .list
  · subst hlist
    rfl
  · rcases isPure_call room hlist hb args with ⟨v, -, hcall⟩ | ⟨fault, -, hcall⟩
    · rw [hcall]
      rfl
    · rw [hcall]
      rfl

end Builtin

/-- Applying anything but a builtin prints nothing. -/
theorem Eval.printed_apply (room : Nat) {fn : Value} (hfn : ∀ b, fn ≠ .builtin b)
    (vs : List Value) (s : Store) : ((apply room fn vs).after s).printed = s.printed := by
  by_cases hfunction : fn.IsFunction
  · cases fn with
    | builtin b => exact absurd rfl (hfn b)
    | closure i params body home =>
        rw [apply, enter]
        by_cases hlen : vs.length = params.length
        · rw [if_pos hlen]
          rfl
        · rw [if_neg hlen]
          rfl
    | _ => exact hfunction.elim
  · rw [apply_of_not_isFunction hfunction]
    cases fn.print room <;> rfl

/-! ## Runs -/

namespace Traced

variable {α β : Type} {nested : Traced.Evaluator}

/-- From any store on, a run keeps its journal. -/
def Journals (x : Traced α) : Prop :=
  ∀ s, Journal (x.eval.fault? s) s (x.events s) (x.eval.after s)

theorem journals_quiet {x : Eval α} (h : ∀ s, (x.after s).printed = s.printed) :
    (quiet x).Journals :=
  fun s => .silent rfl (h s)

theorem journals_pure (a : α) : (pure a : Traced α).Journals :=
  journals_quiet fun _ => rfl

theorem journals_throw (fault : Fault) : (quiet (throw fault) : Traced α).Journals :=
  journals_quiet fun _ => rfl

theorem journals_note {event : Event} (h : event.writes = []) : (note event).Journals :=
  fun _ => .silent (by rw [events_note, written, List.flatMap_singleton, h]) rfl

theorem Journals.bind {x : Traced α} {f : α → Traced β} (hx : x.Journals)
    (hf : ∀ a, (f a).Journals) : (x >>= f).Journals := by
  intro s
  have hfirst := hx s
  cases hrun : x.eval.run s with
  | ok a s₁ =>
      have hbind : (x >>= f).eval.run s = (f a).eval.run s₁ := by
        rw [eval_bind, EStateM.run_bind, hrun]
      rw [Eval.fault?, hrun, Eval.after_of_ok hrun] at hfirst
      rw [Eval.fault?, Eval.after, hbind, events_bind_ok hrun]
      exact hfirst.trans (hf a s₁)
  | error fault s₁ =>
      have hbind : (x >>= f).eval.run s = .error fault s₁ := by
        rw [eval_bind, EStateM.run_bind, hrun]
      rw [Eval.fault?, hrun, Eval.after_of_error hrun] at hfirst
      rw [Eval.fault?, Eval.after, hbind, events_bind_error hrun]
      exact hfirst

theorem journals_bindEach (hn : ∀ form e, (nested form e).Journals) (e : FrameId) (i : Nat)
    (bindings : List Value) : (bindEach nested e i bindings).Journals := by
  fun_induction bindEach nested e i bindings with
  | case1 i name form rest ih =>
      refine (hn form e).bind fun v => ?_
      exact (journals_quiet fun _ => rfl).bind fun _ => ih
  | case2 => exact journals_throw _
  | case3 => exact journals_throw _
  | case4 => exact journals_pure ()

theorem journals_evaluateAll (hn : ∀ form e, (nested form e).Journals) (e : FrameId)
    (forms : List Value) : (evaluateAll nested e forms).Journals := by
  induction forms with
  | nil => exact journals_pure []
  | cons form rest ih => exact (hn form e).bind fun v => ih.bind fun vs => journals_pure (v :: vs)

theorem journals_sequence (hn : ∀ form e, (nested form e).Journals) (e : FrameId)
    (forms : List Value) : (Traced.sequence nested e forms).Journals := by
  fun_induction Traced.sequence nested e forms with
  | case1 | case2 => exact journals_pure _
  | case3 form next rest ih => exact (hn form e).bind fun _ => ih

theorem journals_special (hn : ∀ form e, (nested form e).Journals) (kind : SpecialForm)
    (args : List Value) (e : FrameId) : (special nested kind args e).Journals := by
  cases hmisuse : kind.misuse? args with
  | some cause =>
      rw [special_of_misuse nested e hmisuse]
      exact journals_throw _
  | none =>
      cases SpecialForm.wellShaped_of_misuse?_eq_none hmisuse with
      | define name expr =>
          refine (hn expr e).bind fun v => (journals_quiet fun _ => rfl).bind fun _ => ?_
          exact (journals_note rfl).bind fun _ => journals_pure _
      | letStar j bindings body heven =>
          rw [special, if_neg (not_not_intro heven)]
          refine (journals_quiet fun _ => rfl).bind fun child => ?_
          exact (journals_bindEach hn child 0 bindings).bind fun _ => journals_pure _
      | branch cond yes no =>
          rw [special_branch]
          exact (hn cond e).bind fun v => journals_pure _
      | sequence => exact journals_sequence hn e args
      | lambda j names body hnodup =>
          refine journals_quiet fun s => ?_
          rw [Eval.special, Eval.makeClosure, SpecialForm.parameterNames_map [] hnodup]
          rfl

/-- The one place where something is printed. -/
theorem journals_apply (room : Nat) (fn : Value) (vs : List Value) :
    (apply room fn vs).Journals := by
  by_cases hbuiltin : ∃ b, fn = .builtin b
  · obtain ⟨b, rfl⟩ := hbuiltin
    by_cases hprn : b = .prn
    · subst hprn
      intro s
      have heval : (apply room (.builtin .prn) vs).eval.run s =
          (Builtin.prn.call room vs >>= fun v => pure (.value v)).run s := rfl
      have hevents : (apply room (.builtin .prn) vs).events s = [.called .prn vs] := rfl
      rw [Eval.fault?, Eval.after, heval, hevents, EStateM.run_bind]
      rcases Builtin.run_call_prn room vs s with ⟨v, rfl, hcheck, hcall⟩ | ⟨fault, hcall⟩
      · rw [hcall]
        refine ⟨[v], .completed none [.called .prn [v]], Array.toList_push, ?_⟩
        exact List.forall_mem_singleton.mpr ⟨room, hcheck⟩
      · rw [hcall]
        exact ⟨[], .refused [] hcall, (List.append_nil _).symm, List.forall_mem_nil _⟩
    · refine (journals_note ?_).bind fun _ => journals_quiet fun s => ?_
      · cases b with
        | prn => exact absurd rfl hprn
        | _ => rfl
      · have hcall := Builtin.printed_call room vs s hprn
        rw [Eval.after] at hcall
        rw [Eval.apply, Eval.after, EStateM.run_bind]
        cases hrun : (b.call room vs).run s <;> rw [hrun] at hcall <;> exact hcall
  · have hquiet : apply room fn vs = quiet (Eval.apply room fn vs) := by
      cases fn with
      | builtin b => exact absurd ⟨b, rfl⟩ hbuiltin
      | _ => rfl
    rw [hquiet]
    exact journals_quiet (Eval.printed_apply room (fun b hb => hbuiltin ⟨b, hb⟩) vs)

theorem journals_step (hn : ∀ form e, (nested form e).Journals) (room : Nat) (form : Value)
    (e : FrameId) : (step nested room form e).Journals := by
  refine (journals_note rfl).bind fun _ => ?_
  split
  case h_1 i head args =>
    cases Eval.step.specialForm? head with
    | some kind => exact journals_special hn kind args e
    | none =>
        refine (hn head e).bind fun fn => ?_
        exact (journals_evaluateAll hn e args).bind fun vs => journals_apply room fn vs
  case h_2 hlist =>
    refine journals_quiet fun s => ?_
    cases form with
    | sym name =>
        rw [Eval.step, Eval.after, EStateM.run_bind]
        cases hname : s.lookup? e name with
        | some v =>
            rw [Eval.run_lookup_some s hname]
            rfl
        | none =>
            rw [Eval.run_lookup_none s hname]
    | list i items =>
        cases items with
        | nil => rfl
        | cons head args => exact (hlist i head args rfl).elim
    | _ => rfl

theorem journals_follow {step : Value → FrameId → Traced Step}
    (hstep : ∀ form e, (step form e).Journals) (fuel : Nat) (form : Value) (e : FrameId) :
    (follow step fuel form e).Journals := by
  induction fuel generalizing form e with
  | zero => exact journals_throw _
  | succ n ih =>
      refine (hstep form e).bind ?_
      rintro (v | ⟨form', e'⟩)
      · exact journals_pure v
      · exact ih form' e'

/-- **Every run keeps its journal**, by induction on the depth it may take. -/
theorem journals_evaluate (fuel depth : Nat) (form : Value) (e : FrameId) :
    (evaluate fuel depth form e).Journals := by
  induction depth generalizing form e with
  | zero => exact journals_throw _
  | succ n ih => exact journals_follow (journals_step ih n) fuel form e

/-! ## Programs -/

variable (limits : Limits)

theorem journals_evalForm (form : Value) : (evalForm limits form).Journals :=
  journals_evaluate limits.fuel limits.depth form Store.root

theorem journals_next (tokens : List Token) : (next limits tokens).Journals := by
  rcases hread : Value.readForm limits.depth tokens with ⟨fault | (_ | form), rest⟩
  · simp only [next, hread]
    exact journals_throw fault
  · simp only [next, hread]
    exact journals_pure none
  · simp only [next, hread]
    exact (journals_evalForm limits form).bind fun v => journals_pure _

/-- All forms of a text, handed to what prints nothing, by induction on its forms. -/
theorem journals_fold (visit : α → Value → Eval α)
    (hvisit : ∀ a v s, ((visit a v).after s).printed = s.printed) (start : α)
    (tokens : List Token) : (fold limits visit start tokens).Journals := by
  induction tokens using Value.readForm_induct limits.depth generalizing start with
  | failed tokens fault rest hread =>
      rw [fold_of_error visit start hread]
      exact journals_throw fault
  | ended tokens rest hread =>
      rw [fold_of_none visit start hread]
      exact journals_pure start
  | form tokens form rest hread ih =>
      rw [fold_of_some visit start hread]
      refine (journals_evalForm limits form).bind fun v => ?_
      exact (journals_quiet (hvisit start v)).bind ih

end Traced

/-! ## Sessions -/

/-- The fault in a reply. -/
def Reply.fault? : Reply → Option Fault
  | .failed fault => some fault
  | .value _ | .printed _ | .opened _ | .done => none

namespace Session

open Traced

variable (limits : Limits)

/-- A part of a session: the fault that broke it off, if there was one, and its events. -/
abbrev Part := Option Fault × List Event

/-- What was there at the start of a session, its prelude if it has one. -/
def startPart (prelude : Option String) : Part :=
  (prelude.bind fun source => (Program.load limits source).fault? .initial,
    startEvents limits prelude)

/-- The requests of a session, each a part of its own. -/
def parts (s : Session) : List Request → List Part
  | [] => []
  | request :: rest =>
    let (reply, after) := s.answer limits request
    (reply.fault?, s.events limits request) :: parts after rest

/-- The events of the parts are those of the session. -/
theorem events_parts (s : Session) (requests : List Request) :
    (s.parts limits requests).flatMap Prod.snd = s.eventsAll limits requests := by
  induction requests generalizing s with
  | nil => rfl
  | cons request rest ih => exact congrArg (s.events limits request ++ ·) (ih _)

/-- What is carried out keeps its journal, and its fault is replied. -/
theorem journal_carryOut {α : Type} {x : Traced α} (hx : x.Journals) (s : Session)
    (reply : α → Reply) (hreply : ∀ a, (reply a).fault? = none) :
    Journal (s.carryOut x.eval reply).1.fault? s.store (x.events s.store)
      (s.carryOut x.eval reply).2.store := by
  have hjournal := hx s.store
  rw [carryOut]
  cases hrun : x.eval.run s.store with
  | ok a s' =>
      rw [Eval.fault?, hrun, Eval.after_of_ok hrun] at hjournal
      show Journal (reply a).fault? _ _ _
      rw [hreply]
      exact hjournal
  | error fault s' =>
      rw [Eval.fault?, hrun, Eval.after_of_error hrun] at hjournal
      exact hjournal

/-- One request. -/
theorem journal_answer (s : Session) (request : Request) :
    Journal (s.answer limits request).1.fault? s.store (s.events limits request)
      (s.answer limits request).2.store := by
  cases request with
  | eval source =>
      have hjournals := journals_fold limits (fun _ value => return value) (fun _ _ _ => rfl)
        Value.nil (Token.lex source)
      have hcarry := journal_carryOut hjournals s .value fun _ => rfl
      rw [eval_fold] at hcarry
      exact hcarry
  | rep source =>
      have hvisit : ∀ (a : Option String) (v : Value) (st : Store),
          (Eval.after (do return some (← v.print limits.depth)) st).printed = st.printed := by
        intro a v st
        cases v.print limits.depth <;> rfl
      have hjournals := journals_fold limits _ hvisit none (Token.lex source)
      have hcarry := journal_carryOut hjournals s .printed fun _ => rfl
      rw [eval_fold] at hcarry
      exact hcarry
  | openText source => exact .silent rfl rfl
  | next text =>
      have hjournal := journals_next limits (s.texts[text]?.getD []) s.store
      simp only [answer, advance, events]
      rw [← eval_next]
      cases hrun : (Traced.next limits (s.texts[text]?.getD [])).eval.run s.store with
      | ok result s' =>
          rw [Eval.fault?, hrun, Eval.after_of_ok hrun] at hjournal
          cases result with
          | none => exact hjournal
          | some entry => exact hjournal
      | error fault s' =>
          rw [Eval.fault?, hrun, Eval.after_of_error hrun] at hjournal
          exact hjournal

/-- Any number of requests, by induction on their list. -/
theorem journal_answerAll (s : Session) (requests : List Request) :
    ∃ wss, List.Forall₂ (fun part => Writes part.1 part.2) (s.parts limits requests) wss ∧
      (s.answerAll limits requests).2.store.printed.toList =
        s.store.printed.toList ++ wss.flatten ∧
      ∀ v ∈ wss.flatten, v.IsPrintable := by
  induction requests generalizing s with
  | nil => exact ⟨[], .nil, (List.append_nil _).symm, List.forall_mem_nil _⟩
  | cons request rest ih =>
      obtain ⟨ws, hwrites, hprinted, hprintable⟩ := journal_answer limits s request
      obtain ⟨wss, hrest, hlast, hall⟩ := ih (s.answer limits request).2
      refine ⟨ws :: wss, .cons hwrites hrest, ?_, ?_⟩
      · simp only [answerAll]
        rw [hlast, hprinted, List.flatten_cons, List.append_assoc]
      · rw [List.flatten_cons]
        exact List.forall_mem_append.mpr ⟨hprintable, hall⟩

/-- The start of a session, also where its prelude fails. -/
theorem journal_start (prelude : Option String) :
    Journal (startPart limits prelude).1 .initial (startPart limits prelude).2
      (start limits prelude).store := by
  cases prelude with
  | none => exact .silent rfl rfl
  | some source =>
      have hjournal := journals_fold limits (fun _ _ => return ()) (fun _ _ _ => rfl) ()
        (Token.lex source) .initial
      rw [eval_fold] at hjournal
      exact hjournal

end Session

end TailLisp
