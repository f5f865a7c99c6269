import TailLisp.Proofs.CleanValues
import TailLisp.Proofs.Trace
import TailLisp.Proofs.Trampoline

/-! # Disciplines — what every evaluation keeps

    A `Discipline` says which forms may be taken up in which frame, which values may
    come of them, how the store may change on the way and with which faults a run
    may stop.  Its laws are about single acts only: one definition, one new frame,
    one call of a builtin, one refusal.

    * **`Ensures`** — what one traced run comes to, with the rule for sequencing.
    * **`WellShaped`** — the special forms that are not refused, by their shape.
    * **`Discipline.governs_evaluate`** — a discipline holds of every run, of any length and
      depth and however it ends.

    The proof goes the way of the evaluator: over the forms that a step evaluates on
    the way, over the chain of steps by induction on its length, over the nested runs
    by induction on the depth.  Every invariant of evaluation is a discipline. -/

namespace TailLisp

namespace Traced

variable {α β : Type} {P P' : List Event → Store → Prop} {s : Store}
  {Q Q' : α → Store → Prop} {E : Fault → Prop}

/-! ## Runs and their events -/

/-- From store `s` on, `P` holds of the events and the store that is left, however the run
    ends; a result has the property `Q` and a fault the property `E`. -/
structure Ensures (P : List Event → Store → Prop) (x : Traced α) (s : Store)
    (Q : α → Store → Prop) (E : Fault → Prop) : Prop where
  leaves : P (x.events s) (x.eval.after s)
  result : ∀ a s', x.eval.run s = .ok a s' → Q a s'
  fault : ∀ fault s', x.eval.run s = .error fault s' → E fault

namespace Ensures

theorem of_run_ok {x : Traced α} {a : α} {s' : Store} (hrun : x.eval.run s = .ok a s')
    (hP : P (x.events s) s') (hQ : Q a s') : Ensures P x s Q E := by
  refine ⟨?_, ?_, ?_⟩
  · rw [Eval.after_of_ok hrun]
    exact hP
  · intro b s₁ hb
    rw [hrun] at hb
    obtain ⟨rfl, rfl⟩ := EStateM.Result.ok.inj hb
    exact hQ
  · intro fault s₁ hf
    rw [hrun] at hf
    exact nomatch hf

theorem of_run_error {x : Traced α} {fault : Fault} {s' : Store}
    (hrun : x.eval.run s = .error fault s') (hP : P (x.events s) s') (hE : E fault) :
    Ensures P x s Q E := by
  refine ⟨?_, ?_, ?_⟩
  · rw [Eval.after_of_error hrun]
    exact hP
  · intro b s₁ hb
    rw [hrun] at hb
    exact nomatch hb
  · intro other s₁ hf
    rw [hrun] at hf
    obtain ⟨rfl, rfl⟩ := EStateM.Result.error.inj hf
    exact hE

/-- What a run ensures may be weakened. -/
theorem mono {x : Traced α} (h : Ensures P x s Q E) (hP : ∀ es s', P es s' → P' es s')
    (hQ : ∀ a s', P (x.events s) s' → Q a s' → Q' a s') : Ensures P' x s Q' E := by
  refine ⟨hP _ _ h.leaves, ?_, h.fault⟩
  intro a s' hrun
  have hleaves := h.leaves
  rw [Eval.after_of_ok hrun] at hleaves
  exact hQ a s' hleaves (h.result a s' hrun)

theorem imp_fault {E' : Fault → Prop} {x : Traced α} (h : Ensures P x s Q E)
    (hE : ∀ fault, E fault → E' fault) : Ensures P x s Q E' :=
  ⟨h.leaves, h.result, fun fault s' hrun => hE fault (h.fault fault s' hrun)⟩

/-- Sequencing: the rest has to ensure its part with the events so far in front. -/
theorem bind {x : Traced α} {f : α → Traced β} {R : β → Store → Prop} (hx : Ensures P x s Q E)
    (hstop : ∀ es s', P es s' → P' es s')
    (hf : ∀ a s', P (x.events s) s' → Q a s' →
      Ensures (fun es => P' (x.events s ++ es)) (f a) s' R E) :
    Ensures P' (x >>= f) s R E := by
  have hleaves := hx.leaves
  cases hrun : x.eval.run s with
  | ok a s₁ =>
      rw [Eval.after_of_ok hrun] at hleaves
      have hrest := hf a s₁ hleaves (hx.result a s₁ hrun)
      have hbind : (x >>= f).eval.run s = (f a).eval.run s₁ := by
        rw [eval_bind, EStateM.run_bind, hrun]
      refine ⟨?_, ?_, ?_⟩
      · have hafter : (x >>= f).eval.after s = (f a).eval.after s₁ := by
          rw [Eval.after, hbind]
          rfl
        rw [hafter, events_bind_ok hrun]
        exact hrest.leaves
      · intro b s₂ hb
        exact hrest.result b s₂ (hbind ▸ hb)
      · intro fault s₂ hb
        exact hrest.fault fault s₂ (hbind ▸ hb)
  | error fault s₁ =>
      rw [Eval.after_of_error hrun] at hleaves
      have hbind : (x >>= f).eval.run s = .error fault s₁ := by
        rw [eval_bind, EStateM.run_bind, hrun]
      have hevents : P' ((x >>= f).events s) s₁ := by
        rw [events_bind_error hrun]
        exact hstop _ _ hleaves
      exact of_run_error hbind hevents (hx.fault fault s₁ hrun)

end Ensures

/-- A special form of the wrong shape is refused before anything happens. -/
theorem special_of_misuse (nested : Evaluator) (frame : FrameId) {kind : SpecialForm}
    {args : List Value} {cause : LispError} (h : kind.misuse? args = some cause) :
    special nested kind args frame = quiet (Eval.fail cause) := by
  have hfail := Eval.special_of_misuse nested.plain frame h
  unfold special
  split
  case h_1 | h_3 | h_4 | h_5 => exact nomatch h
  case h_2 j bindings body =>
    by_cases hodd : bindings.length % 2 ≠ 0
    · rw [if_pos hodd, hfail]
    · have hnone : SpecialForm.misuse? .letStar [.list j bindings, body] = none :=
        congrArg (Option.map _) (if_pos (not_not.mp hodd))
      rw [hnone] at h
      exact nomatch h
  case h_6 => rw [hfail]

end Traced

/-! ## Special forms by their shape -/

/-- The arguments with which a special form is not refused at once. -/
inductive SpecialForm.WellShaped : SpecialForm → List Value → Prop where
  | define (name : String) (expr : Value) : WellShaped .define [.sym name, expr]
  | letStar (serial : Option Serial) (bindings : List Value) (body : Value) :
      bindings.length % 2 = 0 → WellShaped .letStar [.list serial bindings, body]
  | branch (cond yes : Value) (no : Option Value) :
      WellShaped .branch (cond :: yes :: no.toList)
  | sequence (forms : List Value) : WellShaped .sequence forms
  | lambda (serial : Option Serial) (names : List String) (body : Value) : names.Nodup →
      WellShaped .lambda [.list serial (names.map .sym), body]

/-- Parameters without a defect are different symbols. -/
theorem SpecialForm.names_of_parameterDefect? {params : List Value}
    (h : SpecialForm.parameterDefect? [] params = none) :
    ∃ names : List String, names.Nodup ∧ params = names.map .sym := by
  have heq := SpecialForm.parameterDefect?_eq [] params rfl
  rw [List.map_nil, h, List.length_nil] at heq
  cases hnames : Eval.parameterNames 0 [] params with
  | ok names =>
      obtain ⟨hnodup, hparams⟩ := SpecialForm.parameterNames_eq_ok hnames List.nodup_nil
      exact ⟨names, hnodup, hparams.symm⟩
  | error defect =>
      rw [hnames] at heq
      exact nomatch heq

/-- What is not refused has one of the shapes. -/
theorem SpecialForm.wellShaped_of_misuse?_eq_none {kind : SpecialForm} {args : List Value}
    (h : kind.misuse? args = none) : kind.WellShaped args := by
  have hcount : kind.arity.Admits args.length := by
    by_contra hcount
    rw [SpecialForm.misuse?, if_neg hcount] at h
    cases h
  rw [SpecialForm.misuse?, if_pos hcount, Option.map_eq_none_iff] at h
  cases kind with
  | define =>
      obtain ⟨first, expr, rfl⟩ := List.length_eq_two.mp hcount
      cases first with
      | sym name => exact .define name expr
      | _ => cases h
  | letStar =>
      obtain ⟨first, body, rfl⟩ := List.length_eq_two.mp hcount
      cases first with
      | list serial bindings =>
          refine .letStar serial bindings body ?_
          by_contra hodd
          cases (if_neg hodd).symm.trans h
      | _ => cases h
  | branch =>
      rcases hcount with htwo | hthree
      · obtain ⟨cond, yes, rfl⟩ := List.length_eq_two.mp htwo
        exact .branch cond yes none
      · obtain ⟨cond, yes, no, rfl⟩ := List.length_eq_three.mp hthree
        exact .branch cond yes (some no)
  | sequence => exact .sequence args
  | lambda =>
      obtain ⟨first, body, rfl⟩ := List.length_eq_two.mp hcount
      cases first with
      | list serial params =>
          obtain ⟨names, hnodup, rfl⟩ := SpecialForm.names_of_parameterDefect? h
          exact .lambda serial names body hnodup
      | _ => cases h

/-! ## Disciplines -/

open Traced in
/-- A rule of conduct for evaluations, with the laws that make every run follow it.  `e` is
    the current frame throughout. -/
structure Discipline where
  /-- The forms that may be evaluated in a frame. -/
  Takes : Store → FrameId → Value → Prop
  /-- The bindings of a `let*` that are still to come, with its body. -/
  Prepares : Store → FrameId → List Value → Value → Prop
  /-- The values that may come of it. -/
  Gives : Store → Value → Prop
  /-- How the store may change, and what may happen on the way. -/
  Changes : FrameId → Store → List Event → Store → Prop
  /-- The faults with which a run may stop. -/
  Fails : Fault → Prop
  grows {e s es s'} : Changes e s es s' → s.frames.size ≤ s'.frames.size
  refl {e s} : Changes e s [] s
  trans {e s s₁ s₂ es es'} : Changes e s es s₁ → Changes e s₁ es' s₂ → Changes e s (es ++ es') s₂
  /-- What happens in a younger frame counts as a change from the older one. -/
  inside {e e' s s₁ s₂ es es'} : Changes e s es s₁ → s.frames.size ≤ e' →
    Changes e' s₁ es' s₂ → Changes e s (es ++ es') s₂
  takes_mono {e s es s' form} : Changes e s es s' → Takes s e form → Takes s' e form
  prepares_mono {e s es s' bindings body} : Changes e s es s' → Prepares s e bindings body →
    Prepares s' e bindings body
  gives_mono {e s es s' v} : Changes e s es s' → Gives s v → Gives s' v
  taken {s e form} : Takes s e form → Changes e s [.entered form e] s
  nil {s e form} : Takes s e form → Takes s e .nil
  self {s e form} : Takes s e form → form.IsSelfEvaluating → Gives s form
  found {s e name v} : Takes s e (.sym name) → s.lookup? e name = some v → Gives s v
  unbound {s e name} : Takes s e (.sym name) → s.lookup? e name = none →
    Fails (.error (.unbound name))
  misused {s e i args cause} {kind : SpecialForm} : Takes s e (kind.applied i args) →
    kind.misuse? args = some cause → Fails (.error cause)
  definiens {s e i name expr} : Takes s e (SpecialForm.define.applied i [.sym name, expr]) →
    Takes s e expr
  defined {s e i name expr v} : Takes s e (SpecialForm.define.applied i [.sym name, expr]) →
    Gives s v → Changes e s [.defined e name v] (s.define e name v)
  opened {s e i j body} {bindings : List Value} :
    Takes s e (SpecialForm.letStar.applied i [.list j bindings, body]) →
    bindings.length % 2 = 0 →
    Changes e s [] (s.addFrame e []) ∧ Prepares (s.addFrame e []) s.frames.size bindings body
  binding {s e name form rest body} : Prepares s e (.sym name :: form :: rest) body →
    Takes s e form
  bound {s e name form rest body v} : Prepares s e (.sym name :: form :: rest) body →
    Gives s v → Changes e s [] (s.define e name v) ∧ Prepares (s.define e name v) e rest body
  dangling {s e name body} : Prepares s e [.sym name] body → Fails .outOfRange
  misnamed {s e head rest body} (i : Nat) : Prepares s e (head :: rest) body →
    (∀ name, head ≠ .sym name) → Fails (.error (.malformed .letStar (.bindingNotSymbol i)))
  prepared {s e body} : Prepares s e [] body → Takes s e body
  branch {s e i cond yes} {no : Option Value} :
    Takes s e (SpecialForm.branch.applied i (cond :: yes :: no.toList)) →
    Takes s e cond ∧ Takes s e yes ∧ Takes s e (no.getD .nil)
  sequence {s e i forms} : Takes s e (SpecialForm.sequence.applied i forms) →
    ∀ form ∈ forms, Takes s e form
  lambda {s e i j body} {names : List String} :
    Takes s e (SpecialForm.lambda.applied i [.list j (names.map .sym), body]) → names.Nodup →
    Changes e s [] { s with nextSerial := s.nextSerial + 1 } ∧
      Gives { s with nextSerial := s.nextSerial + 1 } (.closure s.nextSerial names body e)
  application {s e i head args} : Takes s e (.list i (head :: args)) →
    (∀ kind : SpecialForm, head ≠ .sym kind.name) → Takes s e head ∧ ∀ arg ∈ args, Takes s e arg
  called {s e form b vs} (room : Nat) : Takes s e form → Gives s (.builtin b) →
    (∀ v ∈ vs, Gives s v) →
    Ensures (fun es => Changes e s (.called b vs :: es)) (quiet (b.call room vs)) s
      (fun v s' => Gives s' v) Fails
  entered {s e form i params body home} {vs : List Value} : Takes s e form →
    Gives s (.closure i params body home) → (∀ v ∈ vs, Gives s v) → vs.length = params.length →
    Changes e s [] (s.addFrame home (Bindings.ofList (params.zip vs))) ∧
      Takes (s.addFrame home (Bindings.ofList (params.zip vs))) s.frames.size body
  miscounted {s i params body home} {vs : List Value} : Gives s (.closure i params body home) →
    vs.length ≠ params.length →
    Fails (.error (.arity "function" (.exactly params.length) vs.length))
  uncallable {s} {fn : Value} (room : Nat) : Gives s fn → ¬ fn.IsFunction →
    match fn.print room with
    | .ok shown => Fails (.error (.notCallable shown))
    | .error fault => Fails fault
  stackOverflow : Fails .stackOverflow
  outOfFuel : Fails .outOfFuel

namespace Discipline

open Traced

/-- A discipline that allows all faults has nothing to say of what is no function. -/
theorem uncallable_of_all (fn : Value) (room : Nat) :
    match fn.print room with
    | .ok _ => True
    | .error _ => True := by
  split <;> trivial

variable {α β : Type} (D : Discipline) {nested : Traced.Evaluator} {e : FrameId} {s : Store}

/-- A run from frame `e` follows the discipline and comes to a result with a property. -/
abbrev Follows (e : FrameId) (x : Traced α) (s : Store) (Q : α → Store → Prop) : Prop :=
  Ensures (D.Changes e s) x s Q D.Fails

/-- An evaluator all of whose runs follow the discipline. -/
def Governs (nested : Traced.Evaluator) : Prop :=
  ∀ form e s, D.Takes s e form → D.Follows e (nested form e) s fun v s' => D.Gives s' v

/-- What a step from frame `e` may come to: a value, or a form that may be evaluated in the
    same frame or in one that was not there when there were `n`. -/
def Reaches (n : Nat) (e : FrameId) : Step → Store → Prop
  | .value v, s => D.Gives s v
  | .tail form e', s => D.Takes s e' form ∧ (e' = e ∨ n ≤ e')

variable {D}

theorem follows_pure {a : α} {Q : α → Store → Prop} (h : Q a s) : D.Follows e (pure a) s Q :=
  .of_run_ok rfl D.refl h

theorem follows_throw {fault : Fault} {Q : α → Store → Prop} (h : D.Fails fault) :
    D.Follows e (quiet (throw fault)) s Q :=
  .of_run_error (Eval.run_throw s fault) D.refl h

theorem follows_bind {x : Traced α} {f : α → Traced β} {Q : α → Store → Prop}
    {R : β → Store → Prop} (hx : D.Follows e x s Q)
    (hf : ∀ a s', D.Changes e s (x.events s) s' → Q a s' → D.Follows e (f a) s' R) :
    D.Follows e (x >>= f) s R := by
  refine Ensures.bind hx (fun _ _ h => h) ?_
  intro a s' hx' hQ
  refine (hf a s' hx' hQ).mono ?_ (fun _ _ _ h => h)
  intro es s₂ hrest
  exact D.trans hx' hrest

theorem follows_bindEach (hn : D.Governs nested) (i : Nat) (bindings : List Value) {body : Value}
    (h : D.Prepares s e bindings body) :
    D.Follows e (bindEach nested e i bindings) s fun _ s' => D.Takes s' e body := by
  fun_induction bindEach nested e i bindings generalizing s with
  | case1 i name form rest ih =>
      refine follows_bind (hn form e s (D.binding h)) ?_
      intro v s₁ hchange hv
      have hprepared := D.prepares_mono hchange h
      obtain ⟨hdefine, hrest⟩ := D.bound hprepared hv
      have hbound : D.Follows e (quiet (Eval.define e name v)) s₁
          fun _ s' => D.Prepares s' e rest body :=
        .of_run_ok (Eval.run_define s₁ e name v) hdefine hrest
      refine follows_bind hbound ?_
      intro _ s₂ _ hrest
      exact ih hrest
  | case2 name => exact follows_throw (D.dangling h)
  | case3 i head rest hpair hsingle =>
      refine follows_throw (D.misnamed i h ?_)
      rintro name rfl
      cases rest with
      | nil => exact hsingle name rfl rfl
      | cons form rest => exact hpair name form rest rfl rfl
  | case4 => exact follows_pure (D.prepared h)

theorem follows_evaluateAll (hn : D.Governs nested) (forms : List Value)
    (h : ∀ form ∈ forms, D.Takes s e form) :
    D.Follows e (evaluateAll nested e forms) s fun vs s' => ∀ v ∈ vs, D.Gives s' v := by
  induction forms generalizing s with
  | nil => exact follows_pure (List.forall_mem_nil _)
  | cons form rest ih =>
      obtain ⟨hform, hrest⟩ := List.forall_mem_cons.mp h
      refine follows_bind (hn form e s hform) ?_
      intro v s₁ hchange hv
      have hrest₁ : ∀ form ∈ rest, D.Takes s₁ e form := fun form hmem =>
        D.takes_mono hchange (hrest form hmem)
      refine follows_bind (ih hrest₁) ?_
      intro vs s₂ hchange₂ hvs
      refine follows_pure (List.forall_mem_cons.mpr ⟨?_, hvs⟩)
      exact D.gives_mono hchange₂ hv

theorem follows_sequence (hn : D.Governs nested) {n : Nat} (forms : List Value)
    (hnil : D.Takes s e .nil) (h : ∀ form ∈ forms, D.Takes s e form) :
    D.Follows e (Traced.sequence nested e forms) s (D.Reaches n e) := by
  fun_induction Traced.sequence nested e forms generalizing s with
  | case1 => exact follows_pure (D.self hnil trivial)
  | case2 last => exact follows_pure ⟨h last List.mem_cons_self, .inl rfl⟩
  | case3 form next rest ih =>
      obtain ⟨hform, hrest⟩ := List.forall_mem_cons.mp h
      refine follows_bind (hn form e s hform) ?_
      intro _ s₁ hchange _
      refine ih (D.takes_mono hchange hnil) ?_
      intro form hmem
      exact D.takes_mono hchange (hrest form hmem)

theorem follows_define (hn : D.Governs nested) {i : Option Serial} {name : String}
    {expr : Value} (h : D.Takes s e (SpecialForm.define.applied i [.sym name, expr])) :
    D.Follows e (special nested .define [.sym name, expr] e) s (D.Reaches s.frames.size e) := by
  refine follows_bind (hn expr e s (D.definiens h)) ?_
  intro v s₁ hchange hv
  have hdefine := D.defined (D.takes_mono hchange h) hv
  -- The binding and its note are one change: neither makes sense alone.
  refine .of_run_ok (a := .value v) rfl hdefine ?_
  exact D.gives_mono hdefine hv

theorem follows_letStar (hn : D.Governs nested) {i j : Option Serial} {bindings : List Value}
    {body : Value} (h : D.Takes s e (SpecialForm.letStar.applied i [.list j bindings, body]))
    (heven : bindings.length % 2 = 0) :
    D.Follows e (special nested .letStar [.list j bindings, body] e) s
      (D.Reaches s.frames.size e) := by
  obtain ⟨hopen, hprepared⟩ := D.opened h heven
  have hchild : D.Follows e (quiet (Eval.newFrame e [])) s
      fun child s' => child = s.frames.size ∧ s' = s.addFrame e [] :=
    .of_run_ok (Eval.run_newFrame s e []) hopen ⟨rfl, rfl⟩
  rw [special, if_neg (not_not_intro heven)]
  refine Ensures.bind hchild (fun _ _ h => h) ?_
  rintro child s₁ - ⟨rfl, rfl⟩
  -- The rest happens in the new frame and is seen from the old one at the end.
  have hrest : D.Follows s.frames.size
      (bindEach nested s.frames.size 0 bindings >>= fun _ =>
        pure (.tail body s.frames.size)) (s.addFrame e []) (D.Reaches s.frames.size e) := by
    refine follows_bind (follows_bindEach hn 0 bindings hprepared) ?_
    intro _ s₂ _ hbody
    exact follows_pure ⟨hbody, .inr (Nat.le_refl _)⟩
  refine hrest.mono ?_ (fun _ _ _ h => h)
  intro es s₂ hchange
  exact D.inside hopen (Nat.le_refl _) hchange

theorem follows_branch (hn : D.Governs nested) {i : Option Serial} {cond yes : Value}
    {no : Option Value}
    (h : D.Takes s e (SpecialForm.branch.applied i (cond :: yes :: no.toList))) :
    D.Follows e (special nested .branch (cond :: yes :: no.toList) e) s
      (D.Reaches s.frames.size e) := by
  obtain ⟨hcond, -, -⟩ := D.branch h
  rw [special_branch]
  refine follows_bind (hn cond e s hcond) ?_
  intro v s₁ hchange _
  obtain ⟨-, hyes, hno⟩ := D.branch (D.takes_mono hchange h)
  refine follows_pure ⟨?_, .inl rfl⟩
  split
  · exact hyes
  · exact hno

theorem follows_lambda (nested : Traced.Evaluator) {i j : Option Serial} {names : List String}
    {body : Value}
    (h : D.Takes s e (SpecialForm.lambda.applied i [.list j (names.map .sym), body]))
    (hnodup : names.Nodup) :
    D.Follows e (special nested .lambda [.list j (names.map .sym), body] e) s
      (D.Reaches s.frames.size e) := by
  obtain ⟨hchange, hgives⟩ := D.lambda h hnodup
  have hmake : Eval.special nested.plain .lambda [.list j (names.map .sym), body] e =
      Eval.newSerial >>= fun serial => pure (.value (.closure serial names body e)) := by
    rw [Eval.special, Eval.makeClosure, SpecialForm.parameterNames_map [] hnodup]
    rfl
  show D.Follows e (quiet (Eval.special _ _ _ _)) s _
  rw [hmake]
  exact .of_run_ok rfl hchange hgives

/-- A special form is refused at once or has one of the shapes above. -/
theorem follows_special (hn : D.Governs nested) {i : Option Serial} {kind : SpecialForm}
    {args : List Value} (h : D.Takes s e (kind.applied i args)) :
    D.Follows e (special nested kind args e) s (D.Reaches s.frames.size e) := by
  cases hmisuse : kind.misuse? args with
  | some cause =>
      rw [special_of_misuse nested e hmisuse]
      exact follows_throw (D.misused h hmisuse)
  | none =>
      cases SpecialForm.wellShaped_of_misuse?_eq_none hmisuse with
      | define name expr => exact follows_define hn h
      | letStar j bindings body heven => exact follows_letStar hn h heven
      | branch cond yes no => exact follows_branch hn h
      | sequence => exact follows_sequence hn args (D.nil h) (D.sequence h)
      | lambda j names body hnodup => exact follows_lambda nested h hnodup

theorem follows_apply (room : Nat) {form fn : Value} {vs : List Value} (h : D.Takes s e form)
    (hfn : D.Gives s fn) (hvs : ∀ v ∈ vs, D.Gives s v) :
    D.Follows e (apply room fn vs) s (D.Reaches s.frames.size e) := by
  by_cases hfunction : fn.IsFunction
  · cases fn with
    | builtin b =>
        have hcall := D.called room h hfn hvs
        have hleaves := hcall.leaves
        have heval : (apply room (.builtin b) vs).eval.run s =
            (b.call room vs >>= fun v => pure (.value v)).run s := rfl
        cases hrun : (b.call room vs).run s with
        | ok v s₁ =>
            rw [EStateM.run_bind, hrun] at heval
            rw [eval_quiet, Eval.after_of_ok hrun] at hleaves
            exact .of_run_ok heval hleaves (hcall.result v s₁ hrun)
        | error fault s₁ =>
            rw [EStateM.run_bind, hrun] at heval
            rw [eval_quiet, Eval.after_of_error hrun] at hleaves
            exact .of_run_error heval hleaves (hcall.fault fault s₁ hrun)
    | closure j params body home =>
        show D.Follows e (quiet (Eval.apply room (.closure j params body home) vs)) s _
        by_cases hlen : vs.length = params.length
        · obtain ⟨hchange, hbody⟩ := D.entered h hfn hvs hlen
          rw [Eval.apply, Eval.enter, if_pos hlen]
          exact .of_run_ok rfl hchange ⟨hbody, .inr (Nat.le_refl _)⟩
        · rw [Eval.apply, Eval.enter, if_neg hlen]
          exact follows_throw (D.miscounted hfn hlen)
    | _ => exact hfunction.elim
  · have hquiet : apply room fn vs = quiet (Eval.apply room fn vs) := by
      cases fn with
      | builtin b => exact absurd trivial hfunction
      | _ => rfl
    have hprint := D.uncallable room hfn hfunction
    rw [hquiet, Eval.apply_of_not_isFunction hfunction]
    cases hshown : fn.print room with
    | ok shown =>
        rw [hshown] at hprint
        exact follows_throw hprint
    | error fault =>
        rw [hshown] at hprint
        exact follows_throw hprint

/-- The heart of it: one step follows the discipline if the runs inside it do. -/
theorem follows_step (hn : D.Governs nested) (room : Nat) {form : Value}
    (h : D.Takes s e form) :
    D.Follows e (step nested room form e) s (D.Reaches s.frames.size e) := by
  have htaken : D.Follows e (note (.entered form e)) s fun _ s' => s' = s :=
    .of_run_ok rfl (D.taken h) rfl
  refine follows_bind htaken ?_
  rintro _ s₁ - rfl
  split
  case h_1 i head args =>
    cases hkind : Eval.step.specialForm? head with
    | some kind =>
        obtain rfl := Eval.eq_name_of_specialForm? hkind
        exact follows_special hn h
    | none =>
        have hhead := Eval.ne_name_of_specialForm?_eq_none hkind
        obtain ⟨hfn, hargs⟩ := D.application h hhead
        refine follows_bind (hn head e _ hfn) ?_
        intro fn s₂ hchange hfn
        have hargs₂ : ∀ arg ∈ args, D.Takes s₂ e arg := fun arg hmem =>
          D.takes_mono hchange (hargs arg hmem)
        refine follows_bind (follows_evaluateAll hn args hargs₂) ?_
        intro vs s₃ hchange₂ hvs
        have hform := D.takes_mono hchange₂ (D.takes_mono hchange h)
        refine (follows_apply room hform (D.gives_mono hchange₂ hfn) hvs).mono
          (fun _ _ h => h) ?_
        -- A frame that is new now was not there at the start of the step either.
        have hsize := Nat.le_trans (D.grows hchange) (D.grows hchange₂)
        rintro (v | ⟨body, e'⟩) s₄ - hreaches
        · exact hreaches
        · obtain ⟨hbody, rfl | hnew⟩ := hreaches
          · exact ⟨hbody, .inl rfl⟩
          · exact ⟨hbody, .inr (Nat.le_trans hsize hnew)⟩
  case h_2 hlist =>
    cases form with
    | sym name =>
        cases hname : s₁.lookup? e name with
        | some v =>
            refine .of_run_ok (a := .value v) ?_ D.refl (D.found h hname)
            rw [eval_quiet, Eval.step, EStateM.run_bind, Eval.run_lookup_some s₁ hname]
            rfl
        | none =>
            refine .of_run_error ?_ D.refl (D.unbound h hname)
            rw [eval_quiet, Eval.step, EStateM.run_bind, Eval.run_lookup_none s₁ hname]
    | list i items =>
        cases items with
        | nil => exact follows_pure (D.self h trivial)
        | cons head args => exact (hlist i head args rfl).elim
    | _ => exact follows_pure (D.self h trivial)

/-- A chain of steps follows the discipline, by induction on its length. -/
theorem follows_follow (hn : D.Governs nested) (room fuel : Nat) :
    D.Governs (follow (step nested room) fuel) := by
  induction fuel with
  | zero =>
      intro form e s _
      exact follows_throw D.outOfFuel
  | succ n ih =>
      intro form e s h
      refine Ensures.bind (follows_step hn room h) (fun _ _ h => h) ?_
      rintro (v | ⟨form', e'⟩) s₁ hchange hreaches
      · refine .of_run_ok rfl ?_ hreaches
        show D.Changes e s (_ ++ []) s₁
        rw [List.append_nil]
        exact hchange
      · obtain ⟨hform, hframe⟩ := hreaches
        refine (ih form' e' s₁ hform).mono ?_ (fun _ _ _ h => h)
        intro es s₂ hrest
        rcases hframe with rfl | hnew
        · exact D.trans hchange hrest
        · exact D.inside hchange hnew hrest

/-- **Every run follows the discipline**, by induction on the depth it may take. -/
theorem governs_evaluate (D : Discipline) (fuel depth : Nat) :
    D.Governs (evaluate fuel depth) := by
  induction depth with
  | zero =>
      intro form e s _
      exact follows_throw D.stackOverflow
  | succ n ih => exact follows_follow ih n fuel

/-! ## Programs -/

variable {limits : Limits} {I : Store → Prop}

/-- In stores with a property `I`, whatever is read may be evaluated in the root frame, and
    the property is kept. -/
structure Hosts (D : Discipline) (limits : Limits) (I : Store → Prop) : Prop where
  takes {s tokens form rest} : I s →
    Value.readForm limits.depth tokens = (.ok (some form), rest) → D.Takes s Store.root form
  fails {tokens fault rest} : Value.readForm limits.depth tokens = (.error fault, rest) →
    D.Fails fault
  mono {s es s'} : I s → D.Changes Store.root s es s' → I s'

theorem follows_evalForm {form : Value} (h : D.Takes s Store.root form) :
    D.Follows Store.root (evalForm limits form) s fun v s' => D.Gives s' v :=
  D.governs_evaluate limits.fuel limits.depth form Store.root s h

/-- The next form of a text. -/
theorem follows_next (hosts : D.Hosts limits I) (hI : I s) (tokens : List Token) :
    D.Follows Store.root (next limits tokens) s
      fun result s' => ∀ entry ∈ result, D.Gives s' entry.1 := by
  rcases hread : Value.readForm limits.depth tokens with ⟨fault | form?, rest⟩
  · simp only [next, hread]
    exact follows_throw (hosts.fails hread)
  · cases form? with
    | none =>
        simp only [next, hread]
        exact follows_pure (by rintro _ ⟨⟩)
    | some form =>
        simp only [next, hread]
        refine follows_bind (follows_evalForm (hosts.takes hI hread)) ?_
        intro v s₁ _ hv
        refine follows_pure ?_
        rintro entry ⟨⟩
        exact hv

/-- The text of a value is asked for without a change. -/
theorem follows_print (room : Nat) (v : Value)
    (h : ∀ fault, v.print room = .error fault → D.Fails fault) :
    D.Follows e (quiet (do return some (← v.print room))) s fun _ _ => True := by
  cases hprint : v.print room with
  | ok shown => exact follows_pure trivial
  | error fault => exact follows_throw (h fault hprint)

/-- All forms of a text, if each of them may be evaluated where it comes up.  By induction on
    the forms; what is left of the text is always an end of it. -/
theorem follows_fold_of_takes (visit : α → Value → Eval α) {Q : α → Store → Prop}
    (hvisit : ∀ a v s, D.Gives s v → D.Follows Store.root (quiet (visit a v)) s Q)
    (hmono : ∀ s es s', I s → D.Changes Store.root s es s' → I s') {text : List Token}
    (htakes : ∀ s tokens form rest, tokens <:+ text → I s →
      Value.readForm limits.depth tokens = (.ok (some form), rest) → D.Takes s Store.root form)
    (hfails : ∀ tokens fault rest,
      Value.readForm limits.depth tokens = (.error fault, rest) → D.Fails fault)
    (hI : I s) (start : α) (hstart : Q start s) {tokens : List Token} (hsuffix : tokens <:+ text) :
    D.Follows Store.root (fold limits visit start tokens) s Q := by
  induction tokens using Value.readForm_induct limits.depth generalizing s start with
  | failed tokens fault rest hread =>
      rw [fold_of_error visit start hread]
      exact follows_throw (hfails tokens fault rest hread)
  | ended tokens rest hread =>
      rw [fold_of_none visit start hread]
      exact follows_pure hstart
  | form tokens form rest hread ih =>
      rw [fold_of_some visit start hread]
      refine follows_bind (follows_evalForm (htakes s tokens form rest hsuffix hI hread)) ?_
      intro v s₁ hchange hv
      have hI₁ := hmono s _ s₁ hI hchange
      refine follows_bind (hvisit start v s₁ hv) ?_
      intro a s₂ hchange₂ ha
      have hrest := (Value.suffix_of_readForm hread).trans hsuffix
      exact ih (hmono s₁ _ s₂ hI₁ hchange₂) a ha hrest

/-- All forms of any text. -/
theorem follows_fold (hosts : D.Hosts limits I) (visit : α → Value → Eval α)
    {Q : α → Store → Prop}
    (hvisit : ∀ a v s, D.Gives s v → D.Follows Store.root (quiet (visit a v)) s Q) (hI : I s)
    (start : α) (hstart : Q start s) (tokens : List Token) :
    D.Follows Store.root (fold limits visit start tokens) s Q :=
  follows_fold_of_takes visit hvisit (fun _ _ _ => hosts.mono) (fun _ _ _ _ _ => hosts.takes)
    (fun _ _ _ => hosts.fails) hI start hstart List.suffix_rfl

end Discipline

end TailLisp
