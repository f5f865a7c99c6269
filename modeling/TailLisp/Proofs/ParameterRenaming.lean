import TailLisp.Proofs.Exchange
import TailLisp.Proofs.Independence

/-! # Parameter renaming — closures with another name for a parameter

    A parameter may be given another name, if this is done in the whole body and the name is
    not in there already.  Then a call of the one closure and a call of the other go on side by
    side with the two names exchanged, in whichever store and with whichever arguments.

    * **`Eval.callToEnd`** — a call, up to its end.
    * **`CallsAlike`** — what the two calls have in common when they end.
    * **`parameter_renaming`** — the calls end alike under any limits, so that without limits both
      end or neither does. -/

namespace TailLisp

open Eval

/-! ## Calls -/

namespace Eval

/-- A call of a value, up to its end. -/
def callToEnd (limits : Limits) (fn : Value) (args : List Value) : Eval Value :=
  apply limits.depth fn args >>= finish limits

section Closure

variable (limits : Limits) (i : Serial) {params : List String} (body : Value) (home : FrameId)
  {args : List Value} (s : Store)

/-- A call of a closure evaluates its body in a new frame. -/
theorem run_callToEnd_closure (hlen : args.length = params.length) :
    (callToEnd limits (.closure i params body home) args).run s =
      (evaluate limits.fuel (limits.depth + 1) body s.frames.size).run
        (s.addFrame home (Bindings.ofList (params.zip args))) := by
  rw [callToEnd, apply, enter, if_pos hlen]
  rfl

theorem run_callToEnd_closure_of_ne (hlen : args.length ≠ params.length) :
    (callToEnd limits (.closure i params body home) args).run s =
      .error (.error (.arity "function" (.exactly params.length) args.length)) s := by
  rw [callToEnd, apply, enter, if_neg hlen]
  rfl

end Closure

/-- A call is settled by one run that was not cut short. -/
theorem callToEnd_settles {limits : Limits} {fn : Value} {args : List Value} {s : Store}
    {o : Outcome Value} (ho : ¬ IsExhausted o) (h : (callToEnd limits fn args).run s = o) :
    Settles (fun limits => callToEnd limits fn args) s o := by
  refine ⟨ho, max limits.depth limits.fuel, fun larger hdepth hfuel => ?_⟩
  have hover : Fault.IsExhaustion .stackOverflow := trivial
  have hdepth' : limits.depth ≤ larger.depth := Nat.le_trans (Nat.le_max_left _ _) hdepth
  have hfuel' : limits.fuel ≤ larger.fuel := Nat.le_trans (Nat.le_max_right _ _) hfuel
  have hagrees : AgreesUnless Fault.IsExhaustion (callToEnd limits fn args)
      (callToEnd larger fn args) := by
    refine (apply_mono hover hdepth' fn args).bind fun next => ?_
    cases next with
    | value v => exact .refl _
    | tail form e =>
        exact evaluate_mono hover hfuel' (fun _ => trivial) (Nat.succ_le_succ hdepth') form e
  exact hagrees.run_eq ho h

/-- If the runs of two calls are related whatever the limits, then so is what they settle on. -/
theorem callToEnd_settles_beside {R : Outcome Value → Outcome Value → Prop} {f g : Value}
    {args : List Value} {s : Store}
    (hends : ∀ o o', R o o' → IsExhausted o' → IsExhausted o)
    (h : ∀ limits, R ((callToEnd limits f args).run s) ((callToEnd limits g args).run s))
    {o : Outcome Value} (ho : Settles (callToEnd · f args) s o) :
    ∃ o', Settles (callToEnd · g args) s o' ∧ R o o' :=
  Settles.beside hends (fun _ ho' => callToEnd_settles ho' rfl) 0 (fun limits _ _ => h limits) ho

/-- What comes of a `fn*` of different symbols. -/
theorem eq_closure_of_run {fuel depth : Nat} {i j : Option Serial} {names : List String}
    (hnodup : names.Nodup) {body v : Value} {e : FrameId} {s s' : Store}
    (h : (evaluate fuel depth (SpecialForm.lambda.applied i [.list j (names.map .sym), body]) e).run
      s = .ok v s') : v = .closure s.nextSerial names body e := by
  cases depth with
  | zero => exact nomatch h
  | succ depth =>
  cases fuel with
  | zero => exact nomatch h
  | succ fuel =>
  rw [evaluate, follow, step_special, special_lambda _ e hnodup] at h
  exact (EStateM.Result.ok.inj h).1.symm

end Eval

/-! ## What is alike -/

/-- What two calls in store `s` leave behind: the same output, and the same bindings in all frames
    that were there before. -/
structure Store.TracesAlike (s s' t' : Store) : Prop where
  output : ∀ start, t'.outputFrom start = s'.outputFrom start
  bindings : ∀ f < s.frames.size, t'.bindings f = s'.bindings f

/-- How two calls in store `s` end: with values that look the same, and are the same if there is no
    function in them, or with faults of one class. -/
inductive CallsAlike (s : Store) : Outcome Value → Outcome Value → Prop where
  | ok {v w : Value} {s' t' : Store} : (∀ room, w.print room = v.print room) →
      (v.IsFunctionFree → w = v) → s.TracesAlike s' t' → CallsAlike s (.ok v s') (.ok w t')
  | error {fault fault' : Fault} {s' t' : Store} : fault.Alike fault' → s.TracesAlike s' t' →
      CallsAlike s (.error fault s') (.error fault' t')

theorem CallsAlike.isExhausted_iff {s : Store} {o o' : Outcome Value} (h : CallsAlike s o o') :
    IsExhausted o ↔ IsExhausted o' := by
  cases h with
  | ok => exact Iff.rfl
  | error hfault =>
      cases hfault with
      | refl => exact Iff.rfl
      | duplicate => exact Iff.rfl

/-! ## Side by side -/

namespace Exchange

variable (X : Exchange) {params : List String} (home : FrameId) {args : List Value}

/-- In frames that are older than the call nothing is different. -/
theorem bindings_of_isNumbered {s : Store} {f : FrameId} {bs : Bindings} (hf : ¬ X.Inside s f)
    (hbs : ∀ entry ∈ bs, entry.2.IsNumbered X.start) : X.bindings s f bs = bs := by
  rw [bindings, X.names_of_outside hf]
  have hentries : ∀ entry ∈ bs, (id entry.1, X.value s entry.2) = entry := by
    intro entry hentry
    rw [X.value_of_isNumbered s (hbs entry hentry), id]
  exact (List.map_congr_left hentries).trans (List.map_id' bs)

/-- Parameters that are bound inside of the call to values from outside. -/
theorem bindings_ofList_zip {s : Store} {f : FrameId} (hf : X.Inside s f)
    (hargs : ∀ v ∈ args, v.IsNumbered X.start) :
    X.bindings s f (Bindings.ofList (params.zip args)) =
      Bindings.ofList ((params.map (Equiv.swap X.p X.q)).zip args) := by
  have hvalues : args.map (X.value s) = args :=
    (List.map_congr_left fun v hv => X.value_of_isNumbered s (hargs v hv)).trans
      (List.map_id' args)
  rw [bindings, X.names_of_inside hf,
    ← Bindings.ofList_zip_recast (Equiv.swap X.p X.q).injective, hvalues]

/-- In the frame of the call the parameters are bound, with the one name for the other. -/
theorem alike_start (hs : X.start.IsNumbered) (hlen : args.length = params.length)
    (hp : X.p ∈ params) (hq : X.q ∉ params) (hargs : ∀ v ∈ args, v.IsNumbered X.start) :
    X.Alike (X.start.addFrame home (Bindings.ofList (params.zip args)))
      (X.start.addFrame home
        (Bindings.ofList ((params.map (Equiv.swap X.p X.q)).zip args))) := by
  have hcall := X.start.lt_size_addFrame home (Bindings.ofList (params.zip args))
  have hinside : X.Inside (X.start.addFrame home (Bindings.ofList (params.zip args)))
      X.start.frames.size := Store.mem_chain_self _ _
  have hbound : ∀ entry ∈ Bindings.ofList (params.zip args), entry.2.IsNumbered X.start :=
    Bindings.forall_ofList_zip hargs
  have hbeyond : ∀ s f, X.Inside s f → X.start.bindings f = [] :=
    fun s f hin => X.start.bindings_of_size_le (X.le_of_inside hin)
  refine ⟨hcall, ?_, rfl, fun f => ?_, fun f => ?_, fun f entry hentry => ?_,
    fun f hin entry hentry => ?_, ?_, rfl⟩
  · rw [Store.size_addFrame, Store.size_addFrame]
  · rw [Store.outer?_addFrame, Store.outer?_addFrame]
  · rw [Store.bindings_addFrame, Store.bindings_addFrame]
    by_cases hf : f = X.start.frames.size
    · subst hf
      rw [if_pos rfl, if_pos rfl, X.bindings_ofList_zip hinside hargs]
    · rw [if_neg hf, if_neg hf]
      by_cases hin : X.Inside (X.start.addFrame home (Bindings.ofList (params.zip args))) f
      · rw [hbeyond _ f hin]
        rfl
      · exact (X.bindings_of_isNumbered hin fun entry => hs.values f entry).symm
  · rw [Store.bindings_addFrame] at hentry
    refine X.throughout_fits_of_isNumbered (Nat.le_of_lt hcall) ?_
    split at hentry
    · exact hbound entry hentry
    · exact hs.values f entry hentry
  · rw [Store.bindings_addFrame] at hentry
    split at hentry
    case isTrue =>
      intro heq
      exact hq (heq ▸ (List.of_mem_zip (Bindings.mem_ofList hentry)).1)
    case isFalse =>
      rw [hbeyond _ f hin] at hentry
      cases hentry
  · rw [Store.binds, Exchange.call, Store.bindings_addFrame_self]
    exact Bindings.isSome_get?_ofList_zip hlen hp

/-- What goes on side by side inside of the call, and leaves the old frames alone, ends as two calls
    do. -/
theorem callsAlike_of_matches {s t : Store} {x y : Eval Value}
    (h : X.likeness.Matches s t x y X.likeness.Gives)
    (hx : ∀ f < X.start.frames.size, (x.after s).bindings f = X.start.bindings f)
    (hy : ∀ f < X.start.frames.size, (y.after t).bindings f = X.start.bindings f) :
    CallsAlike X.start (x.run s) (y.run t) := by
  have htraces : ∀ s' t', X.Alike s' t' → s' = x.after s → t' = y.after t →
      X.start.TracesAlike s' t' := by
    rintro s' t' halike rfl rfl
    refine ⟨fun start => ?_, fun f hf => (hy f hf).trans (hx f hf).symm⟩
    rw [Store.outputFrom, Store.outputFrom, List.map_drop, List.map_drop, halike.lines]
  unfold Likeness.Matches at h
  generalize hrun : x.run s = o at h
  generalize hrun' : y.run t = o' at h
  cases h with
  | @ok v w s' t' _ halike hgives =>
      obtain ⟨-, rfl⟩ := hgives
      refine .ok (fun room => (X.guise s').print_value room v) ?_ ?_
      · exact fun hfree => X.value_of_isFunctionFree s' hfree
      · exact htraces s' t' halike (after_of_ok hrun).symm (after_of_ok hrun').symm
  | @error fault fault' s' t' _ halike hfails =>
      exact .error hfails
        (htraces s' t' halike (after_of_error hrun).symm (after_of_error hrun').symm)

/-- **The two calls end alike**, whatever the limits are. -/
theorem callsAlike (limits : Limits) (i j : Serial) (hs : X.start.IsNumbered) (hp : X.p ∈ params)
    (hq : X.q ∉ params) {body : Value} (hread : body.IsRead) (hfree : ¬ body.Occurs X.q)
    (hargs : ∀ v ∈ args, v.IsNumbered X.start) :
    CallsAlike X.start ((callToEnd limits (.closure i params body home) args).run X.start)
      ((callToEnd limits (.closure j (params.map (Equiv.swap X.p X.q))
        (body.withNames (Equiv.swap X.p X.q)) home) args).run X.start) := by
  have hlength : (params.map (Equiv.swap X.p X.q)).length = params.length := List.length_map ..
  by_cases hlen : args.length = params.length
  · rw [run_callToEnd_closure limits i body home X.start hlen,
      run_callToEnd_closure limits j _ home X.start (hlen.trans hlength.symm)]
    have hold : ∀ (form : Value) (bs : Bindings), ∀ f < X.start.frames.size,
        ((evaluate limits.fuel (limits.depth + 1) form X.start.frames.size).after
          (X.start.addFrame home bs)).bindings f = X.start.bindings f := by
      intro form bs f hf
      have hsize := Nat.le_of_lt (X.start.lt_size_addFrame home bs)
      have hseals : form.Seals X.start.frames.size (X.start.addFrame home bs)
          X.start.frames.size := .of_new hsize (Nat.le_refl _)
      have hspares := spares_evaluate limits.fuel (limits.depth + 1) hseals
      rw [Store.bindings, hspares.frame hsize f hf, ← Store.bindings,
        X.start.bindings_addFrame_of_lt hf]
    have halike := X.alike_start home hs hlen hp hq hargs
    have hinside : X.Inside (X.start.addFrame home (Bindings.ofList (params.zip args)))
        X.start.frames.size := Store.mem_chain_self _ _
    refine X.callsAlike_of_matches ?_ (hold _ _) (hold _ _)
    refine X.correspondence.agrees_evaluate _ _ _ _ _ _ _ _ halike ⟨rfl, halike.call, ?_, ?_⟩
    · exact ⟨fun _ => ⟨hread, hfree⟩, fun hout => absurd hinside hout⟩
    · rw [X.names_of_inside hinside]
  · rw [run_callToEnd_closure_of_ne limits i body home X.start hlen,
      run_callToEnd_closure_of_ne limits j _ home X.start (hlength.symm ▸ hlen), hlength]
    exact .error (.refl _) ⟨fun _ => rfl, fun _ _ => rfl⟩

end Exchange

/-! ## Renaming -/

/-- One name put in the place of another. -/
def replaceName (p q x : String) : String :=
  if x = p then q else x

/-- Where the new name is not there, to replace is to exchange. -/
theorem replaceName_eq_swap {p q x : String} (h : x ≠ q) :
    replaceName p q x = Equiv.swap p q x := by
  rw [replaceName, Equiv.swap_apply_def, if_neg h]

namespace Value

/-- The form of a function, as it is read. -/
def functionForm (params : List String) (body : Value) : Value :=
  SpecialForm.lambda.applied none [.list none (params.map .sym), body]

theorem isRead_functionForm (params : List String) {body : Value} (h : body.IsRead) :
    (functionForm params body).IsRead :=
  .list (List.forall_mem_cons.mpr ⟨.sym _, List.forall_mem_cons.mpr
    ⟨.list (List.forall_mem_map.mpr fun name _ => .sym name), List.forall_mem_singleton.mpr h⟩⟩)

/-- A value that some evaluation of a form in a frame has come to. -/
def ComesOf (v form : Value) (e : FrameId) : Prop :=
  ∃ fuel depth s s', (evaluate fuel depth form e).run s = .ok v s'

theorem ComesOf.eq_closure {v body : Value} {params : List String} {e : FrameId}
    (h : v.ComesOf (functionForm params body) e) (hnodup : params.Nodup) :
    ∃ i, v = .closure i params body e := by
  obtain ⟨_, _, s, _, hrun⟩ := h
  exact ⟨s.nextSerial, eq_closure_of_run hnodup hrun⟩

end Value

/-- **A parameter may be renamed.**  If a name is neither among the parameters of a function nor in
    its body, then a parameter may have this name instead, and have it in the whole body: closures
    made of both in one frame are called alike.  Whatever the limits are both calls end alike, so
    without limits both go on for ever or both end alike. -/
theorem parameter_renaming {params : List String} {p q : String} {body f g : Value}
    {home : FrameId} {s : Store} {args : List Value} (hnodup : params.Nodup) (hp : p ∈ params)
    (hq : q ∉ params) (hread : body.IsRead) (hfree : ¬ body.Occurs q)
    (hspecial : ∀ kind : SpecialForm, p ≠ kind.name ∧ q ≠ kind.name)
    (hf : f.ComesOf (.functionForm params body) home)
    (hg : g.ComesOf (.functionForm (params.map (replaceName p q))
      (body.withNames (replaceName p q))) home)
    (hs : s.IsNumbered) (hargs : ∀ v ∈ args, v.IsNumbered s) :
    (∀ limits, CallsAlike s ((callToEnd limits f args).run s) ((callToEnd limits g args).run s)) ∧
      (∀ o, Settles (callToEnd · f args) s o →
        ∃ o', Settles (callToEnd · g args) s o' ∧ CallsAlike s o o') ∧
      (∀ o', Settles (callToEnd · g args) s o' →
        ∃ o, Settles (callToEnd · f args) s o ∧ CallsAlike s o o') := by
  have hparams : params.map (replaceName p q) = params.map (Equiv.swap p q) :=
    List.map_congr_left fun x hx => replaceName_eq_swap fun heq => hq (heq ▸ hx)
  have hbody : body.withNames (replaceName p q) = body.withNames (Equiv.swap p q) :=
    Value.withNames_congr fun x hx => replaceName_eq_swap fun heq => hfree (heq ▸ hx)
  rw [hparams, hbody] at hg
  obtain ⟨i, rfl⟩ := hf.eq_closure hnodup
  obtain ⟨j, rfl⟩ := hg.eq_closure (hnodup.map (Equiv.swap p q).injective)
  have halike := fun limits =>
    (Exchange.mk p q hspecial s).callsAlike home limits i j hs hp hq hread hfree hargs
  refine ⟨halike, fun o ho => ?_, fun o' ho' => ?_⟩
  · exact callToEnd_settles_beside (fun _ _ h => h.isExhausted_iff.mpr) halike ho
  · exact callToEnd_settles_beside (R := fun o' o => CallsAlike s o o')
      (fun _ _ h => h.isExhausted_iff.mp) halike ho'

/-- What comes of a parameter in an inner function may have another name, too. -/
theorem parameter_renaming_of_escape :
    let f := Value.closure 0 ["x"] (.functionForm [] (.sym "x")) Store.root
    let g := Value.closure 0 ["y"] (.functionForm [] (.sym "y")) Store.root
    f.ComesOf (.functionForm ["x"] (.functionForm [] (.sym "x"))) Store.root ∧
      g.ComesOf (.functionForm ["y"] (.functionForm [] (.sym "y"))) Store.root ∧
      ∀ limits, CallsAlike .initial ((callToEnd limits f [.int 7]).run .initial)
        ((callToEnd limits g [.int 7]).run .initial) := by
  intro f g
  have hf : f.ComesOf (.functionForm ["x"] (.functionForm [] (.sym "x"))) Store.root :=
    ⟨1, 1, .initial, _, rfl⟩
  have hg : g.ComesOf (.functionForm ["y"] (.functionForm [] (.sym "y"))) Store.root :=
    ⟨1, 1, .initial, _, rfl⟩
  have hread : (Value.functionForm [] (.sym "x")).IsRead :=
    Value.isRead_functionForm [] (.sym "x")
  have hfree : ¬ (Value.functionForm [] (.sym "x")).Occurs "y" := by
    simp [Value.functionForm, SpecialForm.applied, SpecialForm.name, Value.occurs_list_iff,
      Value.occurs_sym_iff]
  have hspecial : ∀ kind : SpecialForm, "x" ≠ kind.name ∧ "y" ≠ kind.name := by
    intro kind
    cases kind <;> decide
  have hargs : ∀ v ∈ [Value.int 7], v.IsNumbered .initial :=
    List.forall_mem_singleton.mpr (.atom trivial trivial)
  exact ⟨hf, hg, (parameter_renaming (List.nodup_singleton "x") (List.mem_singleton.mpr rfl)
    (by decide) hread hfree hspecial hf hg Store.isNumbered_initial hargs).1⟩

end TailLisp
