import TailLisp.Proofs.Journal

/-! # Approximations — runs that were cut short, and what they printed

    A run that was cut short does not tell how a program ends, but what it printed is the beginning
    of what the program prints: larger limits only add to it.  So a program that never ends has an
    output too, finite or not, and it is known by its beginnings.

    * **`Eval.Approximates`** — a computation ends as another one does, or it was cut short and the
      other one has printed at least as much.
    * **`Eval.approximates_evaluate`** — an evaluation approximates the same one under larger limits,
      by the way of the evaluator: one lemma for each function of it.
    * **`Prints`** — the beginnings of what is printed if nothing cuts a computation short.
    * **`Settles.of_approximates`** and **`Prints.of_approximates`** — both can be told from
      approximations alone. -/

namespace TailLisp

namespace Eval

variable {α β : Type}

/-- What is printed stands behind what was printed before. -/
def Appends (x : Eval α) : Prop :=
  ∀ s, s.printed.toList <+: (x.after s).printed.toList

theorem appends_of_quiet {x : Eval α} (h : ∀ s, (x.after s).printed = s.printed) : Appends x := by
  intro s
  exact h s ▸ List.prefix_refl _

theorem Appends.bind {x : Eval α} {f : α → Eval β} (hx : Appends x) (hf : ∀ a, Appends (f a)) :
    Appends (x >>= f) := by
  intro s
  have hfirst := hx s
  rw [after] at hfirst
  rw [after, EStateM.run_bind]
  cases hrun : x.run s with
  | ok a s' =>
      rw [hrun] at hfirst
      exact hfirst.trans (hf a s')
  | error fault s' =>
      rw [hrun] at hfirst
      exact hfirst

/-- What keeps a journal only adds to it. -/
theorem appends_of_journals {x : Traced α} (h : x.Journals) : Appends x.eval := by
  intro s
  obtain ⟨ws, -, hprinted, -⟩ := h s
  rw [hprinted]
  exact List.prefix_append _ _

theorem appends_apply (room : Nat) (fn : Value) (vs : List Value) :
    Appends (apply room fn vs) := by
  rw [← Traced.eval_apply]
  exact appends_of_journals (Traced.journals_apply room fn vs)

theorem appends_evaluate (fuel depth : Nat) (form : Value) (e : FrameId) :
    Appends (evaluate fuel depth form e) := by
  rw [← Traced.eval_evaluate]
  exact appends_of_journals (Traced.journals_evaluate fuel depth form e)

theorem appends_follow {step : Value → FrameId → Eval Step} (h : ∀ form e, Appends (step form e))
    (fuel : Nat) (form : Value) (e : FrameId) : Appends (follow step fuel form e) := by
  induction fuel generalizing form e with
  | zero => exact appends_of_quiet fun _ => rfl
  | succ n ih =>
      refine (h form e).bind ?_
      rintro (v | ⟨form', e'⟩)
      · exact appends_of_quiet fun _ => rfl
      · exact ih form' e'

/-- `y` ends as `x` does, or `x` was cut short and `y` prints what `x` had printed, and maybe
    more. -/
structure Approximates (x y : Eval α) : Prop where
  appends : Appends y
  run : ∀ s, x.run s = y.run s ∨
    IsExhausted (x.run s) ∧ (x.after s).printed.toList <+: (y.after s).printed.toList

namespace Approximates

variable {x y z : Eval α}

theorem refl (h : Appends y) : Approximates y y :=
  ⟨h, fun _ => .inl rfl⟩

/-- What prints nothing approximates itself. -/
theorem quiet (h : ∀ s, (y.after s).printed = s.printed) : Approximates y y :=
  .refl (appends_of_quiet h)

theorem pure (a : α) : Approximates (Pure.pure a) (Pure.pure a) :=
  .quiet fun _ => rfl

theorem throw (fault : Fault) :
    Approximates (MonadExcept.throw fault : Eval α) (MonadExcept.throw fault) :=
  .quiet fun _ => rfl

/-- What was cut short at once approximates everything that prints behind what was there. -/
theorem of_exhaustion {fault : Fault} (hfault : fault.IsExhaustion)
    (h : Appends y) : Approximates (MonadExcept.throw fault) y :=
  ⟨h, fun s => .inr ⟨hfault, h s⟩⟩

theorem printed_prefix (h : Approximates x y) (s : Store) :
    (x.after s).printed.toList <+: (y.after s).printed.toList := by
  rcases h.run s with hrun | ⟨-, hprefix⟩
  · have hafter : x.after s = y.after s := by rw [after, hrun, ← after]
    exact hafter ▸ List.prefix_refl _
  · exact hprefix

theorem trans (h : Approximates x y) (h' : Approximates y z) : Approximates x z := by
  refine ⟨h'.appends, fun s => ?_⟩
  have hprefix := (h.printed_prefix s).trans (h'.printed_prefix s)
  rcases h.run s with hrun | ⟨hexhausted, -⟩
  · rw [hrun]
    exact (h'.run s).imp_right fun hcut => ⟨hcut.1, hprefix⟩
  · exact .inr ⟨hexhausted, hprefix⟩

/-- Of computations that agree unless one is cut short, this one approximates the other if it was
    cut short before it printed anything. -/
theorem of_agrees (hxy : AgreesUnless Fault.IsExhaustion x y)
    (hx : ∀ s, IsExhausted (x.run s) → (x.after s).printed = s.printed)
    (hy : Appends y) : Approximates x y := by
  refine ⟨hy, fun s => ?_⟩
  rcases hxy s with ⟨fault, s', hrun, hfault⟩ | hrun
  · have hexhausted : IsExhausted (x.run s) := by
      rw [hrun]
      exact hfault
    refine .inr ⟨hexhausted, ?_⟩
    rw [hx s hexhausted]
    exact hy s
  · exact .inl hrun

/-- Going on after a computation. -/
theorem bind {f g : α → Eval β} (hxy : Approximates x y) (hfg : ∀ a, Approximates (f a) (g a)) :
    Approximates (x >>= f) (y >>= g) := by
  -- Whatever is printed by then, the rest prints behind it.
  have hrest : ∀ s, (y.after s).printed.toList <+: ((y >>= g).after s).printed.toList := by
    intro s
    rw [after, after, EStateM.run_bind]
    cases y.run s with
    | ok a s' => exact (hfg a).appends s'
    | error fault s' => exact List.prefix_refl _
  refine ⟨fun s => (hxy.appends s).trans (hrest s), fun s => ?_⟩
  rcases hxy.run s with hrun | ⟨hexhausted, hprefix⟩
  · rw [after, after, EStateM.run_bind, EStateM.run_bind, hrun]
    cases y.run s with
    | ok a s' => exact (hfg a).run s'
    | error fault s' => exact .inl rfl
  · have hprinted := hprefix.trans (hrest s)
    cases hrun : x.run s with
    | ok a s' =>
        rw [hrun] at hexhausted
        exact hexhausted.elim
    | error fault s' =>
        rw [after_of_error hrun] at hprinted
        rw [hrun] at hexhausted
        rw [after, EStateM.run_bind, hrun]
        exact .inr ⟨hexhausted, hprinted⟩

end Approximates

/-! ## The evaluator -/

section Nested

variable {nested nested' : Evaluator}
  (hn : ∀ form e, Approximates (nested form e) (nested' form e))
include hn

theorem approximates_mapM (e : FrameId) (forms : List Value) :
    Approximates (forms.mapM (nested · e)) (forms.mapM (nested' · e)) := by
  induction forms with
  | nil => exact .pure []
  | cons form rest ih =>
      rw [List.mapM_cons, List.mapM_cons]
      exact (hn form e).bind fun v => ih.bind fun vs => .pure (v :: vs)

theorem approximates_bindEach (e : FrameId) (i : Nat) (bindings : List Value) :
    Approximates (bindEach nested e i bindings) (bindEach nested' e i bindings) := by
  fun_induction bindEach nested e i bindings with
  | case1 i name form rest ih =>
      refine (hn form e).bind fun v => ?_
      exact (Approximates.quiet fun _ => rfl).bind fun _ => ih
  | case2 => exact .throw _
  | case3 i head rest hpair hsingle =>
      rw [bindEach]
      · exact .throw _
      · exact hpair
      · exact hsingle
  | case4 => exact .pure ()

theorem approximates_sequence (e : FrameId) (forms : List Value) :
    Approximates (sequence nested e forms) (sequence nested' e forms) := by
  fun_induction sequence nested e forms with
  | case1 | case2 => exact .pure _
  | case3 form next rest ih => exact (hn form e).bind fun _ => ih

theorem approximates_special (kind : SpecialForm) (args : List Value) (e : FrameId) :
    Approximates (special nested kind args e) (special nested' kind args e) := by
  cases hmisuse : kind.misuse? args with
  | some cause =>
      rw [special_of_misuse nested e hmisuse, special_of_misuse nested' e hmisuse]
      exact .throw _
  | none =>
      cases SpecialForm.wellShaped_of_misuse?_eq_none hmisuse with
      | define name expr =>
          refine (hn expr e).bind fun v => ?_
          exact (Approximates.quiet fun _ => rfl).bind fun _ => .pure _
      | letStar j bindings body heven =>
          rw [special, special, if_neg (not_not_intro heven), if_neg (not_not_intro heven)]
          have hframe : Approximates (newFrame e []) (newFrame e []) := .quiet fun _ => rfl
          refine hframe.bind fun child => ?_
          exact (approximates_bindEach hn child 0 bindings).bind fun _ => .pure _
      | branch cond yes no =>
          rw [special_branch, special_branch]
          exact (hn cond e).bind fun v => .pure _
      | sequence => exact approximates_sequence hn e args
      | lambda j names body hnodup =>
          rw [special_lambda nested e hnodup, special_lambda nested' e hnodup]
          exact .quiet fun _ => rfl

end Nested

/-- A function that is cut short has printed nothing. -/
theorem approximates_apply {room room' : Nat} (h : room ≤ room') (fn : Value) (vs : List Value) :
    Approximates (apply room fn vs) (apply room' fn vs) := by
  refine .of_agrees (apply_mono trivial h fn vs) (fun s hexhausted => ?_) (appends_apply room' fn vs)
  by_cases hbuiltin : ∃ b, fn = .builtin b
  · obtain ⟨b, rfl⟩ := hbuiltin
    have hcomes := b.call_comes room vs s
    rw [apply, EStateM.run_bind] at hexhausted
    rw [apply, after, EStateM.run_bind]
    generalize (b.call room vs).run s = o at hcomes hexhausted
    cases hcomes with
    | failed => rfl
    | plain | listed | printed => exact hexhausted.elim
  · exact printed_apply room (fun b hb => hbuiltin ⟨b, hb⟩) vs s

theorem approximates_step {nested nested' : Evaluator}
    (hn : ∀ form e, Approximates (nested form e) (nested' form e)) {room room' : Nat}
    (h : room ≤ room') (form : Value) (e : FrameId) :
    Approximates (step nested room form e) (step nested' room' form e) := by
  unfold step
  split
  case h_1 name =>
    refine .quiet fun s => ?_
    rw [after, EStateM.run_bind]
    cases hname : s.lookup? e name with
    | some v =>
        rw [run_lookup_some s hname]
        rfl
    | none => rw [run_lookup_none s hname]
  case h_2 head args =>
    split
    · exact approximates_special hn _ args e
    · refine (hn head e).bind fun fn => ?_
      exact (approximates_mapM hn e args).bind fun vs => approximates_apply h fn vs
  case h_3 => exact .pure _

/-- A longer chain of greater steps is approximated, by induction on the shorter one. -/
theorem approximates_follow {step step' : Value → FrameId → Eval Step}
    (hs : ∀ form e, Approximates (step form e) (step' form e)) {fuel fuel' : Nat}
    (h : fuel ≤ fuel') (form : Value) (e : FrameId) :
    Approximates (follow step fuel form e) (follow step' fuel' form e) := by
  induction fuel generalizing fuel' form e with
  | zero => exact .of_exhaustion trivial (appends_follow (fun form e => (hs form e).appends) _ _ _)
  | succ n ih =>
      obtain ⟨n', rfl⟩ : ∃ n', fuel' = n' + 1 := ⟨fuel' - 1, by omega⟩
      refine (hs form e).bind ?_
      rintro (v | ⟨form', e'⟩)
      · exact .pure v
      · exact ih (Nat.le_of_succ_le_succ h) form' e'

/-- **Larger limits only add to what is printed**, by induction on the depth. -/
theorem approximates_evaluate {fuel fuel' depth depth' : Nat} (hf : fuel ≤ fuel')
    (hd : depth ≤ depth') (form : Value) (e : FrameId) :
    Approximates (evaluate fuel depth form e) (evaluate fuel' depth' form e) := by
  induction depth generalizing depth' form e with
  | zero => exact .of_exhaustion trivial (appends_evaluate fuel' depth' form e)
  | succ n ih =>
      obtain ⟨n', rfl⟩ : ∃ n', depth' = n' + 1 := ⟨depth' - 1, by omega⟩
      have hn : n ≤ n' := Nat.le_of_succ_le_succ hd
      exact approximates_follow (approximates_step (ih hn) hn) hf form e

/-! ## Single turns -/

theorem appends_turn (limits : Limits) (form : Value) (e : FrameId) :
    Appends (turn limits form e) := by
  have hnested := approximates_evaluate (Nat.le_refl limits.fuel) (Nat.le_refl limits.depth)
  refine Appends.bind (approximates_step hnested (Nat.le_refl limits.depth) form e).appends ?_
  rintro (v | ⟨form', e'⟩)
  · exact appends_of_quiet fun _ => rfl
  · exact appends_evaluate _ _ form' e'

/-- An evaluation gets no further than one step and the rest of its chain. -/
theorem approximates_turn (limits : Limits) (form : Value) (e : FrameId) :
    Approximates (evaluate limits.fuel limits.depth form e) (turn limits form e) := by
  obtain ⟨depth, fuel⟩ := limits
  cases depth with
  | zero => exact .of_exhaustion trivial (appends_turn _ form e)
  | succ depth =>
      cases fuel with
      | zero => exact .of_exhaustion trivial (appends_turn _ form e)
      | succ fuel =>
          have hstep := approximates_step
            (approximates_evaluate (Nat.le_refl (fuel + 1)) (Nat.le_succ depth)) (Nat.le_succ depth)
          refine (hstep form e).bind ?_
          rintro (v | ⟨form', e'⟩)
          · exact .pure v
          · exact approximates_follow hstep (Nat.le_succ fuel) form' e'

/-- One step and the rest of its chain get no further than an evaluation under larger limits. -/
theorem turn_approximates (limits : Limits) (form : Value) (e : FrameId) :
    Approximates (turn limits form e)
      (evaluate (limits.fuel + 1) (limits.depth + 1) form e) := by
  have hstep := approximates_step
    (approximates_evaluate (Nat.le_succ limits.fuel) (Nat.le_refl limits.depth))
    (Nat.le_refl limits.depth)
  refine (hstep form e).bind ?_
  rintro (v | ⟨form', e'⟩)
  · exact .pure v
  · exact approximates_follow hstep (Nat.le_refl _) form' e'

end Eval

/-! ## What is printed in the end -/

section Limitless

variable {α : Type} {s : Store}

/-- Under some limits, the given values are printed, and maybe more.  These are the beginnings of
    what a computation prints that nothing cuts short, whether it ends or not. -/
def Prints (x : Limits → Eval α) (s : Store) (values : List Value) : Prop :=
  ∃ limits, values <+: ((x limits).after s).printed.toList

/-- If each run of a computation approximates some run of another one, the other one prints all
    that it prints. -/
theorem Prints.of_approximates {x y : Limits → Eval α}
    (h : ∀ limits, ∃ limits', (x limits).Approximates (y limits')) {values : List Value}
    (hx : Prints x s values) : Prints y s values := by
  obtain ⟨limits, hprefix⟩ := hx
  obtain ⟨limits', happrox⟩ := h limits
  exact ⟨limits', hprefix.trans (happrox.printed_prefix s)⟩

/-- What approximates evaluations of a form settles where they do. -/
theorem Settles.of_approximates {x : Limits → Eval Value} {form : Value} {e : FrameId}
    (h : ∀ limits, ∃ limits' : Limits,
      (x limits).Approximates (Eval.evaluate limits'.fuel limits'.depth form e))
    {o : Outcome Value} (hx : Settles x s o) :
    Settles (fun limits => Eval.evaluate limits.fuel limits.depth form e) s o := by
  obtain ⟨ho, least, hrun⟩ := hx
  obtain ⟨limits', happrox⟩ := h ⟨least, least⟩
  have hleast := hrun ⟨least, least⟩ (Nat.le_refl least) (Nat.le_refl least)
  rcases happrox.run s with hsame | ⟨hexhausted, -⟩
  · exact Eval.evaluate_settles ho (hsame.symm.trans hleast)
  · rw [hleast] at hexhausted
    exact absurd hexhausted ho

end Limitless

end TailLisp
