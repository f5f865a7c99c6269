import Mathlib.Data.List.Basic
import TailLisp.Proofs.BigStep

/-! # The trampoline — chains of tail calls against nested derivations

    Running a form repeats steps, each of which may leave another form to do in
    its place.  The rules of `Evaluates` know nothing of this.  This file ties the
    two: what a run comes to, however many steps its chains have, is what the rules
    derive, and what they derive some run comes to.

    * From runs to rules: `LeadsTo` says which outcomes the outcome of a step may
      end in.  One step leads only to outcomes that the rules give the whole form,
      by cases on the form; a chain of steps follows by induction on its length and
      nested runs by induction on the depth.
    * From rules to runs: each premise settles under large enough limits, by
      induction on the derivation; `turn` makes one step and leaves the rest of the
      chain to a run that is settled already. -/

namespace TailLisp

namespace SpecialForm

/-- The names of parameters without a defect are the parameters themselves. -/
theorem parameterNames_eq_ok {i : Nat} {seen names : List String} {params : List Value}
    (h : Eval.parameterNames i seen params = .ok names) (hseen : seen.Nodup) :
    names.Nodup ∧ names.map .sym = seen.map Value.sym ++ params := by
  fun_induction Eval.parameterNames i seen params with
  | case1 i seen =>
      obtain rfl := Except.ok.inj h
      exact ⟨hseen, (List.append_nil _).symm⟩
  | case2 => exact nomatch h
  | case3 i seen name rest hnew ih =>
      -- A name that passes the test is new, so those seen stay different.
      have hseen' : (seen ++ [name]).Nodup := by
        rw [List.nodup_append]
        refine ⟨hseen, List.pairwise_singleton _ _, ?_⟩
        intro a ha b hb hab
        rw [List.mem_singleton] at hb
        exact hnew (hb ▸ hab ▸ ha)
      obtain ⟨hnodup, hnames⟩ := ih h hseen'
      refine ⟨hnodup, ?_⟩
      rw [hnames, List.map_append, List.append_assoc]
      rfl
  | case4 => exact nomatch h

/-- Different names are read off as they are. -/
theorem parameterNames_map {i : Nat} (seen : List String) {names : List String}
    (h : (seen ++ names).Nodup) :
    Eval.parameterNames i seen (names.map .sym) = .ok (seen ++ names) := by
  induction names generalizing i seen with
  | nil => rw [List.map_nil, Eval.parameterNames, List.append_nil]
  | cons name rest ih =>
      have hnew : name ∉ seen := by
        intro hold
        exact (List.nodup_append.mp h).2.2 name hold name List.mem_cons_self rfl
      rw [List.map_cons, Eval.parameterNames, if_neg hnew]
      rw [List.append_cons seen name rest] at h ⊢
      exact ih (seen ++ [name]) h

/-- Reading off the parameters fails with the first defect of them, and only then. -/
theorem parameterDefect?_eq {i : Nat} (seen : List String) (params : List Value)
    (hi : i = seen.length) :
    parameterDefect? (seen.map .sym) params =
      match Eval.parameterNames i seen params with
      | .ok _ => none
      | .error defect => some defect := by
  fun_induction Eval.parameterNames i seen params with
  | case1 => rfl
  | case2 i seen name rest hold => rw [parameterDefect?, if_pos (List.mem_map_of_mem hold)]
  | case3 i seen name rest hnew ih =>
      have hmem : Value.sym name ∉ seen.map Value.sym := by
        intro hmem
        obtain ⟨other, hother, heq⟩ := List.mem_map.mp hmem
        exact hnew (Value.sym.inj heq ▸ hother)
      have hrest := ih (by rw [List.length_append, hi]; rfl)
      rw [List.map_append] at hrest
      rw [parameterDefect?, if_neg hmem]
      exact hrest
  | case4 i seen head rest hsym =>
      rw [parameterDefect?]
      · rw [List.length_map, hi]
      · exact hsym

/-- The shapes of arguments that special forms tell apart exhaust the admitted counts. -/
theorem not_admits_of_unmatched {kind : SpecialForm} {args : List Value}
    (hdo : kind = .sequence → False)
    (hdef : ∀ a b, kind = .define → args = [a, b] → False)
    (hlet : ∀ a b, kind = .letStar → args = [a, b] → False)
    (hif₂ : ∀ a b, kind = .branch → args = [a, b] → False)
    (hif₃ : ∀ a b c, kind = .branch → args = [a, b, c] → False)
    (hfn : ∀ a b, kind = .lambda → args = [a, b] → False) :
    ¬ kind.arity.Admits args.length := by
  intro hcount
  cases kind with
  | define =>
      obtain ⟨a, b, rfl⟩ := List.length_eq_two.mp hcount
      exact hdef a b rfl rfl
  | letStar =>
      obtain ⟨a, b, rfl⟩ := List.length_eq_two.mp hcount
      exact hlet a b rfl rfl
  | branch =>
      rcases hcount with htwo | hthree
      · obtain ⟨a, b, rfl⟩ := List.length_eq_two.mp htwo
        exact hif₂ a b rfl rfl
      · obtain ⟨a, b, c, rfl⟩ := List.length_eq_three.mp hthree
        exact hif₃ a b c rfl rfl
  | sequence => exact hdo rfl
  | lambda =>
      obtain ⟨a, b, rfl⟩ := List.length_eq_two.mp hcount
      exact hfn a b rfl rfl

end SpecialForm

namespace Eval

variable {nested : Evaluator} {s : Store} {e : FrameId} {o : Outcome Value}

/-! ## From runs to rules -/

/-- The outcomes that the outcome of a step may end in: a value and a fault are final, a
    form left to do ends as its evaluation does. -/
def LeadsTo : Outcome Step → Outcome Value → Prop
  | .ok (.value v) s, o => o = .ok v s
  | .ok (.tail form e) s, o => Evaluates s e form o
  | .error fault s, o => o = .error fault s

/-- An evaluator whose runs, where they are not cut short, follow the rules. -/
def IsSound (nested : Evaluator) : Prop :=
  ∀ form e s o, (nested form e).run s = o → ¬ IsExhausted o → Evaluates s e form o

/-- Names and forms are taken off the bindings of a `let*` in pairs. -/
theorem even_of_pair {name form : Value} {rest : List Value}
    (h : (name :: form :: rest).length % 2 = 0) : rest.length % 2 = 0 := by
  simp only [List.length_cons] at h
  omega

theorem bindEach_sound (hn : IsSound nested) (i : Nat) (bindings : List Value)
    (heven : bindings.length % 2 = 0) {u : Outcome Unit} (hu : ¬ IsExhausted u)
    (h : (bindEach nested e i bindings).run s = u) : Binds s e i bindings u := by
  fun_induction bindEach nested e i bindings generalizing s with
  | case1 i name form rest ih =>
      rw [EStateM.run_bind] at h
      cases hrun : (nested form e).run s with
      | ok v s₁ =>
          rw [hrun] at h
          exact .cons (hn form e s _ hrun id) (ih (even_of_pair heven) h)
      | error fault s₁ =>
          rw [hrun] at h
          subst h
          exact .fails (hn form e s _ hrun hu)
  | case2 => exact absurd heven (by simp)
  | case3 i head rest hpair hsingle =>
      subst h
      refine .notSymbol ?_
      rintro name rfl
      cases rest with
      | nil => exact hsingle name rfl rfl
      | cons form rest => exact hpair name form rest rfl rfl
  | case4 =>
      subst h
      exact .nil

theorem mapM_sound (hn : IsSound nested) (forms : List Value) {u : Outcome (List Value)}
    (hu : ¬ IsExhausted u) (h : (forms.mapM (nested · e)).run s = u) :
    EvaluatesAll s e forms u := by
  induction forms generalizing s u with
  | nil =>
      subst h
      exact .nil
  | cons form rest ih =>
      rw [List.mapM_cons, EStateM.run_bind] at h
      cases hrun : (nested form e).run s with
      | ok v s₁ =>
          rw [hrun] at h
          have hform := hn form e s _ hrun id
          simp only [EStateM.run_bind] at h
          cases hrest : (rest.mapM (nested · e)).run s₁ with
          | ok vs s₂ =>
              rw [hrest] at h
              subst h
              exact .cons hform (ih id hrest)
          | error fault s₂ =>
              rw [hrest] at h
              subst h
              exact .restFails hform (ih hu hrest)
      | error fault s₁ =>
          rw [hrun] at h
          subst h
          exact .firstFails (hn form e s _ hrun hu)

theorem sequence_sound (hn : IsSound nested) (forms : List Value) (ho : ¬ IsExhausted o)
    (h : LeadsTo ((sequence nested e forms).run s) o) : RunsThrough s e forms o := by
  fun_induction sequence nested e forms generalizing s with
  | case1 =>
      obtain rfl : o = .ok .nil s := h
      exact .nil
  | case2 last => exact .last h
  | case3 form next rest ih =>
      rw [EStateM.run_bind] at h
      cases hrun : (nested form e).run s with
      | ok v s₁ =>
          rw [hrun] at h
          exact .cons (hn form e s _ hrun id) (ih h)
      | error fault s₁ =>
          rw [hrun] at h
          obtain rfl : o = .error fault s₁ := h
          exact .fails (hn form e s _ hrun ho)

/-- A step that fails by showing a value leads to that failure. -/
theorem run_of_leadsTo_failShowing {room : Nat} {v : Value} {cause : String → LispError}
    (h : LeadsTo ((liftM (v.print room) >>= fun shown => fail (cause shown) : Eval Step).run s) o) :
    (liftM (v.print room) >>= fun shown => fail (cause shown) : Eval Value).run s = o := by
  rw [EStateM.run_bind] at h ⊢
  cases hprint : v.print room with
  | ok shown =>
      rw [hprint] at h
      exact h.symm
  | error fault =>
      rw [hprint] at h
      exact h.symm

theorem apply_of_not_isFunction {fn : Value} (h : ¬ fn.IsFunction) (room : Nat)
    (vs : List Value) :
    apply room fn vs = liftM (fn.print room) >>= fun shown => fail (.notCallable shown) := by
  unfold apply
  split
  · exact absurd trivial h
  · exact absurd trivial h
  · rfl

theorem apply_sound {room : Nat} {fn : Value} {vs : List Value} (ho : ¬ IsExhausted o)
    (h : LeadsTo ((apply room fn vs).run s) o) : Applies s fn vs o := by
  by_cases hfn : fn.IsFunction
  · cases fn with
    | builtin b =>
        refine .builtin (Builtin.call_settles room ho ?_)
        simp only [apply, EStateM.run_bind] at h
        cases hcall : (b.call room vs).run s with
        | ok v s₁ =>
            rw [hcall] at h
            exact h.symm
        | error fault s₁ =>
            rw [hcall] at h
            exact h.symm
    | closure serial params body home =>
        simp only [apply, enter] at h
        by_cases hlen : vs.length = params.length
        · rw [if_pos hlen] at h
          exact .closure hlen h
        · rw [if_neg hlen] at h
          obtain rfl := h
          exact .wrongCount hlen
    | _ => exact hfn.elim
  · rw [apply_of_not_isFunction hfn] at h
    exact .notFunction hfn
      (Builtin.failShowing_settles room ho (run_of_leadsTo_failShowing h))

theorem makeClosure_sound {i : Option Serial} {params body : Value}
    (h : LeadsTo ((do return .value (← makeClosure params body e) : Eval Step).run s) o) :
    Evaluates s e (SpecialForm.lambda.applied i [params, body]) o := by
  cases params with
  | list j params =>
      cases hnames : parameterNames 0 [] params with
      | ok names =>
          obtain ⟨hnodup, heq⟩ :=
            SpecialForm.parameterNames_eq_ok hnames List.nodup_nil
          obtain rfl : names.map .sym = params := heq
          simp only [makeClosure, hnames] at h
          obtain rfl := h
          exact .lambda hnodup
      | error defect =>
          have hdefect := SpecialForm.parameterDefect?_eq [] params rfl
          rw [List.length_nil, hnames] at hdefect
          simp only [makeClosure, hnames] at h
          obtain rfl := h
          exact .misused (congrArg (Option.map _) hdefect)
  | _ =>
      obtain rfl := h
      exact .misused rfl

theorem define_sound (hn : IsSound nested) {i : Option Serial} {name : String} {expr : Value}
    (ho : ¬ IsExhausted o)
    (h : LeadsTo ((special nested .define [.sym name, expr] e).run s) o) :
    Evaluates s e (SpecialForm.define.applied i [.sym name, expr]) o := by
  rw [special, EStateM.run_bind] at h
  cases hrun : (nested expr e).run s with
  | ok v s₁ =>
      rw [hrun] at h
      obtain rfl := h
      exact .define (hn expr e s _ hrun id)
  | error fault s₁ =>
      rw [hrun] at h
      obtain rfl := h
      exact .defineFails (hn expr e s _ hrun ho)

theorem letStar_sound (hn : IsSound nested) {i j : Option Serial} {bindings : List Value}
    {body : Value} (ho : ¬ IsExhausted o)
    (h : LeadsTo ((special nested .letStar [.list j bindings, body] e).run s) o) :
    Evaluates s e (SpecialForm.letStar.applied i [.list j bindings, body]) o := by
  rw [special] at h
  by_cases heven : bindings.length % 2 = 0
  · rw [if_neg (not_not_intro heven), EStateM.run_bind, run_newFrame] at h
    simp only [EStateM.run_bind] at h
    cases hrun : (bindEach nested s.frames.size 0 bindings).run (s.addFrame e []) with
    | ok u s₁ =>
        rw [hrun] at h
        exact .letStar heven (bindEach_sound hn 0 bindings heven id hrun) h
    | error fault s₁ =>
        rw [hrun] at h
        obtain rfl := h
        exact .letStarFails heven (bindEach_sound hn 0 bindings heven ho hrun)
  · rw [if_pos heven] at h
    obtain rfl := h
    refine .misused ?_
    exact congrArg (Option.map _) (if_neg heven)

/-- An `if` without a third form has the one for `nil` there. -/
theorem special_branch (nested : Evaluator) (e : FrameId) (cond yes : Value)
    (no : Option Value) :
    special nested .branch (cond :: yes :: no.toList) e =
      nested cond e >>= fun v =>
        pure (.tail (if v.isTruthy then yes else no.getD .nil) e) := by
  cases no <;> rfl

/-- A `fn*` of different symbols makes a closure. -/
theorem special_lambda (nested : Evaluator) (e : FrameId) {j : Option Serial}
    {names : List String} (hnodup : names.Nodup) (body : Value) :
    special nested .lambda [.list j (names.map .sym), body] e =
      newSerial >>= fun serial => pure (.value (.closure serial names body e)) := by
  rw [special, makeClosure, SpecialForm.parameterNames_map [] hnodup]
  rfl

theorem branch_sound (hn : IsSound nested) {i : Option Serial} {cond yes : Value}
    (no : Option Value) (ho : ¬ IsExhausted o)
    (h : LeadsTo ((special nested .branch (cond :: yes :: no.toList) e).run s) o) :
    Evaluates s e (SpecialForm.branch.applied i (cond :: yes :: no.toList)) o := by
  rw [special_branch, EStateM.run_bind] at h
  cases hrun : (nested cond e).run s with
  | ok v s₁ =>
      rw [hrun] at h
      exact .branch (hn cond e s _ hrun id) h
  | error fault s₁ =>
      rw [hrun] at h
      obtain rfl := h
      exact .branchFails (hn cond e s _ hrun ho)

/-- What a special form leads to is derivable for it, by cases on the shapes of arguments. -/
theorem special_sound (hn : IsSound nested) {i : Option Serial} {kind : SpecialForm}
    {args : List Value} (ho : ¬ IsExhausted o)
    (h : LeadsTo ((special nested kind args e).run s) o) :
    Evaluates s e (kind.applied i args) o := by
  have hwhole := h
  unfold special at h
  split at h
  case h_1 name expr => exact define_sound hn ho hwhole
  case h_2 first expr hfirst =>
    obtain rfl := h
    refine .misused ?_
    cases first with
    | sym name => exact (hfirst name rfl).elim
    | _ => rfl
  case h_3 j bindings body => exact letStar_sound hn ho hwhole
  case h_4 first body hfirst =>
    obtain rfl := h
    refine .misused ?_
    cases first with
    | list j bindings => exact (hfirst j bindings rfl).elim
    | _ => rfl
  case h_5 cond yes => exact branch_sound hn none ho hwhole
  case h_6 cond yes no => exact branch_sound hn (some no) ho hwhole
  case h_7 => exact .sequence (sequence_sound hn args ho h)
  case h_8 params body => exact makeClosure_sound h
  -- The shapes above leave only arguments of a number that the form does not admit.
  case h_9 hdo _ hdef _ hlet hif₂ hif₃ hfn =>
    obtain rfl := h
    exact .misused (if_neg (SpecialForm.not_admits_of_unmatched hdo hdef hlet hif₂ hif₃ hfn))

theorem application_sound (hn : IsSound nested) (room : Nat) {i : Option Serial} {head : Value}
    {args : List Value} (hhead : ∀ kind : SpecialForm, head ≠ .sym kind.name)
    (ho : ¬ IsExhausted o)
    (h : LeadsTo ((nested head e >>= fun fn =>
      args.mapM (nested · e) >>= fun vs => apply room fn vs).run s) o) :
    Evaluates s e (.list i (head :: args)) o := by
  rw [EStateM.run_bind] at h
  cases hfn : (nested head e).run s with
  | ok fn s₁ =>
      rw [hfn] at h
      have hfn := hn head e s _ hfn id
      simp only [EStateM.run_bind] at h
      cases hargs : (args.mapM (nested · e)).run s₁ with
      | ok vs s₂ =>
          rw [hargs] at h
          exact .apply hhead hfn (mapM_sound hn args id hargs) (apply_sound ho h)
      | error fault s₂ =>
          rw [hargs] at h
          obtain rfl := h
          exact .argsFail hhead hfn (mapM_sound hn args ho hargs)
  | error fault s₁ =>
      rw [hfn] at h
      obtain rfl := h
      exact .headFails hhead (hn head e s _ hfn ho)

/-- What one step leads to is derivable for the whole form. -/
theorem step_sound (hn : IsSound nested) (room : Nat) {form : Value} (ho : ¬ IsExhausted o)
    (h : LeadsTo ((step nested room form e).run s) o) : Evaluates s e form o := by
  unfold step at h
  split at h
  case h_1 name =>
    rw [EStateM.run_bind] at h
    cases hname : s.lookup? e name with
    | some v =>
        rw [run_lookup_some s hname] at h
        obtain rfl := h
        exact .found hname
    | none =>
        rw [run_lookup_none s hname] at h
        obtain rfl := h
        exact .unbound hname
  case h_2 i head args =>
    -- The head decides: only a symbol that names a special form makes one.
    split at h
    case h_1 kind hkind =>
      obtain rfl := eq_name_of_specialForm? hkind
      exact special_sound hn ho h
    case h_2 hkind =>
      exact application_sound hn room (ne_name_of_specialForm?_eq_none hkind) ho h
  case h_3 hsym hlist =>
    obtain rfl := h
    refine .self ?_
    cases form with
    | sym name => exact (hsym name rfl).elim
    | list i items =>
        cases items with
        | nil => trivial
        | cons head args => exact (hlist i head args rfl).elim
    | _ => trivial

/-- A chain of steps follows the rules if its nested runs do, by induction on its length. -/
theorem follow_sound (hn : IsSound nested) (room fuel : Nat) :
    IsSound (follow (step nested room) fuel) := by
  induction fuel with
  | zero =>
      rintro form e s o rfl ho
      exact absurd trivial ho
  | succ n ih =>
      intro form e s o h ho
      rw [follow, EStateM.run_bind] at h
      refine step_sound hn room ho ?_
      -- What is left of the chain is shorter, and the step leads to what it comes to.
      cases hstep : (step nested room form e).run s with
      | ok next s₁ =>
          rw [hstep] at h
          cases next with
          | value v => exact h.symm
          | tail form₁ e₁ => exact ih form₁ e₁ s₁ o h ho
      | error fault s₁ =>
          rw [hstep] at h
          exact h.symm

/-- Every run follows the rules, by induction on the depth it may take. -/
theorem evaluate_sound (fuel depth : Nat) : IsSound (evaluate fuel depth) := by
  induction depth with
  | zero =>
      rintro form e s o rfl ho
      exact absurd trivial ho
  | succ n ih => exact follow_sound ih n fuel

/-! ## From rules to runs -/

/-- The rest of a chain after one of its steps. -/
def finish (limits : Limits) : Step → Eval Value
  | .value v => return v
  | .tail form e => evaluate limits.fuel (limits.depth + 1) form e

/-- One step and the rest of its chain, which an evaluation under larger limits makes too. -/
def turn (limits : Limits) (form : Value) (e : FrameId) : Eval Value :=
  step (evaluate limits.fuel limits.depth) limits.depth form e >>= finish limits

theorem turn_agrees {cuts : Fault → Prop} (hfuel : cuts .outOfFuel) (limits : Limits)
    (form : Value) (e : FrameId) :
    AgreesUnless cuts (turn limits form e)
      (evaluate (limits.fuel + 1) (limits.depth + 1) form e) := by
  have hnested := evaluate_mono_fuel (Nat.le_succ limits.fuel) (fun _ => hfuel) limits.depth
  have hstep : ∀ form e, AgreesUnless cuts
      (step (evaluate limits.fuel limits.depth) limits.depth form e)
      (step (evaluate (limits.fuel + 1) limits.depth) limits.depth form e) :=
    step_mono_of_apply hnested fun _ _ => .refl _
  refine (hstep form e).bind fun next => ?_
  cases next with
  | value v => exact .refl _
  | tail form e => exact follow_mono hstep (Nat.le_refl _) (fun _ => hfuel) form e

end Eval

section Settling

variable {α β : Type} {s s₁ : Store} {o : Outcome β}

theorem Settles.const {x : Eval β} (ho : ¬ IsExhausted o) (h : x.run s = o) :
    Settles (fun _ => x) s o :=
  ⟨ho, 0, fun _ _ _ => h⟩

/-- What settles with a result goes on to where the rest settles. -/
theorem Settles.bind {x : Limits → Eval α} {f : Limits → α → Eval β} {a : α}
    (hx : Settles x s (.ok a s₁)) (hf : Settles (fun limits => f limits a) s₁ o) :
    Settles (fun limits => x limits >>= f limits) s o := by
  obtain ⟨-, m, hm⟩ := hx
  obtain ⟨ho, n, hn⟩ := hf
  refine ⟨ho, max m n, fun limits hd hfuel => ?_⟩
  rw [EStateM.run_bind,
    hm limits (Nat.le_trans (Nat.le_max_left m n) hd) (Nat.le_trans (Nat.le_max_left m n) hfuel)]
  exact hn limits (Nat.le_trans (Nat.le_max_right m n) hd)
    (Nat.le_trans (Nat.le_max_right m n) hfuel)

/-- What settles with a fault goes no further. -/
theorem Settles.bind_error {x : Limits → Eval α} {f : Limits → α → Eval β} {fault : Fault}
    (hx : Settles x s (.error fault s₁)) :
    Settles (fun limits => x limits >>= f limits) s (.error fault s₁) := by
  obtain ⟨ho, n, hn⟩ := hx
  refine ⟨ho, n, fun limits hd hfuel => ?_⟩
  rw [EStateM.run_bind, hn limits hd hfuel]

end Settling

namespace Eval

variable {s : Store} {e : FrameId} {form : Value} {o : Outcome Value}

/-- The rest of a chain settles where the evaluation of the form left to do settles. -/
theorem finish_settles
    (h : Settles (fun limits => evaluate limits.fuel limits.depth form e) s o) :
    Settles (fun limits => finish limits (.tail form e)) s o := by
  obtain ⟨ho, n, hn⟩ := h
  exact ⟨ho, n, fun limits hd hfuel =>
    hn ⟨limits.depth + 1, limits.fuel⟩ (Nat.le_succ_of_le hd) hfuel⟩

/-- An evaluation settles where one step and the rest of its chain settle. -/
theorem evaluate_settles_of_turn (h : Settles (fun limits => turn limits form e) s o) :
    Settles (fun limits => evaluate limits.fuel limits.depth form e) s o := by
  obtain ⟨ho, n, hn⟩ := h
  -- One run that is not cut short settles what all longer ones come to.
  exact evaluate_settles ho
    ((turn_agrees trivial ⟨n, n⟩ form e).run_eq ho (hn ⟨n, n⟩ (Nat.le_refl n) (Nat.le_refl n)))

/-! ### The steps that the rules describe -/

theorem fail_bind {α β : Type} (cause : LispError) (f : α → Eval β) :
    (fail cause >>= f : Eval β) = fail cause := rfl

section Steps

variable (nested : Evaluator) (room : Nat) (e : FrameId)

theorem step_special (kind : SpecialForm) (i : Option Serial) (args : List Value) :
    step nested room (kind.applied i args) e = special nested kind args e := by
  rw [step, specialForm?_name]

theorem step_application {head : Value} (h : ∀ kind : SpecialForm, head ≠ .sym kind.name)
    (i : Option Serial) (args : List Value) :
    step nested room (.list i (head :: args)) e =
      nested head e >>= fun fn => args.mapM (nested · e) >>= fun vs => apply room fn vs := by
  rw [step, specialForm?_eq_none h]

theorem step_self {form : Value} (h : form.IsSelfEvaluating) :
    step nested room form e = pure (.value form) := by
  unfold step
  split
  · exact h.elim
  · exact h.elim
  · rfl

theorem makeClosure_of_defect {params : List Value} {defect : Defect}
    (h : SpecialForm.parameterDefect? [] params = some defect) (i : Option Serial) (body : Value) :
    makeClosure (.list i params) body e = malformed .lambda defect := by
  have heq := SpecialForm.parameterDefect?_eq [] params rfl
  rw [List.map_nil, h, List.length_nil] at heq
  cases hnames : parameterNames 0 [] params with
  | ok names =>
      rw [hnames] at heq
      exact nomatch heq
  | error other =>
      rw [hnames] at heq
      obtain rfl := Option.some.inj heq
      simp only [makeClosure, hnames]

/-- A special form of the wrong shape is refused at once. -/
theorem special_of_misuse {kind : SpecialForm} {args : List Value} {cause : LispError}
    (h : kind.misuse? args = some cause) : special nested kind args e = fail cause := by
  unfold special
  split
  case h_1 | h_5 | h_6 => exact nomatch h
  case h_2 first expr hfirst =>
    cases first with
    | sym name => exact (hfirst name rfl).elim
    | _ =>
        obtain rfl := Option.some.inj h
        rfl
  case h_3 j bindings body =>
    by_cases heven : bindings.length % 2 = 0
    · have hnone : SpecialForm.misuse? .letStar [.list j bindings, body] = none :=
        congrArg (Option.map _) (if_pos heven)
      rw [hnone] at h
      exact nomatch h
    · have hsome : SpecialForm.misuse? .letStar [.list j bindings, body] =
          some (.malformed .letStar .oddBindings) :=
        congrArg (Option.map _) (if_neg heven)
      rw [hsome] at h
      obtain rfl := Option.some.inj h
      exact if_pos heven
  case h_4 first body hfirst =>
    cases first with
    | list j bindings => exact (hfirst j bindings rfl).elim
    | _ =>
        obtain rfl := Option.some.inj h
        rfl
  case h_7 => exact nomatch h
  case h_8 params body =>
    cases params with
    | list j params =>
        obtain ⟨defect, hdefect, rfl⟩ := Option.map_eq_some_iff.mp h
        rw [makeClosure_of_defect e hdefect]
        rfl
    | _ =>
        obtain rfl := Option.some.inj h
        rfl
  case h_9 hdo _ hdef _ hlet hif₂ hif₃ hfn =>
    have hcount := SpecialForm.not_admits_of_unmatched hdo hdef hlet hif₂ hif₃ hfn
    rw [SpecialForm.misuse?, if_neg hcount] at h
    obtain rfl := Option.some.inj h
    rfl

end Steps

end Eval

/-! ### Derivations settle -/

open Eval

mutual

/-- What the rules derive, evaluation comes to. -/
theorem Evaluates.settles : ∀ {s e form o}, Evaluates s e form o →
    Settles (fun limits => evaluate limits.fuel limits.depth form e) s o
  | s, e, form, _, .self h => by
    refine evaluate_settles_of_turn ?_
    simp only [turn, step_self _ _ _ h]
    exact .const id rfl
  | s, e, .sym name, .ok v _, .found h => by
    have hstep : Settles (fun limits => step (evaluate limits.fuel limits.depth) limits.depth
        (.sym name) e) s (.ok (.value v) s) :=
      .bind (.const id (run_lookup_some s h)) (.const id rfl)
    exact evaluate_settles_of_turn (.bind hstep (.const id rfl))
  | s, e, .sym name, _, .unbound h => by
    refine evaluate_settles_of_turn (.bind_error (.bind_error ?_))
    exact .const id (run_lookup_none s h)
  | _, _, _, _, .misused h => by
    refine evaluate_settles_of_turn ?_
    simp only [turn, step_special, special_of_misuse _ _ h]
    exact .const id rfl
  | _, _, _, _, .define h => by
    refine evaluate_settles_of_turn ?_
    simp only [turn, step_special]
    refine .bind (a := .value _) (.bind h.settles ?_) (.const id rfl)
    exact .const id rfl
  | _, _, _, _, .defineFails h => by
    refine evaluate_settles_of_turn ?_
    simp only [turn, step_special]
    exact .bind_error (.bind_error h.settles)
  | _, _, _, _, .letStar heven hbinds hbody => by
    refine evaluate_settles_of_turn ?_
    simp only [turn, step_special, special, if_neg (not_not_intro heven)]
    refine .bind (a := .tail _ _) (.bind (.const id (run_newFrame _ _ _)) ?_)
      (finish_settles hbody.settles)
    exact .bind hbinds.settles (.const id rfl)
  | _, _, _, _, .letStarFails heven hbinds => by
    refine evaluate_settles_of_turn ?_
    simp only [turn, step_special, special, if_neg (not_not_intro heven)]
    refine .bind_error (.bind (.const id (run_newFrame _ _ _)) ?_)
    exact .bind_error hbinds.settles
  | _, _, _, _, .branch hcond hbranch => by
    refine evaluate_settles_of_turn ?_
    simp only [turn, step_special, special_branch]
    refine .bind (a := .tail _ _) ?_ (finish_settles hbranch.settles)
    exact .bind hcond.settles (.const id rfl)
  | _, _, _, _, .branchFails hcond => by
    refine evaluate_settles_of_turn ?_
    simp only [turn, step_special, special_branch]
    exact .bind_error (.bind_error hcond.settles)
  | _, _, _, _, .sequence h => by
    refine evaluate_settles_of_turn ?_
    simp only [turn, step_special]
    exact h.settles
  | _, _, _, _, .lambda h => by
    refine evaluate_settles_of_turn ?_
    simp only [turn, step_special, special, makeClosure,
      SpecialForm.parameterNames_map [] h]
    exact .const id rfl
  | _, _, _, _, .apply hhead hfn hargs happly => by
    refine evaluate_settles_of_turn ?_
    simp only [turn, step_application _ _ _ hhead, bind_assoc]
    exact .bind hfn.settles (.bind hargs.settles happly.settles)
  | _, _, _, _, .headFails hhead hfn => by
    refine evaluate_settles_of_turn ?_
    simp only [turn, step_application _ _ _ hhead, bind_assoc]
    exact .bind_error hfn.settles
  | _, _, _, _, .argsFail hhead hfn hargs => by
    refine evaluate_settles_of_turn ?_
    simp only [turn, step_application _ _ _ hhead, bind_assoc]
    exact .bind hfn.settles (.bind_error hargs.settles)

theorem EvaluatesAll.settles : ∀ {s e forms u}, EvaluatesAll s e forms u →
    Settles (fun limits => forms.mapM (evaluate limits.fuel limits.depth · e)) s u
  | _, _, _, _, .nil => .const id rfl
  | _, _, _, _, .cons hform hrest => by
    simp only [List.mapM_cons]
    exact .bind hform.settles (.bind hrest.settles (.const id rfl))
  | _, _, _, _, .firstFails hform => by
    simp only [List.mapM_cons]
    exact .bind_error hform.settles
  | _, _, _, _, .restFails hform hrest => by
    simp only [List.mapM_cons]
    exact .bind hform.settles (.bind_error hrest.settles)

theorem Binds.settles : ∀ {s e n bindings u}, Binds s e n bindings u →
    Settles (fun limits => bindEach (evaluate limits.fuel limits.depth) e n bindings) s u
  | _, _, _, _, _, .nil => .const id rfl
  | _, _, _, _, _, .cons hform hrest =>
    .bind hform.settles (.bind (.const id (run_define _ _ _ _)) hrest.settles)
  | _, _, _, _, _, .fails hform => .bind_error hform.settles
  | _, _, _, head :: _, _, .notSymbol h => by
    cases head with
    | sym name => exact (h name rfl).elim
    | _ => exact .const id rfl

theorem RunsThrough.settles : ∀ {s e forms o}, RunsThrough s e forms o →
    Settles (fun limits =>
      Eval.sequence (evaluate limits.fuel limits.depth) e forms >>= finish limits) s o
  | _, _, _, _, .nil => .const id rfl
  | s, e, [form], _, .last h => by
    have hlast : Settles (fun limits =>
        Eval.sequence (evaluate limits.fuel limits.depth) e [form]) s (.ok (.tail form e) s) :=
      .const id rfl
    exact .bind hlast (finish_settles h.settles)
  | _, _, _, _, .cons hform hrest => by
    simp only [Eval.sequence, bind_assoc]
    exact .bind hform.settles hrest.settles
  | _, _, _, _, .fails hform => by
    simp only [Eval.sequence, bind_assoc]
    exact .bind_error hform.settles

theorem Applies.settles : ∀ {s fn vs o}, Applies s fn vs o →
    Settles (fun limits => apply limits.depth fn vs >>= finish limits) s o
  | _, _, _, .ok v s₁, .builtin h => by
    exact .bind (a := .value _) (.bind h (.const id rfl)) (.const id rfl)
  | _, _, _, .error fault s₁, .builtin h => .bind_error (.bind_error h)
  | _, _, _, _, .closure hlen hbody => by
    simp only [apply, enter, if_pos hlen]
    refine .bind (a := .tail _ _) (.bind (.const id (run_newFrame _ _ _)) ?_)
      (finish_settles hbody.settles)
    exact .const id rfl
  | _, _, _, _, .wrongCount hlen => by
    simp only [apply, enter, if_neg hlen]
    exact .const id rfl
  | _, _, _, _, .notFunction hfn h => by
    simp only [apply_of_not_isFunction hfn, bind_assoc, fail_bind]
    exact h

end

/-- **The trampoline follows the rules**: with nothing to cut it short, evaluation ends with
    exactly the outcomes, stores and output that the recursive rules derive. -/
theorem settles_iff_evaluates (s : Store) (e : FrameId) (form : Value) (o : Outcome Value) :
    Settles (fun limits => evaluate limits.fuel limits.depth form e) s o ↔
      Evaluates s e form o := by
  constructor
  · rintro ⟨ho, n, hn⟩
    exact evaluate_sound n n form e s o (hn ⟨n, n⟩ (Nat.le_refl n) (Nat.le_refl n)) ho
  · exact Evaluates.settles

end TailLisp
