import TailLisp.Proofs.Headroom
import TailLisp.Proofs.Trampoline

/-! # Tail steps — what is left to do takes the place of what was done

    A depth is a stack limit, and fuel is none: it only makes the length of a chain of tail calls
    finite.  So an evaluation within a depth is taken with fuel enough, and then a step that
    leaves another form to do is no nesting at all.

    * **`EndsWithin`** — how an evaluation ends within a depth, if it comes to an end.
    * **`HandsOn`** — a step within a depth leaves a form to do in some frame and store.
    * **`HandsOn.endsWithin_iff`** — then evaluating the one form ends as evaluating the other
      does, within the same depth.
    * **`EndsWithin.or_overflows`** — less depth makes no other difference than an overflow.
    * One lemma for each form with a tail position, from what it evaluates on the way, and
      others for what an application fails with on the way. -/

namespace TailLisp

/-- The fault of a chain that is longer than its fuel. -/
def Fault.IsShortage (fault : Fault) : Prop := fault = .outOfFuel

theorem Fault.isShortage_outOfFuel : IsShortage .outOfFuel := rfl

/-- No builtin has the name of a special form. -/
theorem Builtin.sym_name_ne (b : Builtin) (kind : SpecialForm) :
    Value.sym b.name ≠ .sym kind.name := by
  rw [ne_eq, Value.sym.injEq]
  cases b <;> cases kind <;> decide

namespace Eval

variable {α β : Type} {s s' s₁ s₂ : Store} {e e' : FrameId} {depth : Nat}

/-! ## Fuel enough -/

/-- Given fuel enough, `x` ends with `o`. -/
def Ends (x : Nat → Eval α) (s : Store) (o : Outcome α) : Prop :=
  (∀ s', o ≠ .error .outOfFuel s') ∧ ∃ least, ∀ fuel, least ≤ fuel → (x fuel).run s = o

namespace Ends

/-- What needs no fuel. -/
theorem const {x : Eval α} {a : α} (h : x.run s = .ok a s') : Ends (fun _ => x) s (.ok a s') :=
  ⟨fun _ => nofun, 0, fun _ _ => h⟩

/-- What ends with a result goes on to where the rest ends. -/
theorem bind {x : Nat → Eval α} {f : Nat → α → Eval β} {a : α} {o : Outcome β}
    (hx : Ends x s (.ok a s₁)) (hf : Ends (fun fuel => f fuel a) s₁ o) :
    Ends (fun fuel => x fuel >>= f fuel) s o := by
  obtain ⟨-, m, hm⟩ := hx
  obtain ⟨ho, n, hn⟩ := hf
  refine ⟨ho, max m n, fun fuel hfuel => ?_⟩
  rw [EStateM.run_bind, hm fuel (Nat.le_trans (Nat.le_max_left m n) hfuel)]
  exact hn fuel (Nat.le_trans (Nat.le_max_right m n) hfuel)

theorem ne_outOfFuel {x : Nat → Eval α} {fault : Fault} (h : Ends x s (.error fault s₁)) :
    fault ≠ .outOfFuel := by
  rintro rfl
  exact h.1 s₁ rfl

theorem of_error {x : Nat → Eval α} {fault : Fault} (hfault : fault ≠ .outOfFuel) (least : Nat)
    (h : ∀ fuel, least ≤ fuel → (x fuel).run s = .error fault s₁) : Ends x s (.error fault s₁) := by
  refine ⟨?_, least, h⟩
  rintro s' ⟨⟩
  exact hfault rfl

/-- What ends with a fault goes no further. -/
theorem bind_error {x : Nat → Eval α} {f : Nat → α → Eval β} {fault : Fault}
    (hx : Ends x s (.error fault s₁)) :
    Ends (fun fuel => x fuel >>= f fuel) s (.error fault s₁) := by
  obtain ⟨-, n, hn⟩ := id hx
  refine .of_error hx.ne_outOfFuel n fun fuel hfuel => ?_
  rw [EStateM.run_bind, hn fuel hfuel]

/-- There is but one end. -/
theorem unique {x : Nat → Eval α} {o o' : Outcome α} (h : Ends x s o) (h' : Ends x s o') :
    o = o' := by
  obtain ⟨-, m, hm⟩ := h
  obtain ⟨-, n, hn⟩ := h'
  rw [← hm (max m n) (Nat.le_max_left m n), hn (max m n) (Nat.le_max_right m n)]

end Ends

/-- Within a depth, and with fuel enough, evaluating a form in a frame ends with an outcome. -/
def EndsWithin (depth : Nat) (form : Value) (e : FrameId) (s : Store) (o : Outcome Value) : Prop :=
  Ends (fun fuel => evaluate fuel depth form e) s o

/-- Within a depth for what is evaluated on the way, and with fuel enough, one step of a form
    leaves another one to do. -/
def HandsOn (depth : Nat) (form : Value) (e : FrameId) (s : Store) (next : Value) (e' : FrameId)
    (s' : Store) : Prop :=
  Ends (fun fuel => step (evaluate fuel depth) depth form e) s (.ok (.tail next e') s')

/-! ## The rest of a chain -/

/-- A run that did not want fuel is the same in what agrees with it otherwise. -/
theorem AgreesUnless.run_eq_of_fuel {x y : Eval α} {o : Outcome α}
    (hxy : AgreesUnless Fault.IsShortage x y) (ho : ∀ s', o ≠ .error .outOfFuel s')
    (hx : x.run s = o) : y.run s = o := by
  refine hxy.run_eq_of_not_cuts ?_ hx
  rintro _ s' heq rfl
  exact ho s' heq

/-- One run that did not want fuel shows how all with more fuel end. -/
theorem endsWithin_of_run {fuel : Nat} {form : Value} {o : Outcome Value}
    (ho : ∀ s', o ≠ .error .outOfFuel s') (h : (evaluate fuel depth form e).run s = o) :
    EndsWithin depth form e s o := by
  refine ⟨ho, fuel, fun fuel' hfuel => ?_⟩
  have hagrees := evaluate_mono_fuel hfuel (fun _ => Fault.isShortage_outOfFuel) depth form e
  exact hagrees.run_eq_of_fuel ho h

/-- Within less depth an evaluation ends as it does within more, or it overflows. -/
theorem EndsWithin.or_overflows {depth' : Nat} {form : Value} {o : Outcome Value}
    (h : EndsWithin depth' form e s o) (hdepth : depth ≤ depth') :
    EndsWithin depth form e s o ∨ ∃ st, EndsWithin depth form e s (.error .stackOverflow st) := by
  obtain ⟨ho, n, hn⟩ := h
  have hagrees : AgreesUnless Fault.IsOverflow (evaluate n depth form e)
      (evaluate n depth' form e) :=
    evaluate_mono Fault.isOverflow_stackOverflow (Nat.le_refl n)
      (fun hlt => absurd hlt (Nat.lt_irrefl n)) hdepth form e
  rcases hagrees s with ⟨fault, st, hrun, rfl⟩ | hrun
  · exact .inr ⟨st, endsWithin_of_run (fun _ => nofun) hrun⟩
  · exact .inl (endsWithin_of_run ho (hrun.trans (hn n (Nat.le_refl n))))

/-- Within no depth nothing is evaluated. -/
theorem endsWithin_zero (form : Value) (e : FrameId) (s : Store) :
    EndsWithin 0 form e s (.error .stackOverflow s) :=
  ⟨fun _ => nofun, 0, fun _ _ => rfl⟩

theorem follow_of_value {step : Value → FrameId → Eval Step} {form v : Value}
    (h : (step form e).run s = .ok (.value v) s') (fuel : Nat) :
    (follow step (fuel + 1) form e).run s = .ok v s' := by
  rw [follow, EStateM.run_bind, h]
  rfl

theorem follow_of_tail {step : Value → FrameId → Eval Step} {form next : Value}
    (h : (step form e).run s = .ok (.tail next e') s') (fuel : Nat) :
    (follow step (fuel + 1) form e).run s = (follow step fuel next e').run s' := by
  rw [follow, EStateM.run_bind, h]

/-- A step that gives a value ends a chain. -/
theorem endsWithin_of_value {form v : Value}
    (h : Ends (fun fuel => step (evaluate fuel depth) depth form e) s (.ok (.value v) s')) :
    EndsWithin (depth + 1) form e s (.ok v s') := by
  obtain ⟨-, n, hn⟩ := h
  exact endsWithin_of_run (fun _ => nofun) (follow_of_value (hn (n + 1) (Nat.le_succ n)) n)

/-- A step that fails ends a chain. -/
theorem endsWithin_of_error {form : Value} {fault : Fault}
    (h : Ends (fun fuel => step (evaluate fuel depth) depth form e) s (.error fault s')) :
    EndsWithin (depth + 1) form e s (.error fault s') := by
  obtain ⟨-, n, hn⟩ := id h
  refine .of_error h.ne_outOfFuel (n + 1) fun fuel hfuel => ?_
  obtain ⟨fuel, rfl⟩ : ∃ m, fuel = m + 1 := ⟨fuel - 1, by omega⟩
  rw [evaluate, follow, EStateM.run_bind, hn (fuel + 1) (Nat.le_of_succ_le hfuel)]

/-- **A form that is left to do is done in the place of the form that left it**: within the same
    depth, and in the frame and the store that it was left in. -/
theorem HandsOn.endsWithin_iff {form next : Value} (h : HandsOn depth form e s next e' s')
    (o : Outcome Value) :
    EndsWithin (depth + 1) form e s o ↔ EndsWithin (depth + 1) next e' s' o := by
  obtain ⟨-, m, hm⟩ := h
  constructor
  · rintro ⟨ho, n, hn⟩
    -- The first step took one unit of fuel; with one more the rest of the chain is the same.
    have hrun : (evaluate (max m n + 1) (depth + 1) form e).run s = o :=
      hn _ (Nat.le_succ_of_le (Nat.le_max_right m n))
    rw [evaluate, follow_of_tail (hm _ (Nat.le_succ_of_le (Nat.le_max_left m n)))] at hrun
    have hlonger : AgreesUnless Fault.IsShortage
        (follow (step (evaluate (max m n + 1) depth) depth) (max m n) next e')
        (evaluate (max m n + 1) (depth + 1) next e') :=
      follow_mono (fun _ _ => .refl _) (Nat.le_succ _) (fun _ => Fault.isShortage_outOfFuel) next e'
    exact endsWithin_of_run ho (hlonger.run_eq_of_fuel ho hrun)
  · rintro ⟨ho, n, hn⟩
    have hrun : (turn ⟨depth, max m n⟩ form e).run s = o := by
      rw [turn, EStateM.run_bind, hm _ (Nat.le_max_left m n)]
      exact hn _ (Nat.le_max_right m n)
    have hturn := turn_agrees Fault.isShortage_outOfFuel ⟨depth, max m n⟩ form e
    exact endsWithin_of_run ho (hturn.run_eq_of_fuel ho hrun)

/-! ## What is evaluated on the way -/

/-- Within a depth, evaluating forms from left to right gives values. -/
inductive EvaluatesEach (depth : Nat) (e : FrameId) :
    Store → List Value → List Value → Store → Prop where
  | nil {s : Store} : EvaluatesEach depth e s [] [] s
  | cons {s s₁ s₂ : Store} {form v : Value} {rest vs : List Value} :
      EndsWithin depth form e s (.ok v s₁) → EvaluatesEach depth e s₁ rest vs s₂ →
      EvaluatesEach depth e s (form :: rest) (v :: vs) s₂

/-- Within a depth, names are bound to the values of forms from left to right. -/
inductive BindsEach (depth : Nat) (e : FrameId) :
    Store → List (String × Value) → Store → Prop where
  | nil {s : Store} : BindsEach depth e s [] s
  | cons {s s₁ s₂ : Store} {name : String} {form v : Value} {rest : List (String × Value)} :
      EndsWithin depth form e s (.ok v s₁) → BindsEach depth e (s₁.define e name v) rest s₂ →
      BindsEach depth e s ((name, form) :: rest) s₂

/-- The bindings of a `let*` as they are written. -/
def bindingForms (bindings : List (String × Value)) : List Value :=
  bindings.flatMap fun (name, form) => [.sym name, form]

theorem even_length_bindingForms (bindings : List (String × Value)) :
    (bindingForms bindings).length % 2 = 0 := by
  induction bindings with
  | nil => rfl
  | cons binding rest ih =>
      rw [bindingForms, List.flatMap_cons, List.length_append, ← bindingForms]
      exact (Nat.add_mod_left 2 _).trans ih

namespace EvaluatesEach

theorem length_eq {forms vs : List Value} (h : EvaluatesEach depth e s forms vs s') :
    vs.length = forms.length := by
  induction h with
  | nil => rfl
  | cons _ _ ih => exact congrArg Nat.succ ih

/-- Arguments are evaluated one by one. -/
theorem ends_mapM {forms vs : List Value} (h : EvaluatesEach depth e s forms vs s') :
    Ends (fun fuel => forms.mapM (evaluate fuel depth · e)) s (.ok vs s') := by
  induction h with
  | nil => exact .const rfl
  | cons hform _ ih =>
      simp only [List.mapM_cons]
      exact .bind hform (.bind ih (.const rfl))

/-- The first argument that fails is the last one that is evaluated. -/
theorem ends_mapM_error {before vs : List Value} (h : EvaluatesEach depth e s before vs s₁)
    {arg : Value} {fault : Fault} (harg : EndsWithin depth arg e s₁ (.error fault s'))
    (after : List Value) :
    Ends (fun fuel => (before ++ arg :: after).mapM (evaluate fuel depth · e)) s
      (.error fault s') := by
  induction h with
  | nil =>
      simp only [List.nil_append, List.mapM_cons]
      exact .bind_error harg
  | cons hform _ ih =>
      simp only [List.cons_append, List.mapM_cons]
      exact .bind hform (.bind_error (ih harg))

/-- The forms of a `do` in front of the last are evaluated one by one. -/
theorem ends_sequence {before vs : List Value} (h : EvaluatesEach depth e s before vs s')
    (last : Value) :
    Ends (fun fuel => sequence (evaluate fuel depth) e (before ++ [last])) s
      (.ok (.tail last e) s') := by
  induction h with
  | nil => exact .const rfl
  | @cons s s₁ s₂ form v rest vs hform _ ih =>
      -- Behind a form of those in front there is always another one.
      obtain ⟨next, tail, htail⟩ : ∃ next tail, rest ++ [last] = next :: tail :=
        List.exists_cons_of_ne_nil (List.append_ne_nil_of_right_ne_nil rest (List.cons_ne_nil _ _))
      rw [htail] at ih
      simp only [List.cons_append, htail, sequence]
      exact .bind hform ih

end EvaluatesEach

theorem BindsEach.ends_bindEach {bindings : List (String × Value)}
    (h : BindsEach depth e s bindings s') (i : Nat) :
    Ends (fun fuel => bindEach (evaluate fuel depth) e i (bindingForms bindings)) s
      (.ok () s') := by
  induction h generalizing i with
  | nil => exact .const rfl
  | cons hform _ ih => exact .bind hform (.bind (.const (run_define _ _ _ _)) (ih (i + 2)))

/-! ## Forms that leave another form to do -/

/-- An `if` leaves the branch that its condition chooses. -/
theorem handsOn_branch {cond v : Value} (hcond : EndsWithin depth cond e s (.ok v s'))
    (i : Option Serial) (yes : Value) (no : Option Value) :
    HandsOn depth (SpecialForm.branch.applied i (cond :: yes :: no.toList)) e s
      (if v.isTruthy then yes else no.getD .nil) e s' := by
  simp only [HandsOn, step_special, special_branch]
  exact .bind hcond (.const rfl)

/-- A `do` leaves its last form. -/
theorem handsOn_sequence {before vs : List Value} (h : EvaluatesEach depth e s before vs s')
    (i : Option Serial) (last : Value) :
    HandsOn depth (SpecialForm.sequence.applied i (before ++ [last])) e s last e s' := by
  simp only [HandsOn, step_special]
  exact h.ends_sequence last

/-- A `let*` leaves its body, in a new frame. -/
theorem handsOn_letStar {bindings : List (String × Value)}
    (h : BindsEach depth s.frames.size (s.addFrame e []) bindings s') (i j : Option Serial)
    (body : Value) :
    HandsOn depth (SpecialForm.letStar.applied i [.list j (bindingForms bindings), body]) e s
      body s.frames.size s' := by
  simp only [HandsOn, step_special, special,
    if_neg (not_not_intro (even_length_bindingForms bindings))]
  exact .bind (.const (run_newFrame _ _ _)) (.bind (h.ends_bindEach 0) (.const rfl))

/-- A call of a closure leaves its body, in a new frame that binds the parameters. -/
theorem handsOn_call {head body : Value} {k : Serial} {params : List String} {home : FrameId}
    {args vs : List Value} (hhead : ∀ kind : SpecialForm, head ≠ .sym kind.name)
    (hfn : EndsWithin depth head e s (.ok (.closure k params body home) s₁))
    (hargs : EvaluatesEach depth e s₁ args vs s₂) (hlength : vs.length = params.length)
    (i : Option Serial) :
    HandsOn depth (.list i (head :: args)) e s body s₂.frames.size
      (s₂.addFrame home (Bindings.ofList (params.zip vs))) := by
  simp only [HandsOn, step_application _ _ _ hhead]
  refine .bind hfn (.bind hargs.ends_mapM ?_)
  simp only [apply, enter, if_pos hlength]
  exact .bind (.const (run_newFrame _ _ _)) (.const rfl)

/-! ## Forms that give a value -/

theorem endsWithin_self {form : Value} (h : form.IsSelfEvaluating) :
    EndsWithin (depth + 1) form e s (.ok form s) := by
  refine endsWithin_of_value ?_
  simp only [step_self _ _ _ h]
  exact .const rfl

theorem endsWithin_sym {name : String} {v : Value} (h : s.lookup? e name = some v) :
    EndsWithin (depth + 1) (.sym name) e s (.ok v s) := by
  refine endsWithin_of_value ?_
  simp only [step]
  exact .bind (.const (run_lookup_some s h)) (.const rfl)

/-- A `fn*` gives a closure over the frame that it is evaluated in. -/
theorem step_lambda {names : List String} (h : names.Nodup) (nested : Evaluator) (room : Nat)
    (i j : Option Serial) (body : Value) :
    (step nested room (SpecialForm.lambda.applied i [.list j (names.map .sym), body]) e).run s =
      .ok (.value (.closure s.nextSerial names body e))
        { s with nextSerial := s.nextSerial + 1 } := by
  simp only [step_special, special, makeClosure, SpecialForm.parameterNames_map [] h]
  rfl

theorem endsWithin_lambda {names : List String} (h : names.Nodup) (i j : Option Serial)
    (body : Value) :
    EndsWithin (depth + 1) (SpecialForm.lambda.applied i [.list j (names.map .sym), body]) e s
      (.ok (.closure s.nextSerial names body e) { s with nextSerial := s.nextSerial + 1 }) := by
  refine endsWithin_of_value ⟨fun _ => nofun, 0, fun fuel _ => ?_⟩
  exact step_lambda h (evaluate fuel depth) depth i j body

/-- A call of a builtin gives what the builtin computes. -/
theorem endsWithin_builtin {head v : Value} {b : Builtin} {args vs : List Value}
    (hhead : ∀ kind : SpecialForm, head ≠ .sym kind.name)
    (hfn : EndsWithin depth head e s (.ok (.builtin b) s₁))
    (hargs : EvaluatesEach depth e s₁ args vs s₂)
    (hcall : (b.call depth vs).run s₂ = .ok v s') (i : Option Serial) :
    EndsWithin (depth + 1) (.list i (head :: args)) e s (.ok v s') := by
  refine endsWithin_of_value ?_
  simp only [step_application _ _ _ hhead]
  exact .bind hfn (.bind hargs.ends_mapM (.bind (.const hcall) (.const rfl)))

/-! ## Applications that fail on the way -/

theorem endsWithin_of_head_error {head : Value} {fault : Fault}
    (hhead : ∀ kind : SpecialForm, head ≠ .sym kind.name)
    (hfn : EndsWithin depth head e s (.error fault s')) (i : Option Serial) (args : List Value) :
    EndsWithin (depth + 1) (.list i (head :: args)) e s (.error fault s') := by
  refine endsWithin_of_error ?_
  simp only [step_application _ _ _ hhead]
  exact .bind_error hfn

theorem endsWithin_of_arg_error {head fn arg : Value} {before vs : List Value} {fault : Fault}
    (hhead : ∀ kind : SpecialForm, head ≠ .sym kind.name)
    (hfn : EndsWithin depth head e s (.ok fn s₁)) (hbefore : EvaluatesEach depth e s₁ before vs s₂)
    (harg : EndsWithin depth arg e s₂ (.error fault s')) (i : Option Serial) (after : List Value) :
    EndsWithin (depth + 1) (.list i (head :: (before ++ arg :: after))) e s (.error fault s') := by
  refine endsWithin_of_error ?_
  simp only [step_application _ _ _ hhead]
  exact .bind hfn (.bind_error (hbefore.ends_mapM_error harg after))

end Eval

end TailLisp
