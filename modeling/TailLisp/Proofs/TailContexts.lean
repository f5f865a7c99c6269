import TailLisp.Proofs.TailSteps

/-! # Tail contexts — layers that cost no depth

    A form may stand in the tail position of another one, which stands in the tail position of a
    third, and so on: in the branch of an `if` that is chosen, at the end of a `do`, in the body
    of a `let*` or of a function that is called where it is written.  Each of these layers
    evaluates its other parts first, in frames of its own.

    * **`TailLayer.Passes`** — the other parts of a layer have values, each evaluated as if the
      layer stood at the top; the frame and the store in which the form inside is left to do.
    * **`Reaches`** — the same for all layers of a context, from the outside to the inside.
    * **`nesting_in_tail_position`** — a context whose layers are passed ends as the form inside
      it does, within the same depth.  The induction is on the layers, and one layer is one step
      of the trampoline. -/

namespace TailLisp

open Eval

/-- A layer around a form in tail position: everything but the form. -/
inductive TailLayer where
  | firstBranch (serial : Option Serial) (cond : Value) (no : Option Value)
  | secondBranch (serial : Option Serial) (cond yes : Value)
  | last (serial : Option Serial) (before : List Value)
  | letBody (serial inner : Option Serial) (bindings : List (String × Value))
  | callBody (serial head inner : Option Serial) (params : List String) (args : List Value)

namespace TailLayer

/-- The function that is called in a layer. -/
def function (head inner : Option Serial) (params : List String) (body : Value) : Value :=
  SpecialForm.lambda.applied head [.list inner (params.map .sym), body]

/-- A layer with a form in it. -/
def around (layer : TailLayer) (form : Value) : Value :=
  match layer with
  | firstBranch i cond no => SpecialForm.branch.applied i (cond :: form :: no.toList)
  | secondBranch i cond yes => SpecialForm.branch.applied i [cond, yes, form]
  | last i before => SpecialForm.sequence.applied i (before ++ [form])
  | letBody i j bindings => SpecialForm.letStar.applied i [.list j (bindingForms bindings), form]
  | callBody i j k params args => .list i (function j k params form :: args)

/-- Within a depth, the other parts of a layer around `form` have values, and lead from frame `e`
    of store `s` to a frame and a store. -/
inductive Passes (depth : Nat) (form : Value) (e : FrameId) (s : Store) :
    TailLayer → FrameId → Store → Prop where
  | firstBranch {i cond no v s'} : EndsWithin depth cond e s (.ok v s') → v.isTruthy = true →
      Passes depth form e s (.firstBranch i cond no) e s'
  | secondBranch {i cond yes v s'} : EndsWithin depth cond e s (.ok v s') →
      v.isTruthy = false → Passes depth form e s (.secondBranch i cond yes) e s'
  | last {i before vs s'} : EvaluatesEach depth e s before vs s' →
      Passes depth form e s (.last i before) e s'
  | letBody {i j bindings s'} :
      BindsEach depth s.frames.size (s.addFrame e []) bindings s' →
      Passes depth form e s (.letBody i j bindings) s.frames.size s'
  | callBody {i j k params args fn vs s₁ s₂} : params.Nodup → args.length = params.length →
      EndsWithin depth (function j k params form) e s (.ok fn s₁) →
      EvaluatesEach depth e s₁ args vs s₂ →
      Passes depth form e s (.callBody i j k params args) s₂.frames.size
        (s₂.addFrame e (Bindings.ofList (params.zip vs)))

variable {depth : Nat} {form : Value} {e e' : FrameId} {s s' s₁ : Store} {layer : TailLayer}

/-- What a `fn*` gives, if it gives anything. -/
theorem closure_of_function {j k : Option Serial} {params : List String} {fn : Value}
    (hparams : params.Nodup) (h : EndsWithin depth (function j k params form) e s (.ok fn s₁)) :
    fn = .closure s.nextSerial params form e := by
  cases depth with
  | zero => exact nomatch h.unique (endsWithin_zero _ e s)
  | succ depth =>
      have hclosure := h.unique (endsWithin_lambda hparams j k form)
      injection hclosure

/-- A layer that is passed leaves the form inside to do. -/
theorem Passes.handsOn (h : Passes depth form e s layer e' s') :
    HandsOn depth (layer.around form) e s form e' s' := by
  cases h with
  | @firstBranch i cond no v _ hcond htrue =>
      have hbranch := handsOn_branch hcond i form no
      rw [if_pos htrue] at hbranch
      exact hbranch
  | @secondBranch i cond yes v _ hcond hfalse =>
      have hbranch := handsOn_branch hcond i yes (some form)
      rw [hfalse] at hbranch
      exact hbranch
  | last hbefore => exact handsOn_sequence hbefore _ form
  | letBody hbinds => exact handsOn_letStar hbinds _ _ form
  | @callBody i j k params args fn vs s₁ s₂ hparams hlength hfn hargs =>
      obtain rfl := closure_of_function hparams hfn
      have hhead : ∀ kind : SpecialForm, function j k params form ≠ .sym kind.name := fun _ => nofun
      exact handsOn_call hhead hfn hargs (hargs.length_eq.trans hlength) i

end TailLayer

/-- Layers around a form, the outermost first, with the form in them. -/
def plug (context : List TailLayer) (form : Value) : Value :=
  context.foldr TailLayer.around form

/-- Within a limit, all layers around a form are passed, from the outermost in frame `e` of store
    `s` to the form in frame `e'` of store `s'`.  Each of them takes one level for itself, and
    leaves the others to what it evaluates on the way. -/
inductive Reaches (form : Value) (limit : Nat) :
    List TailLayer → FrameId → Store → FrameId → Store → Prop where
  | here {e s} : Reaches form limit [] e s e s
  | inside {layer context e s e₁ s₁ e' s'} :
      layer.Passes (limit - 1) (plug context form) e s e₁ s₁ →
      Reaches form limit context e₁ s₁ e' s' →
      Reaches form limit (layer :: context) e s e' s'

section Nesting

variable {form : Value} {limit : Nat} {context : List TailLayer} {e e' : FrameId} {s s' : Store}

theorem Reaches.endsWithin_iff (h : Reaches form limit context e s e' s') (hlimit : 0 < limit)
    (o : Outcome Value) :
    EndsWithin limit (plug context form) e s o ↔ EndsWithin limit form e' s' o := by
  obtain ⟨depth, rfl⟩ := Nat.exists_eq_add_one.mpr hlimit
  induction h with
  | here => exact Iff.rfl
  | inside hlayer _ ih => exact (hlayer.handsOn.endsWithin_iff o).trans ih

/-- **Nesting in tail position costs no depth.**  If all layers around a form are passed within a
    limit, then a form inside any number of them ends exactly as it does without them in the frame
    and the store that they lead to.  In particular it overflows the one way if it does the other
    way, and so it is within no limit at all, where nothing is reached. -/
theorem nesting_in_tail_position (h : Reaches form limit context e s e' s') :
    (0 < limit →
        ∀ o, EndsWithin limit (plug context form) e s o ↔ EndsWithin limit form e' s' o) ∧
      ((∃ st, EndsWithin limit (plug context form) e s (.error .stackOverflow st)) ↔
        ∃ st, EndsWithin limit form e' s' (.error .stackOverflow st)) := by
  refine ⟨h.endsWithin_iff, ?_⟩
  cases limit with
  | zero => exact iff_of_true ⟨s, endsWithin_zero _ e s⟩ ⟨s', endsWithin_zero form e' s'⟩
  | succ depth => exact exists_congr fun st => h.endsWithin_iff (Nat.succ_pos depth) _

/-- All kinds of layers around a sum that is nested too deep for two levels. -/
theorem nesting_in_tail_position_of_five_layers :
    let sum := Value.list none [.sym "+", .list none [.sym "+", .int 1, .sym "x"], .sym "y"]
    let context : List TailLayer :=
      [.letBody none none [("x", .int 1)], .firstBranch none (.int 0) none,
        .last none [.nil, .bool true], .callBody none none none ["y"] [.int 7],
        .secondBranch none .nil (.sym "z")]
    ∃ e s, Reaches sum 2 context Store.root .initial e s ∧
      (∀ o, EndsWithin 2 (plug context sum) Store.root .initial o ↔ EndsWithin 2 sum e s o) ∧
      ((∃ st, EndsWithin 2 (plug context sum) Store.root .initial (.error .stackOverflow st)) ↔
        ∃ st, EndsWithin 2 sum e s (.error .stackOverflow st)) := by
  intro sum context
  have hself : ∀ {form : Value} {e s}, form.IsSelfEvaluating →
      EndsWithin 1 form e s (.ok form s) := endsWithin_self
  have hreaches : ∃ e s, Reaches sum 2 context Store.root .initial e s :=
    ⟨_, _, .inside (.letBody (.cons (hself trivial) .nil)) <|
      .inside (.firstBranch (hself trivial) rfl) <|
      .inside (.last (.cons (hself trivial) (.cons (hself trivial) .nil))) <|
      .inside (.callBody (by decide) rfl
        (endsWithin_lambda (by decide) none none _) (.cons (hself trivial) .nil)) <|
      .inside (.secondBranch (hself trivial) rfl) .here⟩
  obtain ⟨e, s, h⟩ := hreaches
  exact ⟨e, s, h, (nesting_in_tail_position h).1 Nat.two_pos, (nesting_in_tail_position h).2⟩

end Nesting

end TailLisp
