import TailLisp.Eval.Run
import TailLisp.Limits

/-! # Exhaustion — runs cut short by a limit

    A run that overflows its depth or uses up its fuel was not allowed to go on,
    and says nothing about the program.  Computations are therefore compared by
    what they do where they are not cut short: `AgreesUnless cuts x y` says that `y`
    ends as `x` does, in the same store, unless `x` ends in a fault that `cuts` it short.

    Whatever takes a limit is monotone in it for this comparison: printing, comparing
    values, builtins, a step, a chain of steps.  An overflow must count as a cut, and a want
    of fuel must where the fuel differs.  The main statement is `evaluate_mono`; it says that
    a run which was not cut short stays the same under larger limits. -/

namespace TailLisp

/-- How a computation ends: with a result or a fault, and with the store it leaves. -/
abbrev Outcome (α : Type) := EStateM.Result Fault Store α

/-- The faults of a run that was cut short. -/
def Fault.IsExhaustion : Fault → Prop
  | .stackOverflow | .outOfFuel => True
  | _ => False

/-- The outcomes of a run that was cut short. -/
def IsExhausted {α : Type} : Outcome α → Prop
  | .ok _ _ => False
  | .error fault _ => fault.IsExhaustion

@[simp] theorem not_isExhausted_ok {α : Type} (a : α) (s : Store) :
    ¬ IsExhausted (.ok a s : Outcome α) := id

@[simp] theorem isExhausted_error {α : Type} (fault : Fault) (s : Store) :
    IsExhausted (.error fault s : Outcome α) ↔ fault.IsExhaustion := Iff.rfl

variable {α β : Type} {cuts : Fault → Prop}

/-! ## Computations without a store -/

namespace Fault

/-- `y` is `x`, unless `x` was cut short. -/
def AgreesUnless (cuts : Fault → Prop) (x y : Except Fault α) : Prop :=
  (∃ fault, x = .error fault ∧ cuts fault) ∨ x = y

namespace AgreesUnless

theorem refl (x : Except Fault α) : AgreesUnless cuts x x := .inr rfl

/-- What was cut short agrees with everything. -/
theorem of_cut {fault : Fault} (h : cuts fault) (y : Except Fault α) :
    AgreesUnless cuts (.error fault) y :=
  .inl ⟨fault, rfl, h⟩

/-- Going on after a computation. -/
theorem bind {x y : Except Fault α} {f g : α → Except Fault β} (hxy : AgreesUnless cuts x y)
    (hfg : ∀ a, AgreesUnless cuts (f a) (g a)) : AgreesUnless cuts (x >>= f) (y >>= g) := by
  rcases hxy with ⟨fault, rfl, hfault⟩ | rfl
  · exact .of_cut hfault _
  · cases x with
    | error fault => exact .refl _
    | ok a => exact hfg a

end AgreesUnless

end Fault

/-! ## Evaluations -/

namespace Eval

/-- From every store `y` ends as `x` does, unless `x` was cut short. -/
def AgreesUnless (cuts : Fault → Prop) (x y : Eval α) : Prop :=
  ∀ s, (∃ fault s', x.run s = .error fault s' ∧ cuts fault) ∨ x.run s = y.run s

namespace AgreesUnless

theorem refl (x : Eval α) : AgreesUnless cuts x x := fun _ => .inr rfl

/-- What was cut short agrees with everything. -/
theorem of_cut {fault : Fault} (h : cuts fault) (y : Eval α) :
    AgreesUnless cuts (throw fault) y :=
  fun s => .inl ⟨fault, s, rfl, h⟩

/-- A run whose fault, if it has one, is no cut is the same in what agrees with it. -/
theorem run_eq_of_not_cuts {x y : Eval α} (hxy : AgreesUnless cuts x y) {s : Store}
    {o : Outcome α} (ho : ∀ fault s', o = .error fault s' → ¬ cuts fault) (hx : x.run s = o) :
    y.run s = o := by
  subst hx
  rcases hxy s with ⟨fault, s', hrun, hfault⟩ | hrun
  · exact absurd hfault (ho fault s' hrun)
  · exact hrun.symm

/-- A run that was not cut short is the same in what agrees with it. -/
theorem run_eq {x y : Eval α} (hxy : AgreesUnless Fault.IsExhaustion x y) {s : Store}
    {o : Outcome α} (ho : ¬ IsExhausted o) (hx : x.run s = o) : y.run s = o := by
  refine hxy.run_eq_of_not_cuts ?_ hx
  rintro fault s' rfl
  exact ho

/-- Going on after a computation. -/
theorem bind {x y : Eval α} {f g : α → Eval β} (hxy : AgreesUnless cuts x y)
    (hfg : ∀ a, AgreesUnless cuts (f a) (g a)) : AgreesUnless cuts (x >>= f) (y >>= g) := by
  intro s
  rw [EStateM.run_bind, EStateM.run_bind]
  -- Either the first part is cut short, or both go on from the same store.
  rcases hxy s with ⟨fault, s', hrun, hfault⟩ | hrun
  · rw [hrun]
    exact .inl ⟨fault, s', rfl, hfault⟩
  · rw [← hrun]
    cases x.run s with
    | ok a s' => exact hfg a s'
    | error fault s' => exact .inr rfl

/-- Lifting a computation that does not touch the store. -/
theorem lift {x y : Except Fault α} (hxy : Fault.AgreesUnless cuts x y) :
    AgreesUnless cuts (liftM x : Eval α) (liftM y) := by
  rcases hxy with ⟨fault, rfl, hfault⟩ | rfl
  · exact .of_cut hfault _
  · exact .refl _

/-- Evaluating the items of a list in turn. -/
theorem mapM {γ : Type} {f g : γ → Eval α} (hfg : ∀ a, AgreesUnless cuts (f a) (g a))
    (xs : List γ) : AgreesUnless cuts (xs.mapM f) (xs.mapM g) := by
  induction xs with
  | nil => exact .refl _
  | cons x xs ih =>
      rw [List.mapM_cons, List.mapM_cons]
      exact (hfg x).bind fun a => ih.bind fun as => .refl _

end AgreesUnless

end Eval

/-! ## Printing and comparing values -/

namespace Value

open Fault

mutual

/-- More levels change nothing about a value that could be checked. -/
theorem checkText_mono (hover : cuts .stackOverflow) {room room' : Nat} (h : room ≤ room') :
    ∀ v : Value, AgreesUnless cuts (v.checkText room) (v.checkText room')
  | .list i items => by
    cases room with
    | zero => exact .of_cut hover _
    | succ n =>
        obtain ⟨n', rfl⟩ : ∃ n', room' = n' + 1 := ⟨room' - 1, by omega⟩
        exact checkTextItems_mono hover (Nat.le_of_succ_le_succ h) items
  | .nil | .bool _ | .int _ | .str _ | .sym _ | .builtin _ | .closure .. | .foreign _ =>
    .refl _

theorem checkTextItems_mono (hover : cuts .stackOverflow) {room room' : Nat}
    (h : room ≤ room') :
    ∀ items : List Value,
      AgreesUnless cuts (checkTextItems room items) (checkTextItems room' items)
  | [] => .refl _
  | item :: rest => (checkText_mono hover h item).bind fun _ => checkTextItems_mono hover h rest

end

theorem print_mono (hover : cuts .stackOverflow) {room room' : Nat} (h : room ≤ room')
    (v : Value) :
    AgreesUnless cuts (v.print room) (v.print room') :=
  (checkText_mono hover h v).bind fun _ => .refl _

mutual

/-- More levels change nothing about values that could be compared. -/
theorem equal_mono (hover : cuts .stackOverflow) {room room' : Nat} (h : room ≤ room') :
    ∀ x y : Value, AgreesUnless cuts (x.equal room y) (x.equal room' y)
  | .list i xs, y => by
    cases y with
    | list j ys =>
        unfold equal
        split
        · exact .refl _
        split
        · exact .refl _
        cases room with
        | zero => exact .of_cut hover _
        | succ n =>
            obtain ⟨n', rfl⟩ : ∃ n', room' = n' + 1 := ⟨room' - 1, by omega⟩
            exact equalItems_mono hover (Nat.le_of_succ_le_succ h) xs ys
    | _ => exact .refl _
  | .nil, y | .bool _, y | .int _, y | .str _, y | .sym _, y | .builtin _, y
  | .closure .., y | .foreign _, y => by cases y <;> exact .refl _

theorem equalItems_mono (hover : cuts .stackOverflow) {room room' : Nat} (h : room ≤ room') :
    ∀ xs ys : List Value, AgreesUnless cuts (equalItems room xs ys) (equalItems room' xs ys)
  | x :: xs, y :: ys => by
    refine (equal_mono hover h x y).bind fun same => ?_
    cases same with
    | true => exact equalItems_mono hover h xs ys
    | false => exact .refl _
  | [], _ => .refl _
  | _ :: _, [] => .refl _

end

end Value

/-! ## Builtins -/

namespace Builtin

open Eval

variable (hover : cuts .stackOverflow) {room room' : Nat}
include hover

/-- A failure whose message shows a value. -/
theorem failShowing_mono (h : room ≤ room') (v : Value) (cause : String → LispError) :
    AgreesUnless cuts (liftM (v.print room) >>= fun shown => fail (cause shown) : Eval α)
      (liftM (v.print room') >>= fun shown => fail (cause shown)) :=
  (AgreesUnless.lift (v.print_mono hover h)).bind fun _ => .refl _

theorem operands_mono (h : room ≤ room') (b : Builtin) (x y : Value) :
    AgreesUnless cuts (operands room b x y) (operands room' b x y) := by
  cases x with
  | int m =>
      cases y with
      | int n => exact .refl _
      | _ => exact failShowing_mono hover h _ _
  | _ => exact failShowing_mono hover h _ _

theorem arithmetic_mono (h : room ≤ room') (b : Builtin) (op : Int → Int → Int) (x y : Value) :
    AgreesUnless cuts (arithmetic room b op x y) (arithmetic room' b op x y) :=
  (operands_mono hover h b x y).bind fun _ => .refl _

theorem comparison_mono (h : room ≤ room') (b : Builtin) (holds : Int → Int → Bool)
    (x y : Value) :
    AgreesUnless cuts (comparison room b holds x y) (comparison room' b holds x y) :=
  (operands_mono hover h b x y).bind fun _ => .refl _

theorem division_mono (h : room ≤ room') (x y : Value) :
    AgreesUnless cuts (division room x y) (division room' x y) :=
  (operands_mono hover h .div x y).bind fun _ => .refl _

theorem compute_mono (h : room ≤ room') (b : Builtin) (args : List Value) :
    AgreesUnless cuts (compute room b args) (compute room' b args) := by
  unfold compute
  split
  case h_1 x y | h_2 x y | h_3 x y => exact arithmetic_mono hover h _ _ x y
  case h_4 x y => exact division_mono hover h x y
  case h_5 x y | h_6 x y | h_7 x y | h_8 x y => exact comparison_mono hover h _ _ x y
  case h_9 x y => exact (AgreesUnless.lift (x.equal_mono hover h y)).bind fun _ => .refl _
  case h_14 x _ | h_17 x _ _ => exact failShowing_mono hover h x _
  case h_18 x => exact (AgreesUnless.lift (x.checkText_mono hover h)).bind fun _ => .refl _
  all_goals exact .refl _

/-- More levels change nothing about a call that was not cut short. -/
theorem call_mono (h : room ≤ room') (b : Builtin) (args : List Value) :
    AgreesUnless cuts (b.call room args) (b.call room' args) := by
  unfold call
  split
  · exact compute_mono hover h b args
  · exact .refl _

end Builtin

/-! ## Steps and runs -/

namespace Eval

variable {nested nested' : Evaluator} {room room' : Nat}

section Nested

variable (hn : ∀ form frame, AgreesUnless cuts (nested form frame) (nested' form frame))
include hn

theorem bindEach_mono (frame : FrameId) (i : Nat) (bindings : List Value) :
    AgreesUnless cuts (bindEach nested frame i bindings) (bindEach nested' frame i bindings) := by
  fun_induction bindEach nested frame i bindings with
  | case1 i name form rest ih =>
      exact (hn form frame).bind fun value => (AgreesUnless.refl _).bind fun _ => ih
  | case2 | case4 => exact .refl _
  | case3 i head rest hpair hsingle =>
      rw [bindEach]
      · exact .refl _
      · exact hpair
      · exact hsingle

theorem sequence_mono (frame : FrameId) (forms : List Value) :
    AgreesUnless cuts (sequence nested frame forms) (sequence nested' frame forms) := by
  fun_induction sequence nested frame forms with
  | case1 | case2 => exact .refl _
  | case3 form next rest ih => exact (hn form frame).bind fun _ => ih

theorem special_mono (kind : SpecialForm) (args : List Value) (frame : FrameId) :
    AgreesUnless cuts (special nested kind args frame) (special nested' kind args frame) := by
  unfold special
  split
  case h_1 name expr => exact (hn expr frame).bind fun _ => .refl _
  case h_3 i bindings body =>
    split
    · exact .refl _
    · refine (AgreesUnless.refl _).bind fun child => ?_
      exact (bindEach_mono hn child 0 bindings).bind fun _ => .refl _
  case h_5 cond yes | h_6 cond yes no => exact (hn cond frame).bind fun _ => .refl _
  case h_7 => exact sequence_mono hn frame args
  all_goals exact .refl _

/-- A step is monotone in what it evaluates on the way and in how it applies functions. -/
theorem step_mono_of_apply
    (happly : ∀ fn args, AgreesUnless cuts (apply room fn args) (apply room' fn args))
    (form : Value) (frame : FrameId) :
    AgreesUnless cuts (step nested room form frame) (step nested' room' form frame) := by
  unfold step
  split
  · exact .refl _
  · split
    · exact special_mono hn _ _ frame
    · refine (hn _ frame).bind fun fn => ?_
      refine (AgreesUnless.mapM (fun arg => hn arg frame) _).bind fun values => ?_
      exact happly fn values
  · exact .refl _

end Nested

/-- A longer chain of greater steps is greater; if it can be longer, a want of fuel must count
    as a cut. -/
theorem follow_mono {step step' : Value → FrameId → Eval Step}
    (hs : ∀ form frame, AgreesUnless cuts (step form frame) (step' form frame))
    {fuel fuel' : Nat} (h : fuel ≤ fuel') (hfuel : fuel < fuel' → cuts .outOfFuel) (form : Value)
    (frame : FrameId) :
    AgreesUnless cuts (follow step fuel form frame) (follow step' fuel' form frame) := by
  induction fuel generalizing fuel' form frame with
  | zero =>
      rcases Nat.eq_or_lt_of_le h with rfl | hlt
      · exact .refl _
      · exact .of_cut (hfuel hlt) _
  | succ n ih =>
      obtain ⟨n', rfl⟩ : ∃ n', fuel' = n' + 1 := ⟨fuel' - 1, by omega⟩
      refine (hs form frame).bind fun next => ?_
      cases next with
      | value v => exact .refl _
      | tail form frame =>
          exact ih (Nat.le_of_succ_le_succ h) (fun hlt => hfuel (Nat.succ_lt_succ hlt)) form frame

/-- In the same depth, a run that did not want fuel is the same with more. -/
theorem evaluate_mono_fuel {fuel fuel' : Nat} (h : fuel ≤ fuel')
    (hfuel : fuel < fuel' → cuts .outOfFuel) (depth : Nat) (form : Value) (frame : FrameId) :
    AgreesUnless cuts (evaluate fuel depth form frame) (evaluate fuel' depth form frame) := by
  induction depth generalizing form frame with
  | zero => exact .refl _
  | succ n ih => exact follow_mono (step_mono_of_apply ih fun _ _ => .refl _) h hfuel form frame

variable (hover : cuts .stackOverflow)
include hover

theorem apply_mono (h : room ≤ room') (head : Value) (args : List Value) :
    AgreesUnless cuts (apply room head args) (apply room' head args) := by
  cases head with
  | builtin b => exact (b.call_mono hover h args).bind fun _ => .refl _
  | closure serial params body home => exact .refl _
  | _ => exact Builtin.failShowing_mono hover h _ _

/-- A step is monotone in what it evaluates on the way and in its room. -/
theorem step_mono (hn : ∀ form frame, AgreesUnless cuts (nested form frame) (nested' form frame))
    (h : room ≤ room') (form : Value) (frame : FrameId) :
    AgreesUnless cuts (step nested room form frame) (step nested' room' form frame) :=
  step_mono_of_apply hn (apply_mono hover h) form frame

/-- A run that was not cut short is the same under larger limits. -/
theorem evaluate_mono {fuel fuel' depth depth' : Nat} (hf : fuel ≤ fuel')
    (hfuel : fuel < fuel' → cuts .outOfFuel) (hd : depth ≤ depth') (form : Value)
    (frame : FrameId) :
    AgreesUnless cuts (evaluate fuel depth form frame) (evaluate fuel' depth' form frame) := by
  induction depth generalizing depth' form frame with
  | zero => exact .of_cut hover _
  | succ n ih =>
      obtain ⟨n', rfl⟩ : ∃ n', depth' = n' + 1 := ⟨depth' - 1, by omega⟩
      have hn : n ≤ n' := Nat.le_of_succ_le_succ hd
      exact follow_mono (step_mono hover (ih hn) hn) hf hfuel form frame

end Eval

/-! ## Computations without limits -/

/-- `x` ends with `o` if nothing cuts it short: under all large enough limits it does. -/
def Settles (x : Limits → Eval α) (s : Store) (o : Outcome α) : Prop :=
  ¬ IsExhausted o ∧
    ∃ least, ∀ limits : Limits, least ≤ limits.depth → least ≤ limits.fuel →
      (x limits).run s = o

/-- A computation settles in one way at most. -/
theorem Settles.unique {x : Limits → Eval α} {s : Store} {o o' : Outcome α} (h : Settles x s o)
    (h' : Settles x s o') : o = o' := by
  obtain ⟨-, m, hm⟩ := h
  obtain ⟨-, n, hn⟩ := h'
  have hleft := hm ⟨max m n, max m n⟩ (Nat.le_max_left m n) (Nat.le_max_left m n)
  have hright := hn ⟨max m n, max m n⟩ (Nat.le_max_right m n) (Nat.le_max_right m n)
  exact hleft.symm.trans hright

/-- Of two computations whose runs are related under the same limits, if these are not too small,
    one settles if the other does, and both on what is related.  The second one has to be settled
    by any run that is not cut short. -/
theorem Settles.beside {x : Limits → Eval α} {y : Limits → Eval β} {s : Store}
    {R : Outcome α → Outcome β → Prop} (hends : ∀ o o', R o o' → IsExhausted o' → IsExhausted o)
    (hy : ∀ limits, ¬ IsExhausted ((y limits).run s) → Settles y s ((y limits).run s)) (n : Nat)
    (h : ∀ limits : Limits, n ≤ limits.depth → n ≤ limits.fuel →
      R ((x limits).run s) ((y limits).run s)) {o : Outcome α} (ho : Settles x s o) :
    ∃ o', Settles y s o' ∧ R o o' := by
  obtain ⟨hended, least, hrun⟩ := ho
  have hboth := h ⟨max n least, max n least⟩ (Nat.le_max_left _ _) (Nat.le_max_left _ _)
  rw [hrun _ (Nat.le_max_right _ _) (Nat.le_max_right _ _)] at hboth
  exact ⟨_, hy _ (mt (hends _ _ hboth) hended), hboth⟩

/-- A call of a builtin is settled by one run that was not cut short. -/
theorem Builtin.call_settles (room : Nat) {b : Builtin} {args : List Value} {s : Store}
    {o : Outcome Value} (ho : ¬ IsExhausted o) (h : (b.call room args).run s = o) :
    Settles (fun limits => b.call limits.depth args) s o := by
  refine ⟨ho, room, fun limits hd _ => ?_⟩
  exact (b.call_mono trivial hd args).run_eq ho h

/-- A failure whose message shows a value is settled by one run that was not cut short. -/
theorem Builtin.failShowing_settles (room : Nat) {v : Value} {cause : String → LispError}
    {s : Store} {o : Outcome α} (ho : ¬ IsExhausted o)
    (h : (liftM (v.print room) >>= fun shown => Eval.fail (cause shown) : Eval α).run s = o) :
    Settles (fun limits => liftM (v.print limits.depth) >>= fun shown => Eval.fail (cause shown))
      s o := by
  refine ⟨ho, room, fun limits hd _ => ?_⟩
  exact (Builtin.failShowing_mono trivial hd v cause).run_eq ho h

/-- An evaluation is settled by one run that was not cut short. -/
theorem Eval.evaluate_settles {fuel depth : Nat} {form : Value} {frame : FrameId} {s : Store}
    {o : Outcome Value} (ho : ¬ IsExhausted o) (h : (evaluate fuel depth form frame).run s = o) :
    Settles (fun limits => evaluate limits.fuel limits.depth form frame) s o := by
  refine ⟨ho, max fuel depth, fun limits hd hf => ?_⟩
  have hover : Fault.IsExhaustion .stackOverflow := trivial
  have hagrees := evaluate_mono hover (Nat.le_trans (Nat.le_max_left _ _) hf)
    (fun _ => trivial) (Nat.le_trans (Nat.le_max_right _ _) hd) form frame
  exact hagrees.run_eq ho h

end TailLisp
