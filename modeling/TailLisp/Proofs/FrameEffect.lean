import TailLisp.Proofs.Discipline

/-! # Effects on frames — definitions in the current frame and nothing else

    The only thing that an evaluation does to the frames that were there before is
    what its completed `def!`s do to the current one.  This holds however it ends,
    with a value, an error of the language or an overflow.

    * **`definitionsIn`** — the definitions that a run completed in a frame, in order.
    * **`Effect`** — every old frame is what it was with these definitions made, and
      frames other than the current one have none.
    * **`effects`** — the discipline: a run goes on in its own frame or in frames that
      are newer than all the old ones.

    A `let*` binds its names in its new frame without a `def!`.  So old and new are
    told apart by one number of frames for the whole run, and not anew at every
    step. -/

namespace TailLisp

/-! ## Definitions -/

/-- The definition that an event completes in a frame. -/
def Event.definition? (frame : FrameId) : Event → Option (String × Value)
  | .defined other name value => if other = frame then some (name, value) else none
  | _ => none

/-- The definitions that were completed in a frame, in order. -/
def definitionsIn (frame : FrameId) (events : List Event) : List (String × Value) :=
  events.filterMap (Event.definition? frame)

@[simp] theorem definitionsIn_nil (frame : FrameId) : definitionsIn frame [] = [] := rfl

@[simp] theorem definitionsIn_append (frame : FrameId) (es es' : List Event) :
    definitionsIn frame (es ++ es') = definitionsIn frame es ++ definitionsIn frame es' :=
  List.filterMap_append

@[simp] theorem definitionsIn_defined_self (frame : FrameId) (name : String) (value : Value) :
    definitionsIn frame [.defined frame name value] = [(name, value)] := by
  have hsome : Event.definition? frame (.defined frame name value) = some (name, value) :=
    if_pos rfl
  rw [definitionsIn, List.filterMap_cons_some hsome, List.filterMap_nil]

theorem definitionsIn_defined_of_ne {frame other : FrameId} (h : other ≠ frame) (name : String)
    (value : Value) : definitionsIn frame [.defined other name value] = [] := by
  have hnone : Event.definition? frame (.defined other name value) = none := if_neg h
  rw [definitionsIn, List.filterMap_cons_none hnone, List.filterMap_nil]

/-- Bindings after names were given values one after another. -/
def Bindings.setAll (bindings : Bindings) (definitions : List (String × Value)) : Bindings :=
  definitions.foldl (fun bindings (name, value) => bindings.set name value) bindings

/-- A frame after definitions in it. -/
def Frame.defining (definitions : List (String × Value)) (frame : Frame) : Frame :=
  { frame with bindings := Bindings.setAll frame.bindings definitions }

@[simp] theorem Frame.map_defining_nil (frame? : Option Frame) :
    frame?.map (Frame.defining []) = frame? := by
  cases frame? <;> rfl

theorem Frame.defining_append (first second : List (String × Value)) :
    Frame.defining (first ++ second) = Frame.defining second ∘ Frame.defining first := by
  funext frame
  simp only [defining, Bindings.setAll, List.foldl_append, Function.comp_apply]

/-! ## Builtins leave all frames alone -/

namespace Eval

variable {α β : Type}

/-- A computation after which every frame is as it was. -/
def KeepsFrames (x : Eval α) : Prop :=
  ∀ s, (x.after s).frames = s.frames

namespace KeepsFrames

theorem pure (a : α) : KeepsFrames (Pure.pure a : Eval α) := fun _ => rfl

theorem throw (fault : Fault) : KeepsFrames (MonadExcept.throw fault : Eval α) := fun _ => rfl

theorem lift (x : Except Fault α) : KeepsFrames (liftM x : Eval α) := by
  cases x with
  | ok a => exact fun _ => rfl
  | error fault => exact fun _ => rfl

theorem bind {x : Eval α} {f : α → Eval β} (hx : KeepsFrames x) (hf : ∀ a, KeepsFrames (f a)) :
    KeepsFrames (x >>= f) := by
  intro s
  have hkeep := hx s
  cases hrun : x.run s with
  | ok a s₁ =>
      have hbind : (x >>= f).after s = (f a).after s₁ := by
        rw [after, EStateM.run_bind, hrun]
        rfl
      rw [after_of_ok hrun] at hkeep
      rw [hbind, hf a s₁, hkeep]
  | error fault s₁ =>
      have hbind : (x >>= f).run s = .error fault s₁ := by
        rw [EStateM.run_bind, hrun]
      rw [after_of_error hrun] at hkeep
      rw [after_of_error hbind, hkeep]

end KeepsFrames

end Eval

namespace Builtin

open Eval

theorem keepsFrames_operands (room : Nat) (b : Builtin) (x y : Value) :
    KeepsFrames (operands room b x y) := by
  unfold operands
  split
  · exact .pure _
  · exact (KeepsFrames.lift _).bind fun _ => .throw _
  · exact (KeepsFrames.lift _).bind fun _ => .throw _

theorem keepsFrames_compute (room : Nat) (b : Builtin) (args : List Value) :
    KeepsFrames (compute room b args) := by
  have hoperands := keepsFrames_operands room
  unfold compute
  split
  case h_4 x y =>
    refine (hoperands .div x y).bind fun (m, n) => ?_
    by_cases hzero : n = 0
    · simp only [if_pos hzero]
      exact .throw _
    · simp only [if_neg hzero]
      exact .pure _
  case h_9 x y => exact (KeepsFrames.lift _).bind fun _ => .pure _
  case h_10 => exact fun _ => rfl
  case h_14 | h_17 => exact (KeepsFrames.lift _).bind fun _ => .throw _
  case h_18 x => exact (KeepsFrames.lift _).bind fun _ _ => rfl
  case h_19 | h_20 => exact .throw _
  case h_11 | h_12 | h_13 | h_15 | h_16 => exact .pure _
  all_goals exact (hoperands _ _ _).bind fun _ => .pure _

theorem keepsFrames_call (room : Nat) (b : Builtin) (args : List Value) :
    KeepsFrames (b.call room args) := by
  rw [call]
  split
  · exact keepsFrames_compute room b args
  · exact .throw _

end Builtin

/-! ## Effects -/

/-- What a run in frame `e` does to the first `n` frames: those that are current nowhere in
    it stay as they are, and `e` gets the definitions made in it. -/
structure Effect (n : Nat) (e : FrameId) (s : Store) (events : List Event) (s' : Store) :
    Prop where
  grows : s.frames.size ≤ s'.frames.size
  frame : n ≤ s.frames.size → ∀ f < n,
    s'.frames[f]? = (s.frames[f]?).map (Frame.defining (definitionsIn f events))
  elsewhere : n ≤ s.frames.size → ∀ f < n, f ≠ e → definitionsIn f events = []

namespace Effect

variable {n : Nat} {e e' : FrameId} {s s₁ s₂ : Store} {es es' : List Event}

/-- Nothing happens to any frame. -/
theorem of_frames_eq (hframes : s₁.frames = s.frames)
    (hnone : ∀ f, definitionsIn f es = []) : Effect n e s es s₁ := by
  refine ⟨hframes ▸ Nat.le_refl _, ?_, ?_⟩
  · intro _ f _
    rw [hframes, hnone f, Frame.map_defining_nil]
  · intro _ f _ _
    exact hnone f

/-- Two runs in turn, where the second is not in an old frame that the first is not in. -/
theorem follow (h : Effect n e s es s₁) (h' : Effect n e' s₁ es' s₂)
    (hsame : n ≤ s.frames.size → ∀ f < n, f ≠ e → f ≠ e') : Effect n e s (es ++ es') s₂ := by
  refine ⟨Nat.le_trans h.grows h'.grows, ?_, ?_⟩
  · intro hn f hf
    rw [h'.frame (Nat.le_trans hn h.grows) f hf, h.frame hn f hf, Option.map_map,
      definitionsIn_append, Frame.defining_append]
  · intro hn f hf hne
    rw [definitionsIn_append, h.elsewhere hn f hf hne,
      h'.elsewhere (Nat.le_trans hn h.grows) f hf (hsame hn f hf hne)]
    rfl

/-- A definition that was noted. -/
theorem defined (name : String) (v : Value) :
    Effect n e s [.defined e name v] (s.define e name v) := by
  refine ⟨Nat.le_of_eq (s.size_define e name v).symm, ?_, ?_⟩
  · intro _ f _
    rw [Store.define, Array.getElem?_modify]
    by_cases hf : e = f
    · subst hf
      rw [if_pos rfl, definitionsIn_defined_self]
      rfl
    · rw [if_neg hf, definitionsIn_defined_of_ne hf, Frame.map_defining_nil]
  · intro _ f _ hne
    exact definitionsIn_defined_of_ne hne.symm name v

/-- A binding in a frame that is new. -/
theorem bound (hnew : n ≤ e) (name : String) (v : Value) :
    Effect n e s [] (s.define e name v) := by
  refine ⟨Nat.le_of_eq (s.size_define e name v).symm, ?_, fun _ _ _ _ => rfl⟩
  intro _ f hf
  have hne : e ≠ f := Nat.ne_of_gt (Nat.lt_of_lt_of_le hf hnew)
  rw [Store.define, Array.getElem?_modify, if_neg hne, definitionsIn_nil,
    Frame.map_defining_nil]

/-- A frame more. -/
theorem added (outer : FrameId) (bindings : Bindings) :
    Effect n e s [] (s.addFrame outer bindings) := by
  refine ⟨?_, ?_, fun _ _ _ _ => rfl⟩
  · rw [Store.size_addFrame]
    exact Nat.le_succ _
  · intro hn f hf
    rw [s.frame_addFrame_of_lt (Nat.lt_of_lt_of_le hf hn), definitionsIn_nil,
      Frame.map_defining_nil]

end Effect

/-- The discipline of effects on the first `n` frames. -/
def effects (n : Nat) : Discipline where
  Takes s _ _ := n ≤ s.frames.size
  Prepares s e bindings _ := n ≤ s.frames.size ∧ n ≤ e
  Gives _ _ := True
  Changes := Effect n
  Fails _ := True
  grows h := h.grows
  refl := .of_frames_eq rfl fun _ => rfl
  trans h h' := h.follow h' fun _ _ _ hne => hne
  inside h hnew h' := h.follow h' fun hn _ hf _ =>
    Nat.ne_of_lt (Nat.lt_of_lt_of_le hf (Nat.le_trans hn hnew))
  takes_mono h htakes := Nat.le_trans htakes h.grows
  prepares_mono h hprepares := ⟨Nat.le_trans hprepares.1 h.grows, hprepares.2⟩
  gives_mono _ _ := trivial
  taken _ := .of_frames_eq rfl fun _ => rfl
  nil h := h
  self _ _ := trivial
  found _ _ := trivial
  unbound _ _ := trivial
  misused _ _ := trivial
  definiens h := h
  defined _ _ := .defined _ _
  opened h _ := by
    refine ⟨.added _ _, ?_, h⟩
    rw [Store.size_addFrame]
    exact Nat.le_succ_of_le h
  binding h := h.1
  bound h _ := by
    refine ⟨.bound h.2 _ _, ?_, h.2⟩
    rw [Store.size_define]
    exact h.1
  dangling _ := trivial
  misnamed _ _ _ := trivial
  prepared h := h.1
  branch h := ⟨h, h, h⟩
  sequence h _ _ := h
  lambda _ _ := ⟨.of_frames_eq rfl fun _ => rfl, trivial⟩
  application h _ := ⟨h, fun _ _ => h⟩
  called room _ _ _ := by
    refine ⟨?_, fun _ _ _ => trivial, fun _ _ _ => trivial⟩
    exact .of_frames_eq (Builtin.keepsFrames_call room _ _ _) fun _ => rfl
  entered h _ _ _ := by
    refine ⟨.added _ _, ?_⟩
    rw [Store.size_addFrame]
    exact Nat.le_succ_of_le h
  miscounted _ _ := trivial
  uncallable room _ _ := Discipline.uncallable_of_all _ room
  stackOverflow := trivial
  outOfFuel := trivial

/-- **What an evaluation does to the frames that were there before it**, however it ends: all
    but the current one stay as they are, and that one gets the completed definitions. -/
theorem evaluate_effect (fuel depth : Nat) (form : Value) {e : FrameId} {s : Store}
    (he : e < s.frames.size) :
    let run := Traced.evaluate fuel depth form e
    let s' := (Eval.evaluate fuel depth form e).after s
    run.eval = Eval.evaluate fuel depth form e ∧
      (∀ f < s.frames.size, f ≠ e → s'.frames[f]? = s.frames[f]?) ∧
      s'.outer? e = s.outer? e ∧
      s'.bindings e = Bindings.setAll (s.bindings e) (definitionsIn e (run.events s)) := by
  intro run s'
  have herase : run.eval = Eval.evaluate fuel depth form e :=
    congrFun (congrFun (Traced.eval_evaluate fuel depth) form) e
  -- All frames that are there now are old, for the whole run.
  have hfollows := Discipline.governs_evaluate (effects s.frames.size) fuel depth form e s
    (Nat.le_refl _)
  have heffect : Effect s.frames.size e s (run.events s) s' := by
    have hleaves := hfollows.leaves
    rw [herase] at hleaves
    exact hleaves
  have hframe := heffect.frame (Nat.le_refl _)
  refine ⟨herase, ?_, ?_, ?_⟩
  · intro f hf hne
    rw [hframe f hf, heffect.elsewhere (Nat.le_refl _) f hf hne, Frame.map_defining_nil]
  · rw [Store.outer?, Store.outer?, hframe e he]
    cases s.frames[e]? <;> rfl
  · rw [Store.bindings, Store.bindings, hframe e he, Array.getElem?_eq_getElem he]
    rfl

/-- A form that fails after a definition: `(do (def! x 1) (if))` in the root frame. -/
theorem evaluate_effect_of_failing_sequence :
    let form := SpecialForm.sequence.applied none
      [SpecialForm.define.applied none [.sym "x", .int 1], SpecialForm.branch.applied none []]
    let s := Store.ofBindings []
    Store.root < s.frames.size ∧
      ((Eval.evaluate 2 3 form Store.root).after s).bindings Store.root = [("x", .int 1)] := by
  intro form s
  have hroot : Store.root < s.frames.size := by decide
  obtain ⟨-, -, -, hbindings⟩ := evaluate_effect 2 3 form hroot
  have hdefinitions : definitionsIn Store.root
      ((Traced.evaluate 2 3 form Store.root).events s) = [("x", .int 1)] := rfl
  refine ⟨hroot, ?_⟩
  rw [hbindings, hdefinitions]
  rfl

end TailLisp
