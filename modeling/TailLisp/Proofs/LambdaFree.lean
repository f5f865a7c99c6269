import TailLisp.Proofs.Alikeness
import TailLisp.Proofs.FrameEffect
import TailLisp.Proofs.Independence

/-! # Lambda-free programs — evaluations that always end

    Only a closure can make a program go on for ever, and only `fn*` makes closures.  Where there
    are none, every form that is taken up is a part of the one that is evaluated, and each part
    is taken up once at most.  Lists that were built are data and are never taken up.

    * **`Value.size`** — the number of parts of a form, and **`entries`** — the number of forms
      that a run took up.
    * **`Value.IsTame`** — no closure, and not too many levels: what a run builds has no more
      levels than there were before and steps were taken.
    * **`Spends`** — what a run with a number of steps to spend comes to, with the rule for
      sequencing; one lemma for each function of the evaluator.
    * **`programs_without_lambda_end`** — an evaluation ends, and so does each request of a session
      whose texts have no `fn*`. -/

namespace TailLisp

/-! ## Sizes and steps -/

namespace Value

mutual

/-- The number of atoms and lists in a value. -/
def size : Value → Nat
  | .list _ items => sizeItems items + 1
  | _ => 1

/-- The number of atoms and lists in some values. -/
def sizeItems : List Value → Nat
  | [] => 0
  | item :: rest => size item + sizeItems rest

end

theorem size_pos (v : Value) : 0 < v.size := by
  cases v with
  | list serial items =>
      rw [size]
      exact Nat.succ_pos _
  | _ => exact Nat.one_pos

end Value

/-- Whether an event is that a form is taken up. -/
def Event.isEntry : Event → Bool
  | .entered .. => true
  | _ => false

/-- The number of forms that were taken up. -/
def entries (events : List Event) : Nat :=
  events.countP Event.isEntry

theorem entries_append (es es' : List Event) : entries (es ++ es') = entries es + entries es' :=
  List.countP_append

/-! ## Values without closures -/

namespace Value

/-- A value that is no closure. -/
def IsNoClosure : Value → Prop
  | .closure .. => False
  | _ => True

/-- No closure is in a value. -/
abbrev IsClosureFree (v : Value) : Prop :=
  v.Throughout IsNoClosure

/-- A form in which there is neither a closure nor a `fn*`. -/
structure IsLambdaFree (form : Value) : Prop where
  closureFree : form.IsClosureFree
  no_lambda : ¬ form.Occurs SpecialForm.lambda.name

/-- No closure, and of no more than `h` levels. -/
def IsTame (h : Nat) (v : Value) : Prop :=
  v.IsNoClosure ∧ v.height ≤ h

theorem IsTame.mono {h h' : Nat} (hle : h ≤ h') {v : Value} (hv : v.IsTame h) : v.IsTame h' :=
  ⟨hv.1, Nat.le_trans hv.2 hle⟩

theorem throughout_isTame_mono {h h' : Nat} (hle : h ≤ h') {v : Value}
    (hv : v.Throughout (IsTame h)) : v.Throughout (IsTame h') :=
  hv.mono fun _ => .mono hle

theorem IsTame.throughout_list {h : Nat} (serial : Option Serial) {items : List Value}
    (hitems : ∀ v ∈ items, v.Throughout (IsTame h)) :
    (Value.list serial items).Throughout (IsTame (h + 1)) := by
  refine .list ⟨trivial, ?_⟩ fun v hv => (hitems v hv).mono fun _ => .mono (Nat.le_succ h)
  rw [height]
  refine Nat.succ_le_succ ?_
  induction items with
  | nil => exact Nat.zero_le h
  | cons item rest ih =>
      obtain ⟨hitem, hrest⟩ := List.forall_mem_cons.mp hitems
      exact Nat.max_le.mpr ⟨hitem.self.2, ih hrest⟩

/-- Without closures, the parts of a value have no more levels than the value. -/
theorem IsPart.height_le {v w : Value} (h : IsPart w v) (hv : v.IsClosureFree) :
    w.height ≤ v.height := by
  induction h with
  | refl => exact Nat.le_refl _
  | item hmem _ ih =>
      rw [height]
      exact Nat.le_succ_of_le
        (Nat.le_trans (ih (hv.items _ hmem)) (height_le_heightItems hmem))
  | body => exact hv.self.elim

theorem IsClosureFree.isTame {v : Value} (hv : v.IsClosureFree) {h : Nat} (hle : v.height ≤ h) :
    v.Throughout (IsTame h) :=
  fun w hw => ⟨hv w hw, Nat.le_trans (hw.height_le hv) hle⟩

namespace IsLambdaFree

variable {i : Option Serial}

theorem nil : IsLambdaFree .nil := ⟨.atom trivial trivial, by rintro ⟨⟩⟩

theorem items {forms : List Value} (h : IsLambdaFree (.list i forms)) :
    ∀ form ∈ forms, form.IsLambdaFree :=
  fun form hmem => ⟨h.closureFree.items form hmem, fun hoccurs => h.no_lambda (.item hmem hoccurs)⟩

theorem args {head : Value} {args : List Value} (h : IsLambdaFree (.list i (head :: args))) :
    ∀ form ∈ args, form.IsLambdaFree :=
  (List.forall_mem_cons.mp h.items).2

end IsLambdaFree

/-- A value that is too high for its text has more levels than there are. -/
theorem lt_height_of_checkText {v : Value} {room : Nat}
    (h : v.checkText room = .error .stackOverflow) : room < v.height := by
  induction v using Value.induct generalizing room with
  | int n =>
      rw [checkText] at h
      by_cases hn : Decimal.isWritable n = true
      · rw [if_pos hn] at h
        cases h
      · rw [if_neg hn] at h
        cases h
  | list serial items ih =>
      cases room with
      | zero => exact Nat.succ_pos _
      | succ room =>
          obtain ⟨item, hmem, hitem⟩ := exists_of_checkTextItems h
          exact Nat.succ_lt_succ
            (Nat.lt_of_lt_of_le (ih item hmem hitem) (height_le_heightItems hmem))
  | nil | bool | str | sym | builtin | closure | foreign => cases h

end Value

open Value (IsTame)

namespace Store

/-- Nothing that is bound holds a closure. -/
abbrev IsClosureFree (s : Store) : Prop :=
  s.Holds Value.IsNoClosure

/-- A store has finitely many values, so one number bounds their levels. -/
theorem IsClosureFree.exists_holds_isTame {s : Store} (hs : s.IsClosureFree) :
    ∃ h, s.Holds (IsTame h) := by
  let values := s.frames.toList.flatMap fun frame => frame.bindings.map Prod.snd
  refine ⟨Value.heightItems values, fun f entry hentry => ?_⟩
  refine Value.IsClosureFree.isTame (hs f entry hentry) (Value.height_le_heightItems ?_)
  rw [bindings] at hentry
  cases hframe : s.frames[f]? with
  | none =>
      rw [hframe] at hentry
      cases hentry
  | some frame =>
      rw [hframe] at hentry
      have hmem : frame ∈ s.frames.toList := Array.mem_toList_iff.mpr (Array.mem_of_getElem? hframe)
      exact List.mem_flatMap.mpr ⟨frame, hmem, List.mem_map_of_mem hentry⟩

theorem Holds.isTame_mono {s : Store} {h h' : Nat} (hs : s.Holds (IsTame h)) (hle : h ≤ h') :
    s.Holds (IsTame h') :=
  hs.of_frames_eq rfl fun _ => .mono hle

theorem Holds.isClosureFree {s : Store} {h : Nat} (hs : s.Holds (IsTame h)) : s.IsClosureFree :=
  hs.of_frames_eq rfl fun _ hw => hw.1

theorem isClosureFree_initial : Store.initial.IsClosureFree := by
  intro f entry hentry
  obtain ⟨b, -, rfl⟩ := mem_bindings_initial hentry
  exact .atom trivial trivial

end Store

/-! ## Spending steps -/

/-- A fault that comes of limits only if these are too small for `n` steps among values of `h`
    levels. -/
def Fault.Within (limits : Limits) (h n : Nat) : Fault → Prop
  | .stackOverflow => limits.depth < h + n
  | .outOfFuel => limits.fuel < n
  | _ => True

theorem Fault.Within.mono {limits limits' : Limits} {h h' n n' : Nat} {fault : Fault}
    (hfault : fault.Within limits h n) (hdepth : limits.depth < h + n → limits'.depth < h' + n')
    (hfuel : limits.fuel < n → limits'.fuel < n') : fault.Within limits' h' n' := by
  cases fault with
  | stackOverflow => exact hdepth hfault
  | outOfFuel => exact hfuel hfault
  | _ => trivial

/-- Calls with tame values make tame values, and fail for want of levels only with too few. -/
theorem Builtin.suitsWithin_isTame (limits : Limits) (h n : Nat) :
    SuitsWithin limits.depth (Value.Throughout (IsTame h)) (Value.Throughout (IsTame (h + 1)))
      (Fault.Within limits h n) where
  nil := .atom trivial ⟨trivial, Nat.zero_le _⟩
  bool _ := .atom trivial ⟨trivial, Nat.zero_le _⟩
  int _ := .atom trivial ⟨trivial, Nat.zero_le _⟩
  list serial _ hitems := IsTame.throughout_list serial hitems
  unprinted {v fault} hv hcheck := by
    cases Value.unprintable_of_checkText hcheck with
    | depth =>
        have hlt := Value.lt_height_of_checkText hcheck
        have hheight := hv.self.2
        exact Nat.lt_add_right n (Nat.lt_of_lt_of_le hlt hheight)
    | digits | foreign => trivial
  incomparable {x y fault} hx _ hequal := by
    obtain rfl := Value.eq_stackOverflow_of_equal hequal
    by_contra hdepth
    have hheight : x.height ≤ limits.depth :=
      Nat.le_trans hx.self.2 (Nat.le_trans (Nat.le_add_right h n) (Nat.not_lt.mp hdepth))
    rw [Value.equal_eq_alike (.inl hheight)] at hequal
    cases hequal
  refused _ := trivial

namespace Traced

variable {α β : Type} {limits : Limits} {h n : Nat} {s : Store} {e : FrameId}

/-- From a store on, a run with `n` steps to spend takes up no more forms than these.  A result
    has a property that may depend on the steps spent on it. -/
structure Spends (limits : Limits) (h n : Nat) (x : Traced α) (s : Store) (Q : Nat → α → Prop) :
    Prop where
  result : ∀ a s', x.eval.run s = .ok a s' →
    ∃ k ≤ n, entries (x.events s) ≤ k ∧ s'.Holds (IsTame (h + k)) ∧ Q k a
  fault : ∀ fault s', x.eval.run s = .error fault s' →
    entries (x.events s) ≤ n ∧ s'.Holds (IsTame (h + n)) ∧ fault.Within limits h n

namespace Spends

variable {Q : Nat → α → Prop} {R : Nat → β → Prop}

theorem of_run_ok {x : Traced α} {a : α} {s' : Store} (hrun : x.eval.run s = .ok a s')
    (hevents : entries (x.events s) = 0) (hs' : s'.Holds (IsTame h)) (hQ : Q 0 a) :
    Spends limits h n x s Q := by
  refine ⟨fun b s₁ hb => ?_, fun fault s₁ hf => ?_⟩
  · rw [hrun] at hb
    obtain ⟨rfl, rfl⟩ := EStateM.Result.ok.inj hb
    exact ⟨0, Nat.zero_le n, Nat.le_of_eq hevents, hs', hQ⟩
  · rw [hrun] at hf
    cases hf

theorem of_run_error {x : Traced α} {fault : Fault} {s' : Store}
    (hrun : x.eval.run s = .error fault s') (hevents : entries (x.events s) = 0)
    (hs' : s'.Holds (IsTame h)) (hfault : fault.Within limits h n) :
    Spends limits h n x s Q := by
  refine ⟨fun b s₁ hb => ?_, fun other s₁ hf => ?_⟩
  · rw [hrun] at hb
    cases hb
  · rw [hrun] at hf
    obtain ⟨rfl, rfl⟩ := EStateM.Result.error.inj hf
    exact ⟨hevents ▸ Nat.zero_le n, hs'.isTame_mono (Nat.le_add_right h n), hfault⟩

theorem pure {a : α} (hs : s.Holds (IsTame h)) (hQ : Q 0 a) :
    Spends limits h n (Pure.pure a) s Q :=
  of_run_ok rfl rfl hs hQ

theorem throw {fault : Fault} (hs : s.Holds (IsTame h)) (hfault : fault.Within limits h n) :
    Spends limits h n (quiet (MonadExcept.throw fault) : Traced α) s Q :=
  of_run_error rfl rfl hs hfault

/-- Nothing changes with more steps to spend, where the limits are as large beside them. -/
theorem mono {limits' : Limits} {n' : Nat} {Q' : Nat → α → Prop} {x : Traced α}
    (hx : Spends limits h n x s Q) (hn : n ≤ n')
    (hdepth : limits.depth < h + n → limits'.depth < h + n')
    (hfuel : limits.fuel < n → limits'.fuel < n') (hQ : ∀ k ≤ n, ∀ a, Q k a → Q' k a) :
    Spends limits' h n' x s Q' := by
  refine ⟨fun a s' hrun => ?_, fun fault s' hrun => ?_⟩
  · obtain ⟨k, hk, hevents, hs', ha⟩ := hx.result a s' hrun
    exact ⟨k, Nat.le_trans hk hn, hevents, hs', hQ k hk a ha⟩
  · obtain ⟨hevents, hs', hfault⟩ := hx.fault fault s' hrun
    exact ⟨Nat.le_trans hevents hn, hs'.isTame_mono (Nat.add_le_add_left hn h),
      hfault.mono hdepth hfuel⟩

/-- Sequencing: the rest has those steps to spend that are left. -/
theorem bind {m : Nat} {x : Traced α} {f : α → Traced β} (hx : Spends limits h m x s Q)
    (hm : m ≤ n) (hf : ∀ k ≤ m, ∀ a s', s'.Holds (IsTame (h + k)) → Q k a →
      Spends limits (h + k) (n - k) (f a) s' fun k' => R (k + k')) :
    Spends limits h n (x >>= f) s R := by
  cases hrun : x.eval.run s with
  | ok a s₁ =>
      obtain ⟨k, hk, hevents, hs₁, ha⟩ := hx.result a s₁ hrun
      have hrest := hf k hk a s₁ hs₁ ha
      have hbind : (x >>= f).eval.run s = (f a).eval.run s₁ := by
        rw [eval_bind, EStateM.run_bind, hrun]
      -- As many levels as there may be more are there fewer steps left, so that their sum, by
      -- which a depth is judged, is what it was.
      refine ⟨fun b s₂ hb => ?_, fun fault s₂ hb => ?_⟩
      · obtain ⟨k', hk', hevents', hs₂, hb'⟩ := hrest.result b s₂ (hbind ▸ hb)
        refine ⟨k + k', by omega, ?_, ?_, hb'⟩
        · rw [events_bind_ok hrun, entries_append]
          exact Nat.add_le_add hevents hevents'
        · rwa [← Nat.add_assoc]
      · obtain ⟨hevents', hs₂, hfault⟩ := hrest.fault fault s₂ (hbind ▸ hb)
        refine ⟨?_, hs₂.isTame_mono (by omega), hfault.mono (by omega) (by omega)⟩
        rw [events_bind_ok hrun, entries_append]
        omega
  | error fault s₁ =>
      obtain ⟨hevents, hs₁, hfault⟩ := hx.fault fault s₁ hrun
      have hbind : (x >>= f).eval.run s = .error fault s₁ := by
        rw [eval_bind, EStateM.run_bind, hrun]
      refine ⟨fun b s₂ hb => ?_, fun other s₂ hb => ?_⟩
      · rw [hbind] at hb
        cases hb
      · rw [hbind] at hb
        obtain ⟨rfl, rfl⟩ := EStateM.Result.error.inj hb
        refine ⟨?_, hs₁.isTame_mono (by omega), hfault.mono (by omega) (by omega)⟩
        rw [events_bind_error hrun]
        omega

/-- More steps to spend. -/
theorem more {n' : Nat} {x : Traced α} (hx : Spends limits h n x s Q) (hn : n ≤ n') :
    Spends limits h n' x s Q :=
  hx.mono hn (by omega) (by omega) fun _ _ _ => id

/-- What comes first takes up no form. -/
theorem after {x : Traced α} {f : α → Traced β} {a : α} {s₁ : Store}
    (hrun : x.eval.run s = .ok a s₁) (hevents : entries (x.events s) = 0)
    (hf : Spends limits h n (f a) s₁ R) : Spends limits h n (x >>= f) s R := by
  have hbind : (x >>= f).eval.run s = (f a).eval.run s₁ := by
    rw [eval_bind, EStateM.run_bind, hrun]
  have hsame : entries ((x >>= f).events s) = entries ((f a).events s₁) := by
    rw [events_bind_ok hrun, entries_append, hevents, Nat.zero_add]
  refine ⟨fun b s₂ hb => ?_, fun fault s₂ hb => ?_⟩
  · rw [hsame]
    exact hf.result b s₂ (hbind ▸ hb)
  · rw [hsame]
    exact hf.fault fault s₂ (hbind ▸ hb)

/-- Taking up a form is a step, and what is done for it is one level deeper. -/
theorem entered {x : Traced α} (hx : Spends limits h (n - 1) x s fun k => Q (k + 1)) (hn : 0 < n)
    (form : Value) (e : FrameId) :
    Spends ⟨limits.depth + 1, limits.fuel⟩ h n (note (.entered form e) >>= fun _ => x) s Q := by
  have hentries : entries ((note (.entered form e) >>= fun _ => x).events s) =
      1 + entries (x.events s) := by
    rw [events_bind_ok (rfl : (note (.entered form e)).eval.run s = .ok () s), entries_append]
    rfl
  refine ⟨fun a s' hrun => ?_, fun fault s' hrun => ?_⟩
  · obtain ⟨k, hk, hevents, hs', ha⟩ := hx.result a s' hrun
    exact ⟨k + 1, by omega, by omega, hs'.isTame_mono (Nat.le_succ _), ha⟩
  · obtain ⟨hevents, hs', hfault⟩ := hx.fault fault s' hrun
    have hdepth : limits.depth < h + (n - 1) → limits.depth + 1 < h + n := by omega
    have hfuel : limits.fuel < n - 1 → limits.fuel < n := by omega
    exact ⟨by omega, hs'.isTame_mono (by omega), hfault.mono hdepth hfuel⟩

end Spends

/-- An evaluator that has as many steps to spend on a form as the form has parts. -/
def IsFrugal (limits : Limits) (nested : Traced.Evaluator) : Prop :=
  ∀ {form : Value}, form.IsLambdaFree → ∀ (e : FrameId) {s : Store} {h : Nat},
    s.Holds (IsTame h) →
    Spends limits h form.size (nested form e) s fun k v => v.Throughout (IsTame (h + k))

/-- What a step of a form of size `n` leaves after `k` steps: a tame value, or a form for which
    there are steps enough. -/
def Leaves (h n k : Nat) : Step → Prop
  | .value v => v.Throughout (IsTame (h + k))
  | .tail form _ => form.IsLambdaFree ∧ k + form.size < n

/-- What a step leaves after `k'` more steps. -/
theorem Leaves.add {k k' : Nat} {next : Step} (hnext : Leaves (h + k) (n - k) k' next) :
    Leaves h n (k + k') next := by
  cases next with
  | value v =>
      rw [Leaves, ← Nat.add_assoc]
      exact hnext
  | tail form e =>
      obtain ⟨hform, hlt⟩ := hnext
      exact ⟨hform, by omega⟩

/-- Calling a value that is no closure leaves a value. -/
theorem spends_apply {m : Nat} {fn : Value} {vs : List Value} (hs : s.Holds (IsTame h))
    (hfn : fn.Throughout (IsTame h)) (hvs : ∀ v ∈ vs, v.Throughout (IsTame h)) :
    Spends limits h m (apply limits.depth fn vs) s fun k => Leaves h n (k + 1) := by
  have hsuits := Builtin.suitsWithin_isTame limits h m
  by_cases hfunction : fn.IsFunction
  · cases fn with
    | builtin b =>
        have hsafe := hsuits.isSafe_call (b := b) (fun _ => trivial) hvs
        have hframes := Builtin.keepsFrames_call limits.depth b vs s
        have heval : (apply limits.depth (.builtin b) vs).eval.run s =
            (b.call limits.depth vs >>= fun v => pure (.value v)).run s := rfl
        rw [EStateM.run_bind] at heval
        cases hrun : (b.call limits.depth vs).run s with
        | ok v s₁ =>
            rw [hrun] at heval
            rw [Eval.after_of_ok hrun] at hframes
            refine .of_run_ok heval rfl (hs.of_frames_eq hframes fun _ => id) ?_
            exact Value.throughout_isTame_mono (by omega) (hsafe.result s v s₁ hrun)
        | error fault s₁ =>
            rw [hrun] at heval
            rw [Eval.after_of_error hrun] at hframes
            exact .of_run_error heval rfl (hs.of_frames_eq hframes fun _ => id)
              (hsafe.fault s fault s₁ hrun)
    | closure => exact hfn.self.1.elim
    | _ => exact hfunction.elim
  · have hquiet : apply limits.depth fn vs = quiet (Eval.apply limits.depth fn vs) := by
      cases fn with
      | builtin b => exact absurd trivial hfunction
      | _ => rfl
    rw [hquiet, Eval.apply_of_not_isFunction hfunction]
    cases hshown : fn.print limits.depth with
    | ok shown => exact .throw hs trivial
    | error fault =>
        exact .throw hs (hsuits.unprinted hfn (Value.checkText_eq_error_of_print hshown))

section Nested

variable {nested : Traced.Evaluator} (hn : IsFrugal limits nested)
include hn

theorem spends_bindEach (i : Nat) {bindings : List Value}
    (hforms : ∀ form ∈ bindings, form.IsLambdaFree) (hs : s.Holds (IsTame h)) :
    Spends limits h (Value.sizeItems bindings) (bindEach nested e i bindings) s
      fun _ _ => True := by
  fun_induction bindEach nested e i bindings generalizing s h with
  | case1 i name form rest ih =>
      obtain ⟨-, htail⟩ := List.forall_mem_cons.mp hforms
      obtain ⟨hform, hrest⟩ := List.forall_mem_cons.mp htail
      rw [Value.sizeItems, Value.sizeItems]
      refine (hn hform e hs).bind (by omega) fun k hk v s₁ hs₁ hv => ?_
      refine .after (Eval.run_define s₁ e name v) rfl ?_
      exact (ih hrest (hs₁.define hv (fun _ => id) name)).more (by omega)
  | case2 name => exact .throw hs trivial
  | case3 i head rest hpair hsingle => exact .throw hs trivial
  | case4 => exact .pure hs trivial

theorem spends_evaluateAll {forms : List Value} (hforms : ∀ form ∈ forms, form.IsLambdaFree)
    (hs : s.Holds (IsTame h)) :
    Spends limits h (Value.sizeItems forms) (evaluateAll nested e forms) s
      fun k vs => ∀ v ∈ vs, v.Throughout (IsTame (h + k)) := by
  induction forms generalizing s h with
  | nil => exact .pure hs (List.forall_mem_nil _)
  | cons form rest ih =>
      obtain ⟨hform, hrest⟩ := List.forall_mem_cons.mp hforms
      rw [Value.sizeItems]
      refine (hn hform e hs).bind (by omega) fun k hk v s₁ hs₁ hv => ?_
      refine (ih hrest hs₁).bind (by omega) fun k' hk' vs s₂ hs₂ hvs => ?_
      refine .pure hs₂ (List.forall_mem_cons.mpr ⟨?_, fun w hw => ?_⟩)
      · exact Value.throughout_isTame_mono (by omega) hv
      · exact Value.throughout_isTame_mono (by omega) (hvs w hw)

theorem spends_sequence {forms : List Value} (hforms : ∀ form ∈ forms, form.IsLambdaFree)
    (hs : s.Holds (IsTame h)) (hsize : Value.sizeItems forms + 1 < n) :
    Spends limits h (n - 1) (sequence nested e forms) s fun k => Leaves h n (k + 1) := by
  fun_induction sequence nested e forms generalizing s h n with
  | case1 => exact .pure hs (.atom trivial ⟨trivial, Nat.zero_le _⟩)
  | case2 last =>
      rw [Value.sizeItems, Value.sizeItems] at hsize
      exact .pure hs ⟨hforms last List.mem_cons_self, by omega⟩
  | case3 form next rest ih =>
      obtain ⟨hform, hrest⟩ := List.forall_mem_cons.mp hforms
      rw [Value.sizeItems] at hsize
      refine (hn hform e hs).bind (by omega) fun k hk v s₁ hs₁ hv => ?_
      have hnext := ih (n := n - k) hrest hs₁ (by omega)
      exact hnext.mono (by omega) (by omega) (by omega) fun _ _ _ => Leaves.add

/-- A special form of a lambda-free program is no `fn*`. -/
theorem spends_special {kind : SpecialForm} {i : Option Serial} {args : List Value}
    (hform : Value.IsLambdaFree (kind.applied i args)) (hs : s.Holds (IsTame h))
    (hsize : Value.sizeItems args + 1 < n) :
    Spends limits h (n - 1) (special nested kind args e) s fun k => Leaves h n (k + 1) := by
  cases hmisuse : kind.misuse? args with
  | some cause =>
      rw [special_of_misuse nested e hmisuse]
      exact .throw hs trivial
  | none =>
      cases SpecialForm.wellShaped_of_misuse?_eq_none hmisuse with
      | define name expr =>
          simp only [Value.sizeItems] at hsize
          refine (hn (hform.args expr (by simp)) e hs).bind (by omega) fun k hk v s₁ hs₁ hv => ?_
          refine .of_run_ok (a := .value v) rfl rfl (hs₁.define hv (fun _ => id) name) ?_
          exact Value.throughout_isTame_mono (by omega) hv
      | letStar j bindings body heven =>
          simp only [Value.sizeItems, Value.size] at hsize
          rw [special, if_neg (not_not_intro heven)]
          have hchild : (s.addFrame e []).Holds (IsTame h) :=
            hs.addFrame (List.forall_mem_nil _) fun _ => id
          have hforms := (hform.args (.list j bindings) (by simp)).items
          refine .after (Eval.run_newFrame s e []) rfl ?_
          refine (spends_bindEach hn 0 hforms hchild).bind (by omega) fun k hk _ s₁ hs₁ _ => ?_
          exact .pure hs₁ ⟨hform.args body (by simp), by omega⟩
      | branch cond yes no =>
          rw [special_branch]
          rw [Value.sizeItems, Value.sizeItems] at hsize
          refine (hn (hform.args cond (by simp)) e hs).bind (by omega) fun k hk v s₁ hs₁ hv => ?_
          refine .pure hs₁ ?_
          have hyes : yes.IsLambdaFree := hform.args yes (by simp)
          -- Without an else branch the form that is left is `nil`, which is not in the `if`.
          have hno : (no.getD .nil).IsLambdaFree ∧
              (no.getD .nil).size ≤ yes.size + Value.sizeItems no.toList := by
            cases no with
            | none => exact ⟨.nil, Nat.le_trans yes.size_pos (Nat.le_add_right _ _)⟩
            | some no =>
                refine ⟨hform.args no (by simp), ?_⟩
                simp only [Option.toList, Value.sizeItems, Option.getD]
                omega
          split
          · exact ⟨hyes, by omega⟩
          · exact ⟨hno.1, by omega⟩
      | sequence => exact spends_sequence hn hform.args hs hsize
      | lambda j names body hnodup => exact absurd (.item List.mem_cons_self .sym) hform.no_lambda

/-- The heart of it: a step and what it leaves take no more steps than the form has parts. -/
theorem spends_step {form : Value} (hform : form.IsLambdaFree) (hs : s.Holds (IsTame h)) :
    Spends ⟨limits.depth + 1, limits.fuel⟩ h form.size (step nested limits.depth form e) s
      (Leaves h form.size) := by
  refine .entered ?_ form.size_pos form e
  split
  case h_1 i head args =>
    cases hkind : Eval.step.specialForm? head with
    | some kind =>
        obtain rfl := Eval.eq_name_of_specialForm? hkind
        refine spends_special hn hform hs ?_
        simp only [Value.size, Value.sizeItems]
        omega
    | none =>
        have hsize : (Value.list i (head :: args)).size =
            head.size + Value.sizeItems args + 1 := by
          rw [Value.size, Value.sizeItems]
        rw [hsize]
        refine (hn (hform.items head List.mem_cons_self) e hs).bind (by omega)
          fun k hk fn s₁ hs₁ hfn => ?_
        refine (spends_evaluateAll hn hform.args hs₁).bind (by omega)
          fun k' hk' vs s₂ hs₂ hvs => ?_
        -- The step that took up the application pays for the call.
        have hfn₂ := Value.throughout_isTame_mono (Nat.le_add_right _ k') hfn
        have happly : Spends limits (h + k + k') (head.size + Value.sizeItems args + 1 - 1 - k - k')
            (apply limits.depth fn vs) s₂ fun k'' =>
              Leaves (h + k + k') (head.size + Value.sizeItems args + 1 - k - k') (k'' + 1) :=
          spends_apply hs₂ hfn₂ hvs
        exact happly.mono (Nat.le_refl _) id id fun _ _ _ hnext => hnext.add.add
  case h_2 hlist =>
    cases form with
    | sym name =>
        cases hname : s.lookup? e name with
        | some v =>
            refine .of_run_ok (a := .value v) ?_ rfl hs ?_
            · rw [eval_quiet, Eval.step, EStateM.run_bind, Eval.run_lookup_some s hname]
              rfl
            · exact Value.throughout_isTame_mono (Nat.le_succ h) (hs.of_lookup? hname)
        | none =>
            have hrun : (quiet (Eval.step nested.plain limits.depth (.sym name) e)).eval.run s =
                .error (.error (.unbound name)) s := by
              rw [eval_quiet, Eval.step, EStateM.run_bind, Eval.run_lookup_none s hname]
            exact .of_run_error hrun rfl hs trivial
    | list i items =>
        cases items with
        | nil => exact .pure hs (hform.closureFree.isTame (Nat.le_add_left 1 h))
        | cons head args => exact (hlist i head args rfl).elim
    | _ => exact .pure hs (hform.closureFree.isTame (Nat.zero_le _))

/-- A chain of steps, by induction on its length.  Each step leaves a form for which there are
    fewer steps to spend than there were. -/
theorem isFrugal_follow (length : Nat) (hlength : length ≤ limits.fuel) :
    IsFrugal ⟨limits.depth + 1, length⟩ (follow (step nested limits.depth) length) := by
  induction length with
  | zero => exact fun {form} _ _ _ _ hs => .throw hs form.size_pos
  | succ length ih =>
      intro form hform e s h hs
      have hstep : Spends ⟨limits.depth + 1, length + 1⟩ h form.size
          (step nested limits.depth form e) s (Leaves h form.size) :=
        (spends_step hn hform hs).mono (Nat.le_refl _) id
          (Nat.lt_of_le_of_lt hlength) fun _ _ _ => id
      refine hstep.bind (Nat.le_refl _) fun k hk next s₁ hs₁ hnext => ?_
      cases next with
      | value v => exact .pure hs₁ hnext
      | tail next e' =>
          -- One link of the chain is spent, and at least one step.
          obtain ⟨hform', hlt⟩ := hnext
          have hrest := ih (Nat.le_of_succ_le hlength) hform' e' hs₁
          refine hrest.mono (by omega) ?_ ?_ fun k' _ v hv => ?_
          · show limits.depth + 1 < h + k + next.size →
              limits.depth + 1 < h + k + (form.size - k)
            omega
          · show length < next.size → length + 1 < form.size - k
            omega
          · rw [← Nat.add_assoc]
            exact hv

end Nested

/-- **A lambda-free form takes no more steps than it has parts**, by induction on the depth that
    its evaluation may take. -/
theorem isFrugal_evaluate (fuel depth : Nat) :
    IsFrugal ⟨depth, fuel⟩ (evaluate fuel depth) := by
  induction depth with
  | zero =>
      intro form _ e s h hs
      exact .throw hs (Nat.lt_of_lt_of_le form.size_pos (Nat.le_add_left _ h))
  | succ depth ih => exact isFrugal_follow ih fuel (Nat.le_refl fuel)

/-- What is spent is no more than a number of steps, and no closure comes of it. -/
theorem Spends.ensures {x : Traced α} {Q : Nat → α → Prop} (hx : Spends limits h n x s Q) :
    Ensures (fun es s' => entries es ≤ n ∧ s'.IsClosureFree) x s (fun a _ => ∃ k, Q k a)
      (Fault.Within limits h n) := by
  refine ⟨?_, fun a s' hrun => ?_, fun fault s' hrun => (hx.fault fault s' hrun).2.2⟩
  · cases hrun : x.eval.run s with
    | ok a s' =>
        obtain ⟨k, hk, hevents, hs', -⟩ := hx.result a s' hrun
        rw [Eval.after_of_ok hrun]
        exact ⟨Nat.le_trans hevents hk, hs'.isClosureFree⟩
    | error fault s' =>
        obtain ⟨hevents, hs', -⟩ := hx.fault fault s' hrun
        rw [Eval.after_of_error hrun]
        exact ⟨hevents, hs'.isClosureFree⟩
  · obtain ⟨k, -, -, -, hQ⟩ := hx.result a s' hrun
    exact ⟨k, hQ⟩

/-- The fault of a chain that is too long needs a form with more parts than fuel. -/
abbrev FuelWithin (limits : Limits) (n : Nat) (fault : Fault) : Prop :=
  fault = .outOfFuel → limits.fuel < n

/-- A run from a store without closures makes none, and takes up `n` forms at most. -/
abbrev Remains (n : Nat) (es : List Event) (s' : Store) : Prop :=
  entries es ≤ n ∧ s'.IsClosureFree

theorem ensures_evaluate (limits : Limits) {form : Value} (hform : form.IsLambdaFree)
    (e : FrameId) (hs : s.IsClosureFree) :
    Ensures (Remains form.size) (evaluate limits.fuel limits.depth form e) s
      (fun v _ => v.IsClosureFree) (FuelWithin limits form.size) := by
  obtain ⟨h, hh⟩ := hs.exists_holds_isTame
  have hensures := (isFrugal_evaluate limits.fuel limits.depth hform e hh).ensures
  refine (hensures.mono (fun _ _ h => h) ?_).imp_fault ?_
  · rintro v s' - ⟨k, hv⟩
    exact hv.mono fun _ hw => hw.1
  · rintro _ hfault rfl
    exact hfault

/-- With levels and fuel enough nothing is cut short. -/
theorem exists_settles {form : Value} (hform : form.IsLambdaFree) (e : FrameId)
    (hs : s.IsClosureFree) :
    ∃ o, Settles (fun limits => Eval.evaluate limits.fuel limits.depth form e) s o := by
  obtain ⟨h, hh⟩ := hs.exists_holds_isTame
  have hspends := isFrugal_evaluate form.size (h + form.size) hform e hh
  have herase : (evaluate form.size (h + form.size) form e).eval =
      Eval.evaluate form.size (h + form.size) form e :=
    congrFun (congrFun (eval_evaluate form.size (h + form.size)) form) e
  have hend : ¬ IsExhausted ((Eval.evaluate form.size (h + form.size) form e).run s) := by
    rw [← herase]
    cases hrun : (evaluate form.size (h + form.size) form e).eval.run s with
    | ok v s' => exact id
    | error fault s' =>
        -- Either limit would have to be smaller than it is.
        have hfault := (hspends.fault fault s' hrun).2.2
        cases fault with
        | stackOverflow | outOfFuel => exact absurd hfault (Nat.lt_irrefl _)
        | _ => exact id
  exact ⟨_, Eval.evaluate_settles hend rfl⟩

end Traced

/-! ## Reading -/

/-- Fuel is no matter of reading. -/
theorem Token.role_ne_outOfFuel (token : Token) : token.role ≠ .error .outOfFuel := by
  intro h
  have hmap : ∀ {x : Except Fault Value}, x.map Role.atom = .error .outOfFuel →
      x = .error .outOfFuel := by
    rintro (fault | v) heq
    · exact congrArg _ (Except.error.inj heq)
    · cases heq
  obtain ⟨kind, text⟩ := token
  cases kind with
  | opening | closing | other => cases h
  | symbol =>
      have hword : readWord text = .error .outOfFuel := hmap h
      rw [readWord] at hword
      split_ifs at hword
      cases hnumber : Decimal.split? text.toList with
      | none =>
          rw [hnumber] at hword
          cases hword
      | some number =>
          rw [hnumber] at hword
          dsimp only at hword
          split_ifs at hword
          cases hword
  | string =>
      have hstring : readString text = .error .outOfFuel := hmap h
      rw [readString] at hstring
      cases hdecode : StringLiteral.decode text.toList with
      | ok decoded =>
          rw [hdecode] at hstring
          cases hstring
      | error fault =>
          obtain ⟨cause, rfl⟩ := StringLiteral.decode_fault hdecode
          rw [hdecode] at hstring
          cases hstring

namespace Value

theorem readFrom_ne_outOfFuel (limit : Nat) (stack : List (List Value)) (tokens : List Token) :
    (readFrom limit stack tokens).1 ≠ .error .outOfFuel := by
  fun_induction readFrom limit stack tokens with
  | case3 stack token rest fault hrole =>
      rintro ⟨⟩
      exact token.role_ne_outOfFuel hrole
  | case4 _ _ _ _ _ ih => exact ih
  | case8 _ _ _ _ _ _ ih => exact ih
  | case10 _ _ _ _ _ _ ih => exact ih
  | _ => rintro ⟨⟩

theorem IsAtom.size_eq_one {v : Value} (h : v.IsAtom) : v.size = 1 := by
  cases v with
  | list => exact h.elim
  | _ => rfl

theorem sizeItems_append (items others : List Value) :
    sizeItems (items ++ others) = sizeItems items + sizeItems others := by
  induction items with
  | nil => exact (Nat.zero_add _).symm
  | cons item rest ih => rw [List.cons_append, sizeItems, sizeItems, ih, Nat.add_assoc]

theorem sizeItems_reverse (items : List Value) : sizeItems items.reverse = sizeItems items := by
  induction items with
  | nil => rfl
  | cons item rest ih =>
      rw [List.reverse_cons, sizeItems_append, ih, sizeItems, sizeItems, sizeItems, Nat.add_zero,
        Nat.add_comm]

/-- Each part of a form was a token, an open list its opening parenthesis. -/
theorem size_le_of_readFrom {limit : Nat} {stack : List (List Value)} {tokens rest : List Token}
    {form : Value} (h : readFrom limit stack tokens = (.ok (some form), rest)) :
    form.size + rest.length ≤ tokens.length + sizeItems (stack.map (.list none)) := by
  fun_induction readFrom limit stack tokens with
  | case1 | case2 | case3 | case5 | case6 => cases h
  | case4 stack token rest hrole hdepth ih =>
      have hle := ih h
      simp only [List.map_cons, List.length_cons, sizeItems, size] at hle ⊢
      omega
  | case7 token rest hrole items =>
      cases h
      simp only [List.map_cons, List.map_nil, List.length_cons, sizeItems, size,
        sizeItems_reverse]
      omega
  | case8 token rest hrole items outer stack ih =>
      have hle := ih h
      simp only [List.map_cons, List.length_cons, sizeItems, size, sizeItems_reverse] at hle ⊢
      omega
  | case9 token rest value hrole =>
      cases h
      have hsize := (sym_of_role hrole).1.size_eq_one
      rw [List.length_cons]
      omega
  | case10 token rest value hrole items stack ih =>
      have hle := ih h
      have hsize := (sym_of_role hrole).1.size_eq_one
      simp only [List.map_cons, List.length_cons, sizeItems, size] at hle ⊢
      omega

theorem size_le_of_readForm {limit : Nat} {tokens rest : List Token} {form : Value}
    (h : readForm limit tokens = (.ok (some form), rest)) :
    form.size + rest.length ≤ tokens.length :=
  size_le_of_readFrom h

theorem isLambdaFree_of_readForm {limit : Nat} {tokens rest : List Token} {form : Value}
    (hfree : ⟨.symbol, SpecialForm.lambda.name⟩ ∉ tokens)
    (h : readForm limit tokens = (.ok (some form), rest)) : form.IsLambdaFree := by
  refine ⟨?_, not_occurs_of_readForm hfree h⟩
  have hread := ordinaryOr_readForm limit tokens
  rw [h] at hread
  refine (hread form rfl).throughout (fun v hv => ?_) fun _ => trivial
  cases v with
  | closure => exact hv.elim
  | _ => trivial

end Value

/-! ## Texts -/

namespace Traced

variable {α : Type} {limits : Limits} {s : Store}

theorem remains_nil (n : Nat) (hs : s.IsClosureFree) : Remains n [] s :=
  ⟨Nat.zero_le n, hs⟩

theorem Remains.append {m n : Nat} {es es' : List Event} {s' : Store} (h : Remains m es s)
    (h' : Remains n es' s') : Remains (m + n) (es ++ es') s' := by
  refine ⟨?_, h'.2⟩
  rw [entries_append]
  exact Nat.add_le_add h.1 h'.1

/-- A form that is read is evaluated in no more steps than tokens were read. -/
theorem ensures_evalForm {tokens rest : List Token} {form : Value} {n : Nat}
    (hs : s.IsClosureFree) (hfree : ⟨.symbol, SpecialForm.lambda.name⟩ ∉ tokens)
    (hread : Value.readForm limits.depth tokens = (.ok (some form), rest))
    (hn : tokens.length ≤ n) :
    Ensures (Remains (tokens.length - rest.length)) (evalForm limits form) s
      (fun v _ => v.IsClosureFree) (FuelWithin limits n) := by
  have hsize := Value.size_le_of_readForm hread
  have hensures := ensures_evaluate limits (Value.isLambdaFree_of_readForm hfree hread)
    Store.root hs
  refine (hensures.mono (fun es s' hr => ?_) fun _ _ _ h => h).imp_fault fun fault h heq => ?_
  · exact ⟨by have := hr.1; omega, hr.2⟩
  · have := h heq
    omega

theorem throw_of_readForm {β : Type} {Q : β → Store → Prop} {tokens rest : List Token}
    {fault : Fault} {m n : Nat} (hs : s.IsClosureFree)
    (hread : Value.readForm limits.depth tokens = (.error fault, rest)) :
    Ensures (Remains m) (quiet (throw fault) : Traced β) s Q (FuelWithin limits n) := by
  refine .of_run_error rfl (remains_nil m hs) fun heq => ?_
  refine absurd (congrArg Prod.fst hread) ?_
  rw [heq]
  exact Value.readFrom_ne_outOfFuel limits.depth [] tokens

theorem ensures_next (limits : Limits) {tokens : List Token} (hs : s.IsClosureFree)
    (hfree : ⟨.symbol, SpecialForm.lambda.name⟩ ∉ tokens) :
    Ensures (Remains tokens.length) (next limits tokens) s
      (fun result _ => ∀ entry ∈ result, entry.1.IsClosureFree ∧ entry.2 <:+ tokens)
      (FuelWithin limits tokens.length) := by
  rcases hread : Value.readForm limits.depth tokens with ⟨fault | (_ | form), rest⟩
  · simp only [next, hread]
    exact throw_of_readForm hs hread
  · simp only [next, hread]
    exact .of_run_ok rfl (remains_nil _ hs) (by rintro _ ⟨⟩)
  · simp only [next, hread]
    refine (ensures_evalForm hs hfree hread (Nat.le_refl _)).bind
      (fun es s' h => ⟨Nat.le_trans h.1 (Nat.sub_le _ _), h.2⟩) fun v s₁ hleaves hv => ?_
    refine .of_run_ok rfl ?_ ?_
    · rw [events_pure, List.append_nil]
      exact ⟨Nat.le_trans hleaves.1 (Nat.sub_le _ _), hleaves.2⟩
    · rintro entry ⟨⟩
      exact ⟨hv, Value.suffix_of_readForm hread⟩

/-- All forms of a text, by induction on them. -/
theorem ensures_fold (limits : Limits) (visit : α → Value → Eval α) {Q : α → Prop}
    (hvisit : ∀ a v s, v.IsClosureFree → s.IsClosureFree →
      Ensures (Remains 0) (quiet (visit a v)) s (fun b _ => Q b) (· ≠ .outOfFuel))
    {n : Nat} {tokens : List Token} (hn : tokens.length ≤ n)
    (hfree : ⟨.symbol, SpecialForm.lambda.name⟩ ∉ tokens) (hs : s.IsClosureFree) (start : α)
    (hstart : Q start) :
    Ensures (Remains tokens.length) (fold limits visit start tokens) s (fun a _ => Q a)
      (FuelWithin limits n) := by
  induction tokens using Value.readForm_induct limits.depth generalizing s start with
  | failed tokens fault rest hread =>
      rw [fold_of_error visit start hread]
      exact throw_of_readForm hs hread
  | ended tokens rest hread =>
      rw [fold_of_none visit start hread]
      exact .of_run_ok rfl (remains_nil _ hs) hstart
  | form tokens form rest hread ih =>
      have hsuffix := Value.suffix_of_readForm hread
      have hlt : rest.length < tokens.length := Value.readForm_rest_length_lt hread
      have hle : rest.length ≤ n := Nat.le_trans (Nat.le_of_lt hlt) hn
      -- The tokens of the first form pay for its evaluation, and the others for the rest.
      have hlast : tokens.length - rest.length + rest.length = tokens.length :=
        Nat.sub_add_cancel (Nat.le_of_lt hlt)
      rw [fold_of_some visit start hread]
      refine (ensures_evalForm hs hfree hread hn).bind
        (fun es s' h => ⟨by have := h.1; omega, h.2⟩) fun v s₁ hleaves hv => ?_
      have hfault : ∀ fault : Fault, fault ≠ .outOfFuel → FuelWithin limits n fault :=
        fun fault h heq => absurd heq h
      have hvisited := (hvisit start v s₁ hv hleaves.2).imp_fault hfault
      refine hvisited.bind (fun es s' h => ?_) fun a s₂ hleaves₂ ha => ?_
      · have happend := hleaves.append h
        exact ⟨by have := happend.1; omega, happend.2⟩
      · have hrest := ih hle (fun h => hfree (hsuffix.subset h)) hleaves₂.2 a ha
        refine hrest.mono (fun es s' h => ?_) fun _ _ _ h => h
        have happend := hleaves.append (hleaves₂.append h)
        exact ⟨by have := happend.1; omega, happend.2⟩

end Traced

/-! ## Sessions -/

/-- The text that a request brings, if it brings one. -/
def Request.source? : Request → Option String
  | .eval source | .rep source | .openText source => some source
  | .next _ => none

/-- A request that brings no text with a `fn*`. -/
def Request.IsLambdaFree (request : Request) : Prop :=
  ∀ source ∈ request.source?, ⟨.symbol, SpecialForm.lambda.name⟩ ∉ Token.lex source

instance (request : Request) : Decidable request.IsLambdaFree :=
  inferInstanceAs (Decidable (∀ source ∈ request.source?, _))

/-- A reply that has no closure, and that says of a chain that is too long only if `n` steps
    are too many. -/
def Reply.Within (limits : Limits) (n : Nat) : Reply → Prop
  | .value v => v.IsClosureFree
  | .failed fault => Traced.FuelWithin limits n fault
  | .printed _ | .opened _ | .done => True

namespace Session

open Traced

/-- The tokens of which a request may read and evaluate forms. -/
def tokensFor (s : Session) : Request → List Token
  | .eval source | .rep source => Token.lex source
  | .openText _ => []
  | .next text => s.texts[text]?.getD []

/-- A session without closures, with no `fn*` in what is left of its opened texts. -/
structure IsLambdaFree (s : Session) : Prop where
  store : s.store.IsClosureFree
  texts : ∀ tokens ∈ s.texts, ⟨.symbol, SpecialForm.lambda.name⟩ ∉ tokens

variable (limits : Limits) {s : Session}

theorem isLambdaFree_start : (start limits none).IsLambdaFree :=
  ⟨Store.isClosureFree_initial, fun tokens h => absurd h (Array.not_mem_empty tokens)⟩

theorem IsLambdaFree.opened (hs : s.IsLambdaFree) (text : Nat) :
    ⟨.symbol, SpecialForm.lambda.name⟩ ∉ s.texts[text]?.getD [] := by
  cases htext : s.texts[text]? with
  | none => exact List.not_mem_nil
  | some tokens => exact hs.texts tokens (Array.mem_of_getElem? htext)

/-- A text moves on to what is left of it. -/
theorem IsLambdaFree.setText (hs : s.IsLambdaFree) {store : Store} (hstore : store.IsClosureFree)
    {text : Nat} {rest : List Token} (hrest : rest <:+ s.texts[text]?.getD []) :
    IsLambdaFree ⟨store, s.texts.setIfInBounds text rest⟩ := by
  refine ⟨hstore, fun tokens htokens hlambda => ?_⟩
  rcases Array.mem_or_eq_of_mem_setIfInBounds htokens with hold | rfl
  · exact hs.texts tokens hold hlambda
  · exact hs.opened text (hrest.subset hlambda)

/-- What is carried out in some steps. -/
theorem within_carryOut {α : Type} {x : Traced α} {n : Nat} {Q : α → Store → Prop}
    (hs : s.IsLambdaFree) (reply : α → Reply)
    (hx : Ensures (Remains n) x s.store Q (FuelWithin limits n))
    (hreply : ∀ a s', Q a s' → (reply a).Within limits n) :
    entries (x.events s.store) ≤ n ∧ (s.carryOut x.eval reply).2.IsLambdaFree ∧
      (s.carryOut x.eval reply).1.Within limits n := by
  obtain ⟨hentries, hstore⟩ := hx.leaves
  rw [carryOut]
  cases hrun : x.eval.run s.store with
  | ok a s' =>
      rw [Eval.after_of_ok hrun] at hstore
      exact ⟨hentries, ⟨hstore, hs.texts⟩, hreply a s' (hx.result a s' hrun)⟩
  | error fault s' =>
      rw [Eval.after_of_error hrun] at hstore
      exact ⟨hentries, ⟨hstore, hs.texts⟩, hx.fault fault s' hrun⟩

/-- One request takes no more steps than there are tokens for it. -/
theorem within_answer (hs : s.IsLambdaFree) {request : Request} (hrequest : request.IsLambdaFree) :
    entries (s.events limits request) ≤ (s.tokensFor request).length ∧
      (s.answer limits request).2.IsLambdaFree ∧
      (s.answer limits request).1.Within limits (s.tokensFor request).length := by
  cases request with
  | eval source =>
      have hfold := ensures_fold limits (fun _ value => return value)
        (fun _ v s hv hs => .of_run_ok rfl (remains_nil 0 hs) hv) (Nat.le_refl _)
        (hrequest source rfl) hs.store .nil Value.IsLambdaFree.nil.closureFree
      have hcarry := within_carryOut limits hs .value hfold fun _ _ h => h
      rw [eval_fold] at hcarry
      exact hcarry
  | rep source =>
      have hfold := ensures_fold limits (Q := fun _ => True)
        (fun _ value => do return some (← value.print limits.depth))
        (fun _ v s _ hs => ?_) (Nat.le_refl _) (hrequest source rfl) hs.store none trivial
      · have hcarry := within_carryOut limits hs .printed hfold fun _ _ _ => trivial
        rw [eval_fold] at hcarry
        exact hcarry
      · cases hprint : v.print limits.depth with
        | ok shown => exact .of_run_ok rfl (remains_nil 0 hs) trivial
        | error fault =>
            refine .of_run_error rfl (remains_nil 0 hs) ?_
            rintro rfl
            cases Value.unprintable_of_checkText (Value.checkText_eq_error_of_print hprint)
  | openText source =>
      refine ⟨Nat.le_refl _, ⟨hs.store, fun tokens htokens => ?_⟩, trivial⟩
      rcases Array.mem_push.mp htokens with hold | rfl
      · exact hs.texts tokens hold
      · exact hrequest source rfl
  | next text =>
      have hnext := ensures_next limits hs.store (hs.opened text)
      obtain ⟨hentries, hstore⟩ := hnext.leaves
      refine ⟨hentries, ?_⟩
      simp only [answer, advance, tokensFor]
      rw [← eval_next]
      cases hrun : (Traced.next limits (s.texts[text]?.getD [])).eval.run s.store with
      | ok result s' =>
          rw [Eval.after_of_ok hrun] at hstore
          have hresult := hnext.result result s' hrun
          cases result with
          | none => exact ⟨hs.setText hstore (List.nil_suffix), trivial⟩
          | some entry =>
              obtain ⟨hv, hrest⟩ := hresult entry rfl
              exact ⟨hs.setText hstore hrest, hv⟩
      | error fault s' =>
          rw [Eval.after_of_error hrun] at hstore
          exact ⟨hs.setText hstore (List.nil_suffix), hnext.fault fault s' hrun⟩

/-- Any number of requests, by induction on their list. -/
theorem isLambdaFree_answerAll (hs : s.IsLambdaFree) {requests : List Request}
    (hrequests : ∀ request ∈ requests, request.IsLambdaFree) :
    (s.answerAll limits requests).2.IsLambdaFree := by
  induction requests generalizing s with
  | nil => exact hs
  | cons request rest ih =>
      obtain ⟨hrequest, hrest⟩ := List.forall_mem_cons.mp hrequests
      exact ih (within_answer limits hs hrequest).2.1 hrest

end Session

/-- **Programs without `fn*` end.**  Where no closure is bound, a form without closure and `fn*`
    is evaluated to a value or an error, in no more steps than it has parts and with no closure
    afterwards, also where limits cut it short.  So it is with each request of a session on a
    fresh interpreter as long as no text brings a `fn*`: fuel for as many steps as there are
    tokens never runs out. -/
theorem programs_without_lambda_end :
    (∀ (s : Store) (e : FrameId) (form : Value), s.IsClosureFree → form.IsLambdaFree →
      (∃ o, Settles (fun limits => Eval.evaluate limits.fuel limits.depth form e) s o) ∧
      ∀ limits : Limits,
        let run := Traced.evaluate limits.fuel limits.depth form e
        run.eval = Eval.evaluate limits.fuel limits.depth form e ∧
        entries (run.events s) ≤ form.size ∧
        (run.eval.after s).IsClosureFree ∧
        (∀ v s', run.eval.run s = .ok v s' → v.IsClosureFree) ∧
        (form.size ≤ limits.fuel → ∀ s', run.eval.run s ≠ .error .outOfFuel s')) ∧
    ∀ (limits : Limits) (requests : List Request) (request : Request),
      (∀ other ∈ requests, other.IsLambdaFree) → request.IsLambdaFree →
      let s := ((Session.start limits none).answerAll limits requests).2
      let reply := (s.answer limits request).1
      entries (s.events limits request) ≤ (s.tokensFor request).length ∧
      ((s.tokensFor request).length ≤ limits.fuel → reply ≠ .failed .outOfFuel) ∧
      (s.answer limits request).2.store.IsClosureFree ∧
      ∀ v, reply = .value v → v.IsClosureFree := by
  refine ⟨fun s e form hs hform => ⟨Traced.exists_settles hform e hs, fun limits => ?_⟩,
    fun limits requests request hrequests hrequest => ?_⟩
  · have hensures := Traced.ensures_evaluate limits hform e hs
    refine ⟨congrFun (congrFun (Traced.eval_evaluate limits.fuel limits.depth) form) e,
      hensures.leaves.1, hensures.leaves.2, hensures.result, fun hfuel s' hrun => ?_⟩
    exact absurd (hensures.fault _ s' hrun rfl) (Nat.not_lt.mpr hfuel)
  · have hs := Session.isLambdaFree_answerAll limits (Session.isLambdaFree_start limits) hrequests
    obtain ⟨hentries, hafter, hreply⟩ := Session.within_answer limits hs hrequest
    refine ⟨hentries, fun hfuel heq => ?_, hafter.store, fun v heq => ?_⟩
    · rw [heq] at hreply
      exact absurd (hreply rfl) (Nat.not_lt.mpr hfuel)
    · rw [heq] at hreply
      exact hreply

/-- A list that is bound in a form, and one that is bound for a later text. -/
theorem programs_without_lambda_end_of_lists :
    let form : Value := SpecialForm.letStar.applied none
      [.list none [.sym "x", .list none [.sym "list", .int 1]], .list none [.sym "count", .sym "x"]]
    let requests : List Request := [.eval "(def! l (list 1 2))"]
    let s := ((Session.start .standard none).answerAll .standard requests).2
    Store.initial.IsClosureFree ∧ form.IsLambdaFree ∧
      (∃ o, Settles (fun limits => Eval.evaluate limits.fuel limits.depth form Store.root)
        .initial o) ∧
      (s.answer .standard (.eval "(if (empty? l) 0 (count l))")).1 ≠ .failed .outOfFuel := by
  intro form requests s
  have hform : form.IsLambdaFree := by
    have hread : Value.readForm 3 (Token.lex "(let* (x (list 1)) (count x))") =
        (.ok (some form), []) := by decide +kernel
    exact Value.isLambdaFree_of_readForm (by decide +kernel) hread
  have hrequests : ∀ other ∈ requests, other.IsLambdaFree := by decide +kernel
  have hrequest : (Request.eval "(if (empty? l) 0 (count l))").IsLambdaFree := by decide +kernel
  obtain ⟨hforms, hsessions⟩ := programs_without_lambda_end
  obtain ⟨hends, -⟩ := hforms .initial Store.root form Store.isClosureFree_initial hform
  obtain ⟨-, hfuel, -⟩ := hsessions .standard requests _ hrequests hrequest
  exact ⟨Store.isClosureFree_initial, hform, hends, hfuel (by decide +kernel)⟩

end TailLisp
