import TailLisp.Proofs.CleanValues

/-! # Parts — values inside values, in frames and out of builtins

    A list has its items in it and a closure its body.  What is asked of the closures and
    lists of a store, at any depth, is asked of every part of what is bound; new
    parts come only of `fn*` and of the builtin `list`.

    * **`Value.Throughout`** and **`Store.Holds`** — a property of all parts of a value, and
      of all that is bound.
    * **`Value.Unprintable`** — why a value is not printed.
    * **`Builtin.Comes`** — all that a call of a builtin can come to, said once: a plain
      value, a new list of its arguments, a value printed, or a fault that is no
      lookup's. -/

namespace TailLisp

/-! ## Parts of values -/

namespace Value

/-- Induction on values: a list comes after its items, a closure after its body. -/
@[elab_as_elim]
theorem induct {P : Value → Prop} (nil : P .nil) (bool : ∀ b, P (.bool b))
    (int : ∀ n, P (.int n)) (str : ∀ text, P (.str text)) (sym : ∀ name, P (.sym name))
    (list : ∀ serial items, (∀ v ∈ items, P v) → P (.list serial items))
    (builtin : ∀ b, P (.builtin b))
    (closure : ∀ serial params body home, P body → P (.closure serial params body home))
    (foreign : ∀ shown, P (.foreign shown)) (v : Value) : P v :=
  Value.rec nil bool int str sym list builtin closure foreign (List.forall_mem_nil _)
    (fun _ _ hitem hrest => List.forall_mem_cons.mpr ⟨hitem, hrest⟩) v

/-- A value is in another: it is the other, or is in an item or in the body of it. -/
inductive IsPart (w : Value) : Value → Prop where
  | refl : IsPart w w
  | item {serial : Option Serial} {items : List Value} {v : Value} : v ∈ items → IsPart w v →
      IsPart w (.list serial items)
  | body {serial : Serial} {params : List String} {body : Value} {home : FrameId} :
      IsPart w body → IsPart w (.closure serial params body home)

/-- A property of a value and of all that is in it. -/
def Throughout (P : Value → Prop) (v : Value) : Prop :=
  ∀ w, IsPart w v → P w

/-- The values with nothing in them. -/
def IsAtom : Value → Prop
  | .list .. | .closure .. => False
  | _ => True

/-- The values that builtins make, apart from lists. -/
def IsPlain : Value → Prop
  | .nil | .bool _ | .int _ => True
  | _ => False

namespace Throughout

variable {P P' : Value → Prop} {v : Value} {serial : Option Serial} {vs : List Value}

theorem self (h : Throughout P v) : P v :=
  h v .refl

theorem items (h : Throughout P (.list serial vs)) : ∀ v ∈ vs, Throughout P v :=
  fun _ hmem w hw => h w (.item hmem hw)

theorem body {i : Serial} {params : List String} {body : Value} {home : FrameId}
    (h : Throughout P (.closure i params body home)) : Throughout P body :=
  fun w hw => h w (.body hw)

theorem mono (hP : ∀ w, P w → P' w) (h : Throughout P v) : Throughout P' v :=
  fun w hw => hP w (h w hw)

theorem list (hself : P (.list serial vs)) (h : ∀ v ∈ vs, Throughout P v) :
    Throughout P (.list serial vs) := by
  rintro w (_ | ⟨hmem, hw⟩)
  · exact hself
  · exact h _ hmem w hw

theorem closure {i : Serial} {params : List String} {body : Value} {home : FrameId}
    (hself : P (.closure i params body home)) (h : Throughout P body) :
    Throughout P (.closure i params body home) := by
  rintro w (_ | _ | hw)
  · exact hself
  · exact h w hw

theorem atom (hatom : v.IsAtom) (hself : P v) : Throughout P v := by
  rintro w (_ | _ | _)
  · exact hself
  · exact hatom.elim
  · exact hatom.elim

end Throughout

/-- What is read has a property throughout if atoms and unnumbered lists have it. -/
theorem IsRead.throughout {P : Value → Prop} (hatom : ∀ v : Value, v.IsAtom → P v)
    (hlist : ∀ items, P (.list none items)) {v : Value} (h : v.IsRead) : v.Throughout P := by
  induction h with
  | nil | bool | int | str | sym => exact .atom trivial (hatom _ trivial)
  | list _ ih => exact .list (hlist _) ih

theorem IsPlain.isAtom {v : Value} (h : v.IsPlain) : v.IsAtom := by
  cases v with
  | nil | bool | int => trivial
  | _ => exact h.elim

end Value

/-! ## What is bound -/

namespace Store

variable {s : Store} {f : FrameId}

/-- What is bound after a definition is what was defined, or was bound before. -/
theorem mem_bindings_define {g : FrameId} {name : String} {v : Value} {entry : String × Value}
    (h : entry ∈ (s.define f name v).bindings g) : entry = (name, v) ∨ entry ∈ s.bindings g := by
  rw [Store.bindings, define, Array.getElem?_modify] at h
  by_cases hfg : f = g
  · rw [if_pos hfg] at h
    rw [Store.bindings]
    cases hframe : s.frames[g]? with
    | none =>
        rw [hframe] at h
        cases h
    | some frame =>
        rw [hframe] at h
        exact Bindings.mem_set h
  · rw [if_neg hfg] at h
    exact .inr h

/-- What is bound with one frame more is bound in this one, or was bound before. -/
theorem mem_bindings_addFrame {g : FrameId} {bindings : Bindings} {entry : String × Value}
    (h : entry ∈ (s.addFrame f bindings).bindings g) :
    entry ∈ bindings ∨ entry ∈ s.bindings g := by
  rcases Nat.lt_trichotomy g s.frames.size with hold | rfl | hnew
  · rw [bindings_addFrame_of_lt s hold] at h
    exact .inr h
  · rw [bindings_addFrame_self] at h
    exact .inl h
  · rw [bindings_of_size_le _ (by rw [size_addFrame]; exact hnew)] at h
    exact nomatch h

/-- A property of all parts of what is bound in a store. -/
def Holds (P : Value → Prop) (s : Store) : Prop :=
  ∀ f, ∀ entry ∈ s.bindings f, entry.2.Throughout P

namespace Holds

variable {P P' : Value → Prop} {s' : Store}

/-- What a name stands for has the property. -/
theorem of_lookup? (h : s.Holds P) {name : String} {v : Value}
    (hname : s.lookup? f name = some v) : v.Throughout P := by
  obtain ⟨g, -, hg⟩ := List.exists_of_findSome?_eq_some hname
  exact h g (name, v) (Bindings.mem_of_get? hg)

theorem of_frames_eq (h : s.Holds P) (hframes : s'.frames = s.frames)
    (hP : ∀ w, P w → P' w) : s'.Holds P' := by
  intro g entry hentry
  rw [Store.bindings, hframes] at hentry
  exact (h g entry hentry).mono hP

theorem define (h : s.Holds P) {v : Value} (hv : v.Throughout P) (hP : ∀ w, P w → P' w)
    (name : String) : (s.define f name v).Holds P' := by
  intro g entry hentry
  rcases mem_bindings_define hentry with rfl | hold
  · exact hv.mono hP
  · exact (h g entry hold).mono hP

theorem addFrame (h : s.Holds P) {bindings : Bindings}
    (hbindings : ∀ entry ∈ bindings, entry.2.Throughout P) (hP : ∀ w, P w → P' w) :
    (s.addFrame f bindings).Holds P' := by
  intro g entry hentry
  rcases mem_bindings_addFrame hentry with hnew | hold
  · exact (hbindings entry hnew).mono hP
  · exact (h g entry hold).mono hP

end Holds

end Store

/-- Parameters have the values of their arguments. -/
theorem Bindings.forall_ofList_zip {P : Value → Prop} {params : List String} {vs : List Value}
    (h : ∀ v ∈ vs, P v) : ∀ entry ∈ ofList (params.zip vs), P entry.2 :=
  fun entry hentry => h entry.2 (List.of_mem_zip (mem_ofList hentry)).2

/-! ## Calls of builtins -/

/-- The fault of looking up a name that is not bound. -/
def Fault.IsUnbound : Fault → Prop
  | .error (.unbound _) => True
  | _ => False

namespace Value

/-- Why a value is not printed: its depth, its digits, or something in it that is no value of
    the language. -/
inductive Unprintable (v : Value) : Fault → Prop where
  | depth : Unprintable v .stackOverflow
  | digits : Unprintable v .digitLimit
  | foreign {shown : String} : IsPart (.foreign shown) v → Unprintable v (.foreign shown)

theorem unprintable_of_checkText {v : Value} {room : Nat} {fault : Fault}
    (h : v.checkText room = .error fault) : v.Unprintable fault := by
  induction v using Value.induct generalizing room with
  | int n =>
      rw [checkText] at h
      by_cases hn : Decimal.isWritable n = true
      · rw [if_pos hn] at h
        cases h
      · rw [if_neg hn] at h
        obtain rfl := Except.error.inj h
        exact .digits
  | list serial items ih =>
      cases room with
      | zero =>
          obtain rfl := Except.error.inj h
          exact .depth
      | succ room =>
          obtain ⟨item, hmem, hitem⟩ := exists_of_checkTextItems h
          cases ih item hmem hitem with
          | depth => exact .depth
          | digits => exact .digits
          | foreign hpart => exact .foreign (.item hmem hpart)
  | foreign shown =>
      obtain rfl := Except.error.inj h
      exact .foreign .refl
  | nil | bool | str | sym | builtin | closure => cases h

theorem not_isUnbound_of_checkText {v : Value} {room : Nat} {fault : Fault}
    (h : v.checkText room = .error fault) : ¬ fault.IsUnbound := by
  cases unprintable_of_checkText h <;> exact id

theorem not_isUnbound_of_print {v : Value} {room : Nat} {fault : Fault}
    (h : v.print room = .error fault) : ¬ fault.IsUnbound :=
  not_isUnbound_of_checkText (checkText_eq_error_of_print h)

end Value

namespace Eval

variable {α β : Type} {Q : α → Prop} {R : β → Prop}

/-- A computation that has nothing to do with the store: a result of one kind, or a fault that
    is no lookup's. -/
def IsPure (Q : α → Prop) (x : Eval α) : Prop :=
  (∃ a, Q a ∧ x = pure a) ∨ ∃ fault, ¬ fault.IsUnbound ∧ x = throw fault

namespace IsPure

theorem pure {a : α} (h : Q a) : IsPure Q (Pure.pure a : Eval α) :=
  .inl ⟨a, h, rfl⟩

theorem throw {fault : Fault} (h : ¬ fault.IsUnbound) :
    IsPure Q (MonadExcept.throw fault : Eval α) :=
  .inr ⟨fault, h, rfl⟩

theorem lift {x : Except Fault α} (h : ∀ fault, x = .error fault → ¬ fault.IsUnbound) :
    IsPure (fun _ => True) (liftM x : Eval α) := by
  cases x with
  | ok a => exact .pure trivial
  | error fault => exact .throw (h fault rfl)

theorem bind {x : Eval α} {f : α → Eval β} (hx : IsPure Q x) (hf : ∀ a, Q a → IsPure R (f a)) :
    IsPure R (x >>= f) := by
  rcases hx with ⟨a, ha, rfl⟩ | ⟨fault, hfault, rfl⟩
  · exact hf a ha
  · exact .throw hfault

end IsPure

end Eval

namespace Builtin

open Eval

/-- A failure whose message shows a value. -/
theorem isPure_failShowing {α : Type} {Q : α → Prop} (x : Value) (room : Nat)
    {cause : String → LispError} (hcause : ∀ shown, ¬ (Fault.error (cause shown)).IsUnbound) :
    IsPure Q (liftM (x.print room) >>= fun shown => fail (cause shown) : Eval α) :=
  (IsPure.lift fun _ h => Value.not_isUnbound_of_print h).bind fun shown _ =>
    .throw (hcause shown)

theorem isPure_operands (room : Nat) (b : Builtin) (x y : Value) :
    IsPure (fun _ => True) (operands room b x y) := by
  unfold operands
  split
  · exact .pure trivial
  · exact isPure_failShowing y room fun _ => id
  · exact isPure_failShowing x room fun _ => id

/-- What a builtin computes that neither prints nor makes a list. -/
theorem isPure_compute (room : Nat) {b : Builtin} (hlist : b ≠ .list) (hprn : b ≠ .prn)
    (args : List Value) : IsPure Value.IsPlain (compute room b args) := by
  have hoperands := isPure_operands room
  unfold compute
  split
  case h_4 x y =>
    refine (hoperands .div x y).bind fun (m, n) _ => ?_
    by_cases hzero : n = 0
    · simp only [if_pos hzero]
      exact .throw id
    · simp only [if_neg hzero]
      exact .pure trivial
  case h_9 x y =>
    have hequal : ∀ fault, x.equal room y = .error fault → ¬ fault.IsUnbound := by
      intro fault h
      obtain rfl := Value.eq_stackOverflow_of_equal h
      exact id
    exact (IsPure.lift hequal).bind fun _ _ => .pure trivial
  case h_10 => exact absurd rfl hlist
  case h_14 x _ => exact isPure_failShowing x room fun _ => id
  case h_17 x _ _ => exact isPure_failShowing x room fun _ => id
  case h_18 => exact absurd rfl hprn
  case h_19 | h_20 => exact .throw id
  case h_11 | h_12 | h_13 | h_15 | h_16 => exact .pure trivial
  all_goals exact (hoperands _ _ _).bind fun _ _ => .pure trivial

theorem isPure_call (room : Nat) {b : Builtin} (hlist : b ≠ .list) (hprn : b ≠ .prn)
    (args : List Value) : IsPure Value.IsPlain (b.call room args) := by
  rw [call]
  split
  · exact isPure_compute room hlist hprn args
  · exact .throw id

/-- What a call of a builtin can come to in a store. -/
inductive Comes (args : List Value) (s : Store) : Outcome Value → Prop where
  | plain {v : Value} : v.IsPlain → Comes args s (.ok v s)
  | listed : Comes args s
      (.ok (.list (some s.nextSerial) args) { s with nextSerial := s.nextSerial + 1 })
  | printed {v : Value} : v ∈ args → Comes args s (.ok .nil (s.record v))
  | failed {fault : Fault} : ¬ fault.IsUnbound → Comes args s (.error fault s)

/-- **All that a call of a builtin can come to**, whatever the builtin and its arguments. -/
theorem call_comes (room : Nat) (b : Builtin) (args : List Value) (s : Store) :
    Comes args s ((b.call room args).run s) := by
  by_cases hlist : b = .list
  · subst hlist
    exact .listed
  by_cases hprn : b = .prn
  · subst hprn
    rw [call]
    split
    case isFalse => exact .failed id
    case isTrue hcount =>
      obtain ⟨v, rfl⟩ := List.length_eq_one_iff.mp hcount
      rw [compute, EStateM.run_bind]
      cases hcheck : v.checkText room with
      | ok u => exact .printed List.mem_cons_self
      | error fault => exact .failed (Value.not_isUnbound_of_checkText hcheck)
  · rcases isPure_call room hlist hprn args with ⟨v, hv, hcall⟩ | ⟨fault, hfault, hcall⟩
    · rw [hcall]
      exact .plain hv
    · rw [hcall]
      exact .failed hfault

end Builtin

end TailLisp
