import TailLisp.Proofs.BigStep
import TailLisp.Proofs.StringLiterals
import TailLisp.Value.Reader

/-! # Clean values — what is read, what is evaluated and which faults are left

    A program is written with symbols, but symbols are no values.  Reading makes
    values with symbols in them (`IsRead`), evaluation should only make values
    without (`IsClean`), where closures remember what they were made of.

    Whatever is done with such values can fail only in ordinary ways
    (`Fault.IsOrdinary`): printing and comparing them, calling a builtin with them
    and reading a text in the first place.  What is ruled out is a fault that would
    show a flaw of the evaluator.

    What calls of builtins need of their arguments is the same for other kinds of
    values, and is said once (`Builtin.Suits`). -/

namespace TailLisp

/-! ## Values -/

namespace Value

/-- What the reader makes: atoms, symbols and lists that no call has built. -/
inductive IsRead : Value → Prop where
  | nil : IsRead .nil
  | bool (b : Bool) : IsRead (.bool b)
  | int (n : Int) : IsRead (.int n)
  | str (text : String) : IsRead (.str text)
  | sym (name : String) : IsRead (.sym name)
  | list {items : List Value} : (∀ v ∈ items, IsRead v) → IsRead (.list none items)

/-- What evaluation makes in a store of `n` frames: no symbol and nothing from outside, at
    any depth of lists. -/
inductive IsClean (n : Nat) : Value → Prop where
  | nil : IsClean n .nil
  | bool (b : Bool) : IsClean n (.bool b)
  | int (k : Int) : IsClean n (.int k)
  | str (text : String) : IsClean n (.str text)
  | list (serial : Option Serial) {items : List Value} : (∀ v ∈ items, IsClean n v) →
      IsClean n (.list serial items)
  | builtin {b : Builtin} : b ∈ Builtin.table → IsClean n (.builtin b)
  | closure (serial : Serial) {params : List String} {body : Value} {home : FrameId} :
      params.Nodup → body.IsRead → home < n → IsClean n (.closure serial params body home)

/-- The items of what was read were read. -/
theorem IsRead.items {serial : Option Serial} {items : List Value}
    (h : IsRead (.list serial items)) : ∀ v ∈ items, v.IsRead := by
  cases h with
  | list hitems => exact hitems

/-- More frames do no harm. -/
theorem IsClean.mono {n m : Nat} (hnm : n ≤ m) {v : Value} (h : v.IsClean n) : v.IsClean m := by
  induction h with
  | nil => exact .nil
  | bool b => exact .bool b
  | int k => exact .int k
  | str text => exact .str text
  | list serial _ ih => exact .list serial ih
  | builtin hb => exact .builtin hb
  | closure serial hparams hbody hhome =>
      exact .closure serial hparams hbody (Nat.lt_of_lt_of_le hhome hnm)

/-- A form that was read and is its own value is clean. -/
theorem IsRead.isClean {form : Value} (h : form.IsRead) (hself : form.IsSelfEvaluating)
    (n : Nat) : form.IsClean n := by
  cases h with
  | nil => exact .nil
  | bool b => exact .bool b
  | int k => exact .int k
  | str text => exact .str text
  | sym name => exact hself.elim
  | @list items hitems =>
      cases items with
      | nil => exact .list none (List.forall_mem_nil _)
      | cons head args => exact hself.elim

end Value

/-! ## Faults -/

/-- The faults that a program can run into.  The others would be a flaw of the state that it
    runs in. -/
def Fault.IsOrdinary : Fault → Prop
  | .error (.invalidSymbol _) | .foreign _ | .interrupted | .outOfRange => False
  | _ => True

/-- Refused special forms fail ordinarily. -/
theorem SpecialForm.isOrdinary_of_misuse? {kind : SpecialForm} {args : List Value}
    {cause : LispError} (h : kind.misuse? args = some cause) : (Fault.error cause).IsOrdinary := by
  rw [SpecialForm.misuse?] at h
  split at h
  · obtain ⟨defect, -, rfl⟩ := Option.map_eq_some_iff.mp h
    trivial
  · obtain rfl := Option.some.inj h
    trivial

namespace Value

variable {n : Nat}

/-- If the items of a list cannot be printed, one of them cannot. -/
theorem exists_of_checkTextItems {room : Nat} {fault : Fault} {items : List Value}
    (h : checkTextItems room items = .error fault) :
    ∃ item ∈ items, item.checkText room = .error fault := by
  induction items with
  | nil => exact nomatch h
  | cons item rest ih =>
      rw [checkTextItems] at h
      cases hcheck : checkText room item with
      | ok u =>
          rw [hcheck] at h
          obtain ⟨other, hmem, hother⟩ := ih h
          exact ⟨other, List.mem_cons_of_mem _ hmem, hother⟩
      | error other =>
          rw [hcheck] at h
          obtain rfl := Except.error.inj h
          exact ⟨item, List.mem_cons_self, hcheck⟩

/-- Clean values are refused by the printer only for their depth or their digits. -/
theorem IsClean.isOrdinary_of_checkText {v : Value} (hclean : v.IsClean n) {room : Nat}
    {fault : Fault} (h : v.checkText room = .error fault) : fault.IsOrdinary := by
  induction hclean generalizing room with
  | nil | bool | str | builtin | closure => exact nomatch h
  | int k =>
      rw [checkText] at h
      by_cases hk : Decimal.isWritable k = true
      · rw [if_pos hk] at h
        exact nomatch h
      · rw [if_neg hk] at h
        obtain rfl := Except.error.inj h
        trivial
  | list serial _ ih =>
      cases room with
      | zero =>
          obtain rfl := Except.error.inj h
          trivial
      | succ room =>
          obtain ⟨item, hmem, hitem⟩ := exists_of_checkTextItems h
          exact ih item hmem hitem

/-- A value that is not printed is one whose text was refused. -/
theorem checkText_eq_error_of_print {v : Value} {room : Nat} {fault : Fault}
    (h : v.print room = .error fault) : v.checkText room = .error fault := by
  rw [print, printAs] at h
  cases hcheck : v.checkText room with
  | ok u =>
      rw [hcheck] at h
      exact nomatch h
  | error other =>
      rw [hcheck] at h
      obtain rfl := Except.error.inj h
      rfl

theorem IsClean.isOrdinary_of_print {v : Value} (hclean : v.IsClean n) {room : Nat}
    {fault : Fault} (h : v.print room = .error fault) : fault.IsOrdinary :=
  hclean.isOrdinary_of_checkText (checkText_eq_error_of_print h)

mutual

/-- Only depth can keep values from being compared. -/
theorem eq_stackOverflow_of_equal {room : Nat} {fault : Fault} :
    ∀ {x y : Value}, x.equal room y = .error fault → fault = .stackOverflow
  | .list i xs, y, h => by
    cases y with
    | list j ys =>
        unfold equal at h
        split at h
        · exact nomatch h
        split at h
        · exact nomatch h
        -- Nothing but two lists takes a level, and nothing else fails for want of one.
        cases room with
        | zero => exact (Except.error.inj h).symm
        | succ room => exact eq_stackOverflow_of_equalItems h
    | _ => exact nomatch h
  | .nil, y, h | .bool _, y, h | .int _, y, h | .str _, y, h | .sym _, y, h | .builtin _, y, h
  | .closure .., y, h | .foreign _, y, h => by cases y <;> exact nomatch h

theorem eq_stackOverflow_of_equalItems {room : Nat} {fault : Fault} :
    ∀ {xs ys : List Value}, equalItems room xs ys = .error fault → fault = .stackOverflow
  | x :: xs, y :: ys, h => by
    rw [equalItems] at h
    cases hequal : equal room x y with
    | ok same =>
        rw [hequal] at h
        cases same with
        | true => exact eq_stackOverflow_of_equalItems h
        | false => exact nomatch h
    | error other =>
        rw [hequal] at h
        obtain rfl := Except.error.inj h
        exact eq_stackOverflow_of_equal hequal
  | [], _, h => nomatch h
  | _ :: _, [], h => nomatch h

end

end Value

/-! ## Calls of builtins -/

namespace Eval

variable {α β : Type} {Q : α → Prop} {R : β → Prop} {E : Fault → Prop}

/-- A computation whose results have a property, and its faults another. -/
structure IsSafe (Q : α → Prop) (E : Fault → Prop) (x : Eval α) : Prop where
  result : ∀ s a s', x.run s = .ok a s' → Q a
  fault : ∀ s fault s', x.run s = .error fault s' → E fault

namespace IsSafe

theorem of_run_ok {x : Eval α} {f : Store → α} {g : Store → Store}
    (hrun : ∀ s, x.run s = .ok (f s) (g s)) (h : ∀ s, Q (f s)) : IsSafe Q E x := by
  constructor
  · intro s a s' ha
    rw [hrun s] at ha
    obtain ⟨rfl, -⟩ := EStateM.Result.ok.inj ha
    exact h s
  · intro s fault s' hfault
    rw [hrun s] at hfault
    exact nomatch hfault

theorem pure {a : α} (h : Q a) : IsSafe Q E (Pure.pure a : Eval α) :=
  of_run_ok (fun _ => rfl) fun _ => h

theorem throw {fault : Fault} (h : E fault) :
    IsSafe Q E (MonadExcept.throw fault : Eval α) := by
  constructor
  · intro s a s' ha
    exact nomatch ha
  · intro s other s' hother
    obtain ⟨rfl, -⟩ := EStateM.Result.error.inj hother
    exact h

theorem lift {x : Except Fault α} (hok : ∀ a, x = .ok a → Q a)
    (herror : ∀ fault, x = .error fault → E fault) : IsSafe Q E (liftM x : Eval α) := by
  cases x with
  | ok a => exact .pure (hok a rfl)
  | error fault => exact .throw (herror fault rfl)

theorem bind {x : Eval α} {f : α → Eval β} (hx : IsSafe Q E x) (hf : ∀ a, Q a → IsSafe R E (f a)) :
    IsSafe R E (x >>= f) := by
  constructor
  · intro s b s' hb
    rw [EStateM.run_bind] at hb
    cases hrun : x.run s with
    | ok a s₁ =>
        rw [hrun] at hb
        exact (hf a (hx.result s a s₁ hrun)).result s₁ b s' hb
    | error fault s₁ =>
        rw [hrun] at hb
        exact nomatch hb
  · intro s fault s' hfault
    rw [EStateM.run_bind] at hfault
    cases hrun : x.run s with
    | ok a s₁ =>
        rw [hrun] at hfault
        exact (hf a (hx.result s a s₁ hrun)).fault s₁ fault s' hfault
    | error other s₁ =>
        rw [hrun] at hfault
        obtain ⟨rfl, -⟩ := EStateM.Result.error.inj hfault
        exact hx.fault s other s₁ hrun

end IsSafe

end Eval

namespace Builtin

open Eval

/-- Kinds of values for calls of builtins with `room` levels to spare: what is made of values of
    the one kind is of the other, and printing or comparing them fails only in the ways that a
    call may fail in. -/
structure SuitsWithin (room : Nat) (P Q : Value → Prop) (E : Fault → Prop) : Prop where
  nil : Q .nil
  bool (b : Bool) : Q (.bool b)
  int (n : Int) : Q (.int n)
  list (serial : Option Serial) {items : List Value} : (∀ v ∈ items, P v) → Q (.list serial items)
  unprinted {v : Value} {fault : Fault} : P v → v.checkText room = .error fault → E fault
  incomparable {x y : Value} {fault : Fault} : P x → P y → x.equal room y = .error fault → E fault
  refused {cause : LispError} : (∀ shown, cause ≠ .invalidSymbol shown) → E (.error cause)

namespace SuitsWithin

variable {room : Nat} {P Q : Value → Prop} {E : Fault → Prop} (hP : SuitsWithin room P Q E)
  {x y : Value}
include hP

/-- A failure whose message shows a value. -/
theorem isSafe_failShowing {α : Type} {R : α → Prop} (hx : P x)
    {cause : String → LispError} (hcause : ∀ text shown, cause text ≠ .invalidSymbol shown) :
    IsSafe R E (liftM (x.print room) >>= fun shown => fail (cause shown) : Eval α) := by
  have hprint : IsSafe (fun _ => True) E (liftM (x.print room) : Eval String) :=
    .lift (fun _ _ => trivial) fun _ h => hP.unprinted hx (Value.checkText_eq_error_of_print h)
  exact hprint.bind fun shown _ => .throw (hP.refused (hcause shown))

theorem isSafe_operands (b : Builtin) (hx : P x) (hy : P y) :
    IsSafe (fun _ => True) E (operands room b x y) := by
  unfold operands
  split
  · exact .pure trivial
  · exact hP.isSafe_failShowing hy fun _ _ => nofun
  · exact hP.isSafe_failShowing hx fun _ _ => nofun

theorem isSafe_arithmetic (b : Builtin) (op : Int → Int → Int) (hx : P x)
    (hy : P y) : IsSafe Q E (arithmetic room b op x y) :=
  (hP.isSafe_operands b hx hy).bind fun _ _ => .pure (hP.int _)

theorem isSafe_comparison (b : Builtin) (holds : Int → Int → Bool)
    (hx : P x) (hy : P y) : IsSafe Q E (comparison room b holds x y) :=
  (hP.isSafe_operands b hx hy).bind fun _ _ => .pure (hP.bool _)

theorem isSafe_division (hx : P x) (hy : P y) :
    IsSafe Q E (division room x y) := by
  refine (hP.isSafe_operands .div hx hy).bind fun (m, k) _ => ?_
  by_cases hzero : k = 0
  · simp only [if_pos hzero]
    exact .throw (hP.refused fun _ => nofun)
  · simp only [if_neg hzero]
    exact .pure (hP.int _)

/-- A builtin makes values of the one kind of values of the other. -/
theorem isSafe_call {b : Builtin} (hb : b = .interrupt → E .interrupted)
    {args : List Value} (hargs : ∀ v ∈ args, P v) : IsSafe Q E (b.call room args) := by
  rw [call]
  split
  case isFalse => exact .throw (hP.refused fun _ => nofun)
  case isTrue hcount =>
    cases b with
    | add | sub | mul =>
        obtain ⟨x, y, rfl⟩ := List.length_eq_two.mp hcount
        exact hP.isSafe_arithmetic _ _ (hargs x (by simp)) (hargs y (by simp))
    | div =>
        obtain ⟨x, y, rfl⟩ := List.length_eq_two.mp hcount
        exact hP.isSafe_division (hargs x (by simp)) (hargs y (by simp))
    | less | lessEq | greater | greaterEq =>
        obtain ⟨x, y, rfl⟩ := List.length_eq_two.mp hcount
        rw [compute]
        exact hP.isSafe_comparison _ _ (hargs x (by simp)) (hargs y (by simp))
    | equal =>
        obtain ⟨x, y, rfl⟩ := List.length_eq_two.mp hcount
        have hequal : IsSafe (fun _ => True) E (liftM (x.equal room y) : Eval Bool) :=
          .lift (fun _ _ => trivial) fun _ h =>
            hP.incomparable (hargs x (by simp)) (hargs y (by simp)) h
        exact hequal.bind fun _ _ => .pure (hP.bool _)
    | list => exact .of_run_ok (fun _ => rfl) fun _ => hP.list _ hargs
    | isList =>
        obtain ⟨x, rfl⟩ := List.length_eq_one_iff.mp hcount
        cases x <;> exact .pure (hP.bool _)
    | isEmpty =>
        obtain ⟨x, rfl⟩ := List.length_eq_one_iff.mp hcount
        have hx := hargs x List.mem_cons_self
        have hfail : IsSafe Q E (liftM (x.print room) >>= fun shown =>
            fail (.notList .isEmpty shown) : Eval Value) :=
          hP.isSafe_failShowing hx fun _ _ => nofun
        cases x with
        | list serial items => exact .pure (hP.bool _)
        | _ =>
            simp only [compute]
            exact hfail
    | count =>
        obtain ⟨x, rfl⟩ := List.length_eq_one_iff.mp hcount
        have hx := hargs x List.mem_cons_self
        have hfail : IsSafe Q E (liftM (x.print room) >>= fun shown =>
            fail (.notList .count shown) : Eval Value) :=
          hP.isSafe_failShowing hx fun _ _ => nofun
        cases x with
        | nil | list => exact .pure (hP.int _)
        | _ =>
            simp only [compute]
            exact hfail
    | prn =>
        obtain ⟨x, rfl⟩ := List.length_eq_one_iff.mp hcount
        have hx := hargs x List.mem_cons_self
        have hcheck : IsSafe (fun _ => True) E (liftM (x.checkText room) : Eval Unit) :=
          .lift (fun _ _ => trivial) fun _ h => hP.unprinted hx h
        exact hcheck.bind fun _ _ => .of_run_ok (fun _ => rfl) fun _ => hP.nil
    | interrupt =>
        obtain rfl := List.eq_nil_of_length_eq_zero hcount
        exact .throw (hb rfl)

end SuitsWithin

/-- A kind of values for calls of builtins: what is made of such values is one, and printing one
    fails only in the ways that a call may fail in. -/
structure Suits (P : Value → Prop) (E : Fault → Prop) : Prop where
  nil : P .nil
  bool (b : Bool) : P (.bool b)
  int (n : Int) : P (.int n)
  list (serial : Option Serial) {items : List Value} : (∀ v ∈ items, P v) → P (.list serial items)
  unprinted {v : Value} {room : Nat} {fault : Fault} : P v → v.checkText room = .error fault →
    E fault
  refused {cause : LispError} : (∀ shown, cause ≠ .invalidSymbol shown) → E (.error cause)
  stackOverflow : E .stackOverflow

namespace Suits

variable {P : Value → Prop} {E : Fault → Prop} (hP : Suits P E)
include hP

/-- Such a kind does for any room: whatever the room, nothing but depth keeps values from being
    compared. -/
theorem within (room : Nat) : SuitsWithin room P P E where
  nil := hP.nil
  bool := hP.bool
  int := hP.int
  list := hP.list
  unprinted := hP.unprinted
  incomparable _ _ h := by
    obtain rfl := Value.eq_stackOverflow_of_equal h
    exact hP.stackOverflow
  refused := hP.refused

/-- A builtin makes values of the kind of values of the kind. -/
theorem isSafe_call (room : Nat) {b : Builtin} (hb : b = .interrupt → E .interrupted)
    {args : List Value} (hargs : ∀ v ∈ args, P v) : IsSafe P E (b.call room args) :=
  (hP.within room).isSafe_call hb hargs

end Suits

/-- Clean values suit the builtins. -/
theorem suits_isClean (n : Nat) : Suits (Value.IsClean n) Fault.IsOrdinary where
  nil := .nil
  bool := .bool
  int := .int
  list serial := .list serial
  unprinted hv h := hv.isOrdinary_of_checkText h
  refused {cause} h := by
    cases cause with
    | invalidSymbol shown => exact absurd rfl (h shown)
    | _ => trivial
  stackOverflow := trivial

/-- A builtin of the table makes clean values of clean values. -/
theorem isSafe_call {n : Nat} (room : Nat) {b : Builtin} (hb : b ∈ table) {args : List Value}
    (hargs : ∀ v ∈ args, v.IsClean n) :
    IsSafe (Value.IsClean n) Fault.IsOrdinary (b.call room args) := by
  refine (suits_isClean n).isSafe_call room ?_ hargs
  rintro rfl
  exact absurd hb (by decide)

end Builtin

/-! ## Reading -/

/-- A result with a property, or an ordinary fault. -/
def OrdinaryOr {α : Type} (Q : α → Prop) : Except Fault α → Prop
  | .ok a => Q a
  | .error fault => fault.IsOrdinary

theorem OrdinaryOr.map {α β : Type} {Q : α → Prop} {R : β → Prop} {f : α → β}
    {x : Except Fault α} (h : OrdinaryOr Q x) (hf : ∀ a, Q a → R (f a)) :
    OrdinaryOr R (x.map f) := by
  cases x with
  | ok a => exact hf a h
  | error fault => exact h

namespace Token

/-- What a word may be read as. -/
inductive WordReads (word : String) : Value → Prop where
  | nil : WordReads word .nil
  | bool (b : Bool) : WordReads word (.bool b)
  | int (n : Int) : WordReads word (.int n)
  | sym : word ∉ ["nil", "true", "false"] → Decimal.split? word.toList = none →
      WordReads word (.sym word)

/-- A word is read as such a value, or is too long a number. -/
theorem ordinaryOr_readWord (word : String) : OrdinaryOr (WordReads word) (readWord word) := by
  rw [readWord]
  split_ifs with hnil htrue hfalse
  · exact WordReads.nil
  · exact WordReads.bool true
  · exact WordReads.bool false
  · cases hnumber : Decimal.split? word.toList with
    | none =>
        refine WordReads.sym ?_ hnumber
        simp only [List.mem_cons, List.not_mem_nil, or_false, not_or]
        exact ⟨hnil, htrue, hfalse⟩
    | some number =>
        obtain ⟨negative, digits⟩ := number
        by_cases hdigits : digits.length ≤ Decimal.maxDigits
        · simp only [if_pos hdigits]
          exact WordReads.int _
        · simp only [if_neg hdigits]
          trivial

/-- A string token is read as a string, or is no literal. -/
theorem ordinaryOr_readString (literal : String) :
    OrdinaryOr (fun v => ∃ text, v = .str text) (readString literal) := by
  have hdecode : OrdinaryOr (fun _ => True) (StringLiteral.decode literal.toList) := by
    cases hcase : StringLiteral.decode literal.toList with
    | ok text => trivial
    | error fault =>
        obtain ⟨cause, rfl⟩ := StringLiteral.decode_fault hcase
        trivial
  exact hdecode.map fun _ _ => ⟨_, rfl⟩

/-- A property of the atom that a token brings into the list being read. -/
def Role.Holds (P : Value → Prop) : Role → Prop
  | .atom v => P v
  | .opens | .closes => True

/-- What a token is read as, whatever it was cut from. -/
theorem ordinaryOr_role (token : Token) : OrdinaryOr (Role.Holds Value.IsRead) token.role := by
  rw [role]
  cases token.kind with
  | opening | closing | other name => trivial
  | symbol =>
      refine (ordinaryOr_readWord token.text).map fun v hv => ?_
      cases hv with
      | nil => exact Value.IsRead.nil
      | bool b => exact Value.IsRead.bool b
      | int n => exact Value.IsRead.int n
      | sym => exact Value.IsRead.sym _
  | string =>
      refine (ordinaryOr_readString token.text).map ?_
      rintro v ⟨text, rfl⟩
      exact Value.IsRead.str text

end Token

namespace Value

/-- What is left behind a form is the end of the tokens. -/
theorem readFrom_suffix (limit : Nat) (stack : List (List Value)) (tokens : List Token) :
    (readFrom limit stack tokens).2 <:+ tokens := by
  fun_induction readFrom limit stack tokens with
  | case1 | case2 => exact List.suffix_rfl
  | case3 | case5 | case6 | case7 | case9 => exact List.suffix_cons _ _
  | case4 stack token rest hrole hdepth ih => exact ih.trans (List.suffix_cons _ _)
  | case8 token rest hrole items outer stack ih => exact ih.trans (List.suffix_cons _ _)
  | case10 token rest value hrole items stack ih => exact ih.trans (List.suffix_cons _ _)

theorem suffix_of_readForm {limit : Nat} {tokens rest : List Token}
    {read : Except Fault (Option Value)} (h : readForm limit tokens = (read, rest)) :
    rest <:+ tokens := by
  have hsuffix := readFrom_suffix limit [] tokens
  rwa [← readForm, h] at hsuffix

section Closed

variable {P : Value → Prop} (hlist : ∀ items, (∀ v ∈ items, P v) → P (.list none items))
include hlist

/-- A property that lists have from their items is had by all forms, if it is had by the atoms:
    at any time it holds of everything in the open lists. -/
theorem ordinaryOr_readFrom (limit : Nat) (stack : List (List Value)) (tokens : List Token)
    (htokens : ∀ token ∈ tokens, OrdinaryOr (Token.Role.Holds P) token.role)
    (hstack : ∀ items ∈ stack, ∀ v ∈ items, P v) :
    OrdinaryOr (fun form? => ∀ form ∈ form?, P form) (readFrom limit stack tokens).1 := by
  have hclose : ∀ items : List Value, (∀ v ∈ items, P v) → P (.list none items.reverse) :=
    fun items hitems => hlist _ fun v hv => hitems v (List.mem_reverse.mp hv)
  fun_induction readFrom limit stack tokens with
  | case1 => rintro form ⟨⟩
  | case2 => trivial
  | case3 stack token rest fault hrole =>
      have htoken := htokens token List.mem_cons_self
      rw [hrole] at htoken
      exact htoken
  | case4 stack token rest hrole hdepth ih =>
      obtain ⟨-, hrest⟩ := List.forall_mem_cons.mp htokens
      exact ih hrest (List.forall_mem_cons.mpr ⟨List.forall_mem_nil _, hstack⟩)
  | case5 => trivial
  | case6 => trivial
  | case7 token rest hrole items =>
      rintro form ⟨⟩
      exact hclose items (hstack items List.mem_cons_self)
  | case8 token rest hrole items outer stack ih =>
      -- A list that is closed becomes an item of the one around it.
      obtain ⟨-, hrest⟩ := List.forall_mem_cons.mp htokens
      obtain ⟨hitems, hopen⟩ := List.forall_mem_cons.mp hstack
      obtain ⟨houter, hstack⟩ := List.forall_mem_cons.mp hopen
      refine ih hrest (List.forall_mem_cons.mpr ⟨?_, hstack⟩)
      exact List.forall_mem_cons.mpr ⟨hclose items hitems, houter⟩
  | case9 token rest value hrole =>
      have htoken := htokens token List.mem_cons_self
      rw [hrole] at htoken
      rintro form ⟨⟩
      exact htoken
  | case10 token rest value hrole items stack ih =>
      -- An atom becomes an item of the innermost open list.
      obtain ⟨htoken, hrest⟩ := List.forall_mem_cons.mp htokens
      rw [hrole] at htoken
      obtain ⟨hitems, hstack⟩ := List.forall_mem_cons.mp hstack
      refine ih hrest (List.forall_mem_cons.mpr ⟨?_, hstack⟩)
      exact List.forall_mem_cons.mpr ⟨htoken, hitems⟩

/-- The same for all forms of a text. -/
theorem ordinaryOr_readForms (limit : Nat) (tokens : List Token)
    (htokens : ∀ token ∈ tokens, OrdinaryOr (Token.Role.Holds P) token.role) :
    OrdinaryOr (fun forms => ∀ form ∈ forms, P form) (readForms limit tokens).1 := by
  induction tokens using readForm_induct limit with
  | failed tokens fault rest hread =>
      have hform := ordinaryOr_readFrom hlist limit [] tokens htokens (List.forall_mem_nil _)
      rw [readForms_of_error hread]
      rw [← readForm, hread] at hform
      exact hform
  | ended tokens rest hread =>
      rw [readForms_of_none hread]
      exact List.forall_mem_nil _
  | form tokens form rest hread ih =>
      have hform := ordinaryOr_readFrom hlist limit [] tokens htokens (List.forall_mem_nil _)
      have hsuffix := suffix_of_readForm hread
      rw [readForms_of_some hread]
      rw [← readForm, hread] at hform
      have hrest := ih fun token hmem => htokens token (hsuffix.subset hmem)
      refine hrest.map fun forms hforms => ?_
      exact List.forall_mem_cons.mpr ⟨hform form rfl, hforms⟩

end Closed

/-- **What is read** is made of reader values, and only the text can be at fault otherwise. -/
theorem ordinaryOr_readForm (limit : Nat) (tokens : List Token) :
    OrdinaryOr (fun form? => ∀ form ∈ form?, form.IsRead) (readForm limit tokens).1 :=
  ordinaryOr_readFrom (fun _ => .list) limit [] tokens (fun token _ => token.ordinaryOr_role)
    (List.forall_mem_nil _)

end Value

end TailLisp
