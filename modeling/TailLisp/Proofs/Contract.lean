import TailLisp.Proofs.Alikeness
import TailLisp.Proofs.Domestic
import TailLisp.Proofs.Journal
import TailLisp.Proofs.LambdaFree

/-! # The contract of the builtins — what they give and what they refuse

    A builtin judges the number of its arguments, then their kinds from the left, then a divisor.
    What it says about each list of arguments is stated here without its code: which value it gives
    and which store it leaves, or which fault it ends with.  A message that shows a value can itself
    fail, for an integer that is too long to be written.

    * **`Value.HasLongInteger`** — what keeps a value within the levels from being printed.
    * **`Builtin.Gives`** and **`Builtin.Refuses`** — the contract, one rule for each kind of answer.
    * **`Builtin.run_of_documented`** and **`Builtin.exists_documented`** — calls keep to it, and it
      leaves no list of arguments out.
    * **`builtins_fail_only_as_documented`** — so a call answers exactly what the contract says. -/

namespace TailLisp

/-! ## Values that are too long to be printed -/

namespace Value

/-- A value of the language that is nested no deeper than there are levels. -/
structure IsWithin (room : Nat) (v : Value) : Prop where
  domestic : v.IsDomestic
  height : v.height ≤ room

theorem IsWithin.atom {v : Value} {room : Nat} (hatom : v.IsAtom) (hnative : v.IsNative) :
    v.IsWithin room := by
  refine ⟨.atom hatom hnative, ?_⟩
  cases v with
  | list => exact hatom.elim
  | _ => exact Nat.zero_le room

/-- An integer in a value, at any depth of lists, has more digits than are written. -/
inductive HasLongInteger : Value → Prop where
  | int {n : Int} : Decimal.maxDigits < (Decimal.ofNat n.natAbs).length → HasLongInteger (.int n)
  | item {serial : Option Serial} {items : List Value} {v : Value} : v ∈ items →
      HasLongInteger v → HasLongInteger (.list serial items)

section Printing

variable {v : Value} {room : Nat}

theorem hasLongInteger_of_checkText (h : v.checkText room = .error .digitLimit) :
    v.HasLongInteger := by
  induction v using Value.induct generalizing room with
  | int n =>
      rw [checkText] at h
      by_cases hn : Decimal.isWritable n = true
      · rw [if_pos hn] at h
        cases h
      · exact .int (Nat.lt_of_not_le (mt (Decimal.isWritable_iff n).mpr hn))
  | list serial items ih =>
      cases room with
      | zero => cases h
      | succ room =>
          obtain ⟨item, hmem, hitem⟩ := exists_of_checkTextItems h
          exact .item hmem (ih item hmem hitem)
  | nil | bool | str | sym | builtin | closure | foreign => cases h

theorem not_hasLongInteger_of_checkText (h : v.checkText room = .ok ()) : ¬ v.HasLongInteger := by
  intro hlong
  induction hlong generalizing room with
  | @int n hdigits =>
      have hn : ¬ Decimal.isWritable n = true :=
        mt (Decimal.isWritable_iff n).mp (Nat.not_le_of_lt hdigits)
      rw [checkText, if_neg hn] at h
      cases h
  | item hmem _ ih =>
      cases room with
      | zero => cases h
      | succ room => exact ih (checkText_of_checkTextItems h _ hmem)

/-- Only a long integer keeps a value of the language within the levels from being printed. -/
theorem IsWithin.checkText_cases (hv : v.IsWithin room) :
    (¬ v.HasLongInteger ∧ v.checkText room = .ok ()) ∨
      (v.HasLongInteger ∧ v.checkText room = .error .digitLimit) := by
  cases hcheck : v.checkText room with
  | ok u => exact .inl ⟨not_hasLongInteger_of_checkText hcheck, rfl⟩
  | error fault =>
      cases unprintable_of_checkText hcheck with
      | depth => exact absurd (lt_height_of_checkText hcheck) (Nat.not_lt_of_le hv.height)
      | digits => exact .inr ⟨hasLongInteger_of_checkText hcheck, rfl⟩
      | foreign hpart => exact (hv.domestic _ hpart).elim

theorem IsWithin.checkText_of_short (hv : v.IsWithin room) (h : ¬ v.HasLongInteger) :
    v.checkText room = .ok () := by
  rcases hv.checkText_cases with ⟨-, hcheck⟩ | ⟨hlong, -⟩
  · exact hcheck
  · exact absurd hlong h

theorem IsWithin.checkText_of_long (hv : v.IsWithin room) (h : v.HasLongInteger) :
    v.checkText room = .error .digitLimit := by
  rcases hv.checkText_cases with ⟨hshort, -⟩ | ⟨-, hcheck⟩
  · exact absurd h hshort
  · exact hcheck

end Printing

/-- A list, whatever is in it. -/
def IsList : Value → Prop
  | .list .. => True
  | _ => False

theorem IsList.exists_eq {v : Value} (h : v.IsList) : ∃ serial items, v = .list serial items := by
  cases v with
  | list serial items => exact ⟨serial, items, rfl⟩
  | _ => exact h.elim

theorem exists_int_of_isInteger {v : Value} (h : v.isInteger = true) : ∃ n, v = .int n := by
  cases v with
  | int n => exact ⟨n, rfl⟩
  | _ => cases h

end Value

/-! ## The contract -/

namespace Builtin

/-- The builtins that calculate with two integers or compare them. -/
def integerBuiltins : List Builtin :=
  [.add, .sub, .mul, .div, .less, .lessEq, .greater, .greaterEq]

/-- A builtin takes a fixed number of arguments, and gets another one. -/
def Miscounts (b : Builtin) (args : List Value) : Prop :=
  ∃ n, b.arity = .exactly n ∧ args.length ≠ n

/-- At a position stands the first argument that is no integer. -/
structure FirstNonInteger (args : List Value) (i : Nat) (x : Value) : Prop where
  here : args[i]? = some x
  notInteger : x.isInteger = false
  before : ∀ j < i, ∀ y, args[j]? = some y → y.isInteger = true

theorem FirstNonInteger.first {x : Value} (hx : x.isInteger = false) (rest : List Value) :
    FirstNonInteger (x :: rest) 0 x :=
  ⟨rfl, hx, fun _ hj => absurd hj (Nat.not_lt_zero _)⟩

theorem FirstNonInteger.second {x y : Value} (hx : x.isInteger = true) (hy : y.isInteger = false) :
    FirstNonInteger [x, y] 1 y := by
  refine ⟨rfl, hy, fun j hj z hz => ?_⟩
  obtain rfl : j = 0 := Nat.lt_one_iff.mp hj
  obtain rfl := Option.some.inj hz
  exact hx

/-- A failure with a message that shows a value: there is no message if the value has a long
    integer. -/
inductive Shows (x : Value) (cause : String → LispError) : Fault → Prop where
  | shown : ¬ x.HasLongInteger → Shows x cause (.error (cause (x.text .readable)))
  | tooLong : x.HasLongInteger → Shows x cause .digitLimit

/-- What a builtin gives for arguments that it takes, and the store that it leaves. -/
inductive Gives (s : Store) : Builtin → List Value → Value → Store → Prop where
  | sum {m n : Int} : Gives s .add [.int m, .int n] (.int (m + n)) s
  | difference {m n : Int} : Gives s .sub [.int m, .int n] (.int (m - n)) s
  | product {m n : Int} : Gives s .mul [.int m, .int n] (.int (m * n)) s
  | quotient {m n : Int} : n ≠ 0 → Gives s .div [.int m, .int n] (.int (m.tdiv n)) s
  | less {m n : Int} : Gives s .less [.int m, .int n] (.bool (m < n)) s
  | lessEq {m n : Int} : Gives s .lessEq [.int m, .int n] (.bool (m ≤ n)) s
  | greater {m n : Int} : Gives s .greater [.int m, .int n] (.bool (m > n)) s
  | greaterEq {m n : Int} : Gives s .greaterEq [.int m, .int n] (.bool (m ≥ n)) s
  | alike {x y : Value} : Gives s .equal [x, y] (.bool (x.alike y)) s
  | list {items : List Value} : Gives s .list items (.list (some s.nextSerial) items)
      { s with nextSerial := s.nextSerial + 1 }
  | isList {x : Value} : x.IsList → Gives s .isList [x] (.bool true) s
  | isNoList {x : Value} : ¬ x.IsList → Gives s .isList [x] (.bool false) s
  | isEmpty {i : Option Serial} {items : List Value} :
      Gives s .isEmpty [.list i items] (.bool items.isEmpty) s
  | countOfNil : Gives s .count [.nil] (.int 0) s
  | count {i : Option Serial} {items : List Value} :
      Gives s .count [.list i items] (.int items.length) s
  | printed {x : Value} : ¬ x.HasLongInteger → Gives s .prn [x] .nil (s.record x)

/-- How a builtin refuses arguments; the store stays as it was. -/
inductive Refuses : Builtin → List Value → Fault → Prop where
  | miscounted {b : Builtin} {args : List Value} : b.Miscounts args →
      Refuses b args (.error (.arity b.name b.arity args.length))
  | notInteger {b : Builtin} {x y z : Value} {i : Nat} {fault : Fault} : b ∈ integerBuiltins →
      FirstNonInteger [x, y] i z → Shows z (.notInteger b (i + 1)) fault → Refuses b [x, y] fault
  | divisionByZero {m : Int} : Refuses .div [.int m, .int 0] (.error .divisionByZero)
  | notEmptiable {x : Value} {fault : Fault} : ¬ x.IsList →
      Shows x (.notList .isEmpty) fault → Refuses .isEmpty [x] fault
  | notCountable {x : Value} {fault : Fault} : ¬ x.IsList → x ≠ .nil →
      Shows x (.notList .count) fault → Refuses .count [x] fault
  | unprintable {x : Value} : x.HasLongInteger → Refuses .prn [x] .digitLimit

/-- How a call of a builtin may end. -/
inductive Documented (b : Builtin) (args : List Value) (s : Store) : Outcome Value → Prop where
  | gives {v : Value} {s' : Store} : Gives s b args v s' → Documented b args s (.ok v s')
  | refuses {fault : Fault} : Refuses b args fault → Documented b args s (.error fault s)

/-! ## Calls keep to the contract -/

section Calls

open Eval

variable {b : Builtin} {args : List Value} {room : Nat} {s s' : Store} {x y z v : Value} {i : Nat}
  {fault : Fault}

theorem run_of_shows {cause : String → LispError} (h : Shows x cause fault)
    (hx : x.IsWithin room) :
    (liftM (x.print room) >>= fun shown => fail (cause shown) : Eval Value).run s =
      .error fault s := by
  cases h with
  | shown hshort =>
      rw [Value.print, Value.printAs, hx.checkText_of_short hshort]
      rfl
  | tooLong hlong =>
      rw [Value.print, Value.printAs, hx.checkText_of_long hlong]
      rfl

/-- Operands are judged from the left. -/
theorem operands_of_firstNonInteger (b : Builtin) (room : Nat) (h : FirstNonInteger [x, y] i z) :
    operands room b x y =
      liftM (z.print room) >>= fun shown => fail (.notInteger b (i + 1) shown) := by
  obtain ⟨hhere, hnot, hbefore⟩ := h
  match i with
  | 0 =>
      obtain rfl : x = z := Option.some.inj hhere
      cases x with
      | int m => cases hnot
      | _ => rfl
  | 1 =>
      obtain rfl : y = z := Option.some.inj hhere
      have hx := hbefore 0 Nat.zero_lt_one x rfl
      cases x with
      | int m =>
          cases y with
          | int n => cases hnot
          | _ => rfl
      | _ => cases hx
  | i + 2 => cases hhere

theorem call_of_firstNonInteger (hb : b ∈ integerBuiltins) (room : Nat)
    (h : FirstNonInteger [x, y] i z) :
    b.call room [x, y] =
      liftM (z.print room) >>= fun shown => fail (.notInteger b (i + 1) shown) := by
  obtain ⟨f, hcall⟩ : ∃ f, b.call room [x, y] = operands room b x y >>= f := by
    cases b with
    | add | sub | mul | div | less | lessEq | greater | greaterEq => exact ⟨_, rfl⟩
    | _ => exact absurd hb (by decide)
  rw [hcall, operands_of_firstNonInteger b room h, bind_assoc]
  rfl

theorem call_of_miscounts (h : b.Miscounts args) :
    (b.call room args).run s = .error (.error (.arity b.name b.arity args.length)) s := by
  obtain ⟨n, harity, hcount⟩ := h
  rw [call, if_neg]
  · rfl
  · rw [harity]
    exact hcount

theorem run_of_gives (h : Gives s b args v s')
    (hargs : ∀ x ∈ args, x.IsWithin room) : (b.call room args).run s = .ok v s' := by
  cases h with
  | sum | difference | product | less | lessEq | greater | greaterEq => rfl
  | list | isEmpty | countOfNil | count => rfl
  | @quotient m n hn =>
      show (if n = 0 then fail .divisionByZero else pure (.int (quotient m n)) : Eval Value).run s = _
      rw [if_neg hn, quotient_eq_tdiv]
      rfl
  | @alike x y =>
      have hheight := (hargs x List.mem_cons_self).height
      show (liftM (x.equal room y) >>= fun same => pure (.bool same) : Eval Value).run s = _
      rw [Value.equal_eq_alike (.inl hheight)]
      rfl
  | @isList x hx =>
      cases x with
      | list => rfl
      | _ => exact hx.elim
  | @isNoList x hx =>
      cases x with
      | list => exact absurd trivial hx
      | _ => rfl
  | @printed x hshort =>
      have hx := hargs x List.mem_cons_self
      show (liftM (x.checkText room) >>= fun _ => _ : Eval Value).run s = _
      rw [hx.checkText_of_short hshort]
      rfl

theorem run_of_refuses (h : Refuses b args fault)
    (hargs : ∀ x ∈ args, x.IsWithin room) :
    (b.call room args).run s = .error fault s := by
  cases h with
  | miscounted hcount => exact call_of_miscounts hcount
  | notInteger hb hfirst hshows =>
      rw [call_of_firstNonInteger hb room hfirst]
      exact run_of_shows hshows (hargs _ (List.mem_of_getElem? hfirst.here))
  | divisionByZero => rfl
  | @notEmptiable x _ hlist hshows =>
      have hx := hargs x List.mem_cons_self
      rw [← run_of_shows hshows hx]
      cases x with
      | list => exact absurd trivial hlist
      | _ => rfl
  | @notCountable x _ hlist hnil hshows =>
      have hx := hargs x List.mem_cons_self
      rw [← run_of_shows hshows hx]
      cases x with
      | nil => exact absurd rfl hnil
      | list => exact absurd trivial hlist
      | _ => rfl
  | @unprintable x hlong =>
      have hx := hargs x List.mem_cons_self
      show (liftM (x.checkText room) >>= fun _ => _ : Eval Value).run s = _
      rw [hx.checkText_of_long hlong]
      rfl

/-- A call of a builtin ends as the contract says, if its arguments are values of the language
    within the levels. -/
theorem run_of_documented {o : Outcome Value} (h : Documented b args s o)
    (hargs : ∀ x ∈ args, x.IsWithin room) : (b.call room args).run s = o := by
  cases h with
  | gives hgives => exact run_of_gives hgives hargs
  | refuses hrefuses => exact run_of_refuses hrefuses hargs

/-- No call of a builtin looks beyond the end of its arguments. -/
theorem isSafe_call_outOfRange (room : Nat) (b : Builtin) (args : List Value) :
    IsSafe (fun _ => True) (· ≠ .outOfRange) (b.call room args) := by
  have hunprinted : ∀ {v : Value} {room : Nat} {fault : Fault}, True →
      v.checkText room = .error fault → fault ≠ .outOfRange := by
    intro v room fault _ hcheck
    cases Value.unprintable_of_checkText hcheck <;> nofun
  have hsuits : Suits (fun _ => True) (· ≠ .outOfRange) :=
    ⟨trivial, fun _ => trivial, fun _ => trivial, fun _ _ _ => trivial, hunprinted, fun _ => nofun,
      nofun⟩
  exact hsuits.isSafe_call room (fun _ => nofun) fun _ _ => trivial

end Calls

/-! ## The contract leaves nothing out -/

section Totality

variable {b : Builtin} {args : List Value}

theorem exists_shows (x : Value) (cause : String → LispError) : ∃ fault, Shows x cause fault := by
  by_cases hlong : x.HasLongInteger
  · exact ⟨_, .tooLong hlong⟩
  · exact ⟨_, .shown hlong⟩

/-- Two integers are calculated with, but for a divisor that is zero. -/
theorem exists_documented_of_integers (hb : b ∈ integerBuiltins) (m n : Int) (s : Store) :
    ∃ o, Documented b [.int m, .int n] s o := by
  cases b with
  | add => exact ⟨_, .gives .sum⟩
  | sub => exact ⟨_, .gives .difference⟩
  | mul => exact ⟨_, .gives .product⟩
  | div =>
      by_cases hn : n = 0
      · subst hn
        exact ⟨_, .refuses .divisionByZero⟩
      · exact ⟨_, .gives (.quotient hn)⟩
  | less => exact ⟨_, .gives .less⟩
  | lessEq => exact ⟨_, .gives .lessEq⟩
  | greater => exact ⟨_, .gives .greater⟩
  | greaterEq => exact ⟨_, .gives .greaterEq⟩
  | _ => exact absurd hb (by decide)

/-- Of two arguments, the first one that is no integer is refused. -/
theorem exists_documented_of_pair (hb : b ∈ integerBuiltins) (x y : Value) (s : Store) :
    ∃ o, Documented b [x, y] s o := by
  have hrefused : ∀ i z, FirstNonInteger [x, y] i z → ∃ o, Documented b [x, y] s o := by
    intro i z hfirst
    obtain ⟨fault, hshows⟩ := exists_shows z (.notInteger b (i + 1))
    exact ⟨_, .refuses (.notInteger hb hfirst hshows)⟩
  by_cases hx : x.isInteger = true
  · by_cases hy : y.isInteger = true
    · obtain ⟨m, rfl⟩ := Value.exists_int_of_isInteger hx
      obtain ⟨n, rfl⟩ := Value.exists_int_of_isInteger hy
      exact exists_documented_of_integers hb m n s
    · exact hrefused 1 y (.second hx (eq_false_of_ne_true hy))
  · exact hrefused 0 x (.first (eq_false_of_ne_true hx) [y])

/-- Whatever a builtin is called with, the contract says how the call ends. -/
theorem exists_documented (hb : b ∈ table) (args : List Value) (s : Store) :
    ∃ o, Documented b args s o := by
  by_cases hcount : b.Miscounts args
  · exact ⟨_, .refuses (.miscounted hcount)⟩
  -- The number of arguments is right, so their kinds decide.
  have hlength : ∀ n, b.arity = .exactly n → args.length = n := by
    intro n harity
    by_contra hother
    exact hcount ⟨n, harity, hother⟩
  cases b with
  | add | sub | mul | div | less | lessEq | greater | greaterEq =>
      obtain ⟨x, y, rfl⟩ := List.length_eq_two.mp (hlength 2 rfl)
      exact exists_documented_of_pair (by decide) x y s
  | equal =>
      obtain ⟨x, y, rfl⟩ := List.length_eq_two.mp (hlength 2 rfl)
      exact ⟨_, .gives .alike⟩
  | list => exact ⟨_, .gives .list⟩
  | isList =>
      obtain ⟨x, rfl⟩ := List.length_eq_one_iff.mp (hlength 1 rfl)
      by_cases hx : x.IsList
      · exact ⟨_, .gives (.isList hx)⟩
      · exact ⟨_, .gives (.isNoList hx)⟩
  | isEmpty =>
      obtain ⟨x, rfl⟩ := List.length_eq_one_iff.mp (hlength 1 rfl)
      by_cases hx : x.IsList
      · obtain ⟨i, items, rfl⟩ := hx.exists_eq
        exact ⟨_, .gives .isEmpty⟩
      · obtain ⟨fault, hshows⟩ := exists_shows x (.notList .isEmpty)
        exact ⟨_, .refuses (.notEmptiable hx hshows)⟩
  | count =>
      obtain ⟨x, rfl⟩ := List.length_eq_one_iff.mp (hlength 1 rfl)
      by_cases hnil : x = .nil
      · subst hnil
        exact ⟨_, .gives .countOfNil⟩
      by_cases hx : x.IsList
      · obtain ⟨i, items, rfl⟩ := hx.exists_eq
        exact ⟨_, .gives .count⟩
      · obtain ⟨fault, hshows⟩ := exists_shows x (.notList .count)
        exact ⟨_, .refuses (.notCountable hx hnil hshows)⟩
  | prn =>
      obtain ⟨x, rfl⟩ := List.length_eq_one_iff.mp (hlength 1 rfl)
      by_cases hlong : x.HasLongInteger
      · exact ⟨_, .refuses (.unprintable hlong)⟩
      · exact ⟨_, .gives (.printed hlong)⟩
  | interrupt => exact absurd hb (by decide)

end Totality

end Builtin

open Builtin

/-- **Builtins fail only as documented.**  They never look beyond the end of their arguments, and
    only `prn` prints.  A wrong number of arguments is refused before any of them is looked at.  For
    values of the language within the levels, a call ends in just the way that the contract says:
    with the wrong number only if it is wrong, and with a division by zero only if two integers are
    divided and the second is zero. -/
theorem builtins_fail_only_as_documented {b : Builtin} (hb : b ∈ table) (room : Nat)
    (args : List Value) (s : Store) :
    (∀ s', (b.call room args).run s ≠ .error .outOfRange s') ∧
      (b ≠ .prn → ((b.call room args).after s).printed = s.printed) ∧
      (b.Miscounts args →
        (b.call room args).run s = .error (.error (.arity b.name b.arity args.length)) s) ∧
      ((∀ x ∈ args, x.IsWithin room) →
        (∀ o, (b.call room args).run s = o ↔ Documented b args s o) ∧
        (∀ callee takes got s', (b.call room args).run s =
          .error (.error (.arity callee takes got)) s' → b.Miscounts args) ∧
        ∀ s', (b.call room args).run s = .error (.error .divisionByZero) s' ↔
          b = .div ∧ (∃ m, args = [.int m, .int 0]) ∧ s' = s) := by
  refine ⟨?_, fun hprn => printed_call room args s hprn, call_of_miscounts, fun hargs => ?_⟩
  · intro s' hrun
    exact (isSafe_call_outOfRange room b args).fault s .outOfRange s' hrun rfl
  have hdocumented : ∀ o, (b.call room args).run s = o ↔ Documented b args s o := by
    intro o
    constructor
    · rintro rfl
      obtain ⟨o, ho⟩ := exists_documented hb args s
      rwa [run_of_documented ho hargs]
    · exact fun ho => run_of_documented ho hargs
  refine ⟨hdocumented, ?_, ?_⟩
  · intro callee takes got s' hrun
    cases (hdocumented _).mp hrun with
    | refuses hrefuses =>
        cases hrefuses with
        | miscounted hcount => exact hcount
        | notInteger _ _ hshows | notEmptiable _ hshows | notCountable _ _ hshows => cases hshows
  · intro s'
    constructor
    · intro hrun
      cases (hdocumented _).mp hrun with
      | refuses hrefuses =>
          cases hrefuses with
          | divisionByZero => exact ⟨rfl, ⟨_, rfl⟩, rfl⟩
          | notInteger _ _ hshows | notEmptiable _ hshows | notCountable _ _ hshows => cases hshows
    · rintro ⟨rfl, ⟨m, rfl⟩, rfl⟩
      rfl

/-- A truth value is no integer, and the first integer with too many digits is not printed. -/
theorem builtins_fail_only_as_documented_of_atoms :
    (Builtin.less ∈ table ∧ (∀ x ∈ [Value.int 1, .bool true], x.IsWithin 0) ∧
      (Builtin.less.call 0 [.int 1, .bool true]).run .initial =
        .error (.error (.notInteger .less 2 "true")) .initial) ∧
    (Builtin.prn ∈ table ∧ (∀ x ∈ [Value.int Decimal.bound], x.IsWithin 0) ∧
      (Builtin.prn.call 0 [.int Decimal.bound]).run .initial = .error .digitLimit .initial) := by
  have hint : ∀ n, (Value.int n).IsWithin 0 := fun n => .atom trivial trivial
  have hbool : (Value.bool true).IsWithin 0 := .atom trivial trivial
  have hless : ∀ x ∈ [Value.int 1, .bool true], x.IsWithin 0 :=
    List.forall_mem_cons.mpr ⟨hint 1, List.forall_mem_singleton.mpr hbool⟩
  have hprn : ∀ x ∈ [Value.int Decimal.bound], x.IsWithin 0 :=
    List.forall_mem_singleton.mpr (hint _)
  refine ⟨⟨by decide, hless, ?_⟩, ⟨by decide, hprn, ?_⟩⟩
  · obtain ⟨-, -, -, hcontract⟩ :=
      builtins_fail_only_as_documented (b := .less) (by decide) 0 [.int 1, .bool true] .initial
    have hfirst : FirstNonInteger [.int 1, .bool true] 1 (.bool true) := .second rfl rfl
    exact ((hcontract hless).1 _).mpr (.refuses (.notInteger (by decide) hfirst (.shown nofun)))
  · obtain ⟨-, -, -, hcontract⟩ :=
      builtins_fail_only_as_documented (b := .prn) (by decide) 0 [.int Decimal.bound] .initial
    have hbound : ¬ Decimal.isWritable Decimal.bound = true := by
      rw [Decimal.isWritable, decide_eq_true_iff, Int.natAbs_natCast]
      exact Nat.lt_irrefl Decimal.bound
    have hlong : (Value.int Decimal.bound).HasLongInteger :=
      .int (Nat.lt_of_not_le (mt (Decimal.isWritable_iff _).mpr hbound))
    exact ((hcontract hprn).1 _).mpr (.refuses (.unprintable hlong))

end TailLisp
