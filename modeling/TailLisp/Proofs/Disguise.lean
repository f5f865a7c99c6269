import TailLisp.Proofs.Parts

/-! # Disguises — other values that look the same

    A program sees of a closure that it is a function, and whether it is the same as another
    one; of a list it sees the items, and whether it was built by the same call as another one.
    So values may be exchanged for others in which serial numbers, and anything in closures, are
    different.  Texts, truth, equality and what builtins compute stay the same, as long as
    different values stay different.

    * **`Value.Resembles`** — what may be put for a value without a difference in texts.
    * **`Value.Looks`** — what a value may look like in a disguise, by its kind.
    * **`Disguise`** — an exchange of values, with the values that it fits.
    * **`Disguise.call_map`** — a builtin that neither prints nor makes a list computes the same.
    * **`Bindings.recast`** — bindings of values in a disguise, maybe under other names. -/

namespace TailLisp

/-! ## Texts -/

/-- What a value may be exchanged for without a difference in texts, if `value` is done to the
    items of a list. -/
inductive Value.Resembles (value : Value → Value) : Value → Value → Prop where
  | atom {v : Value} : v.IsAtom → Resembles value v v
  | list (i j : Option Serial) (items : List Value) :
      Resembles value (.list i items) (.list j (items.map value))
  | closure {i i' : Serial} {params params' : List String} {body body' : Value}
      {home home' : FrameId} :
      Resembles value (.closure i params body home) (.closure i' params' body' home')

namespace Value

section Resembles

variable {value : Value → Value}

theorem textItems_map {style : TextStyle} {items : List Value}
    (h : ∀ v ∈ items, (value v).text style = v.text style) :
    textItems style (items.map value) = textItems style items := by
  induction items with
  | nil => rfl
  | cons item rest ih =>
      obtain ⟨hitem, hrest⟩ := List.forall_mem_cons.mp h
      cases rest with
      | nil => exact hitem
      | cons next rest =>
          have htail := ih hrest
          rw [List.map_cons] at htail
          rw [List.map_cons, List.map_cons, textItems, textItems, hitem, htail]

theorem checkTextItems_map {room : Nat} {items : List Value}
    (h : ∀ v ∈ items, (value v).checkText room = v.checkText room) :
    checkTextItems room (items.map value) = checkTextItems room items := by
  induction items with
  | nil => rfl
  | cons item rest ih =>
      obtain ⟨hitem, hrest⟩ := List.forall_mem_cons.mp h
      rw [List.map_cons, checkTextItems, checkTextItems, hitem, ih hrest]

variable (h : ∀ v : Value, v.Resembles value (value v))
include h

theorem eq_of_resembles_atom {v : Value} (hatom : v.IsAtom) : value v = v := by
  have hlook := h v
  generalize value v = w at hlook
  cases hlook with
  | atom => rfl
  | list => exact hatom.elim
  | closure => exact hatom.elim

theorem exists_of_resembles_list (i : Option Serial) (items : List Value) :
    ∃ j, value (.list i items) = .list j (items.map value) := by
  have hlook := h (.list i items)
  generalize value (.list i items) = w at hlook
  cases hlook with
  | atom hatom => exact hatom.elim
  | list _ j => exact ⟨j, rfl⟩

theorem text_of_resembles (style : TextStyle) (v : Value) :
    (value v).text style = v.text style := by
  induction v using Value.induct with
  | list i items ih =>
      obtain ⟨j, hj⟩ := exists_of_resembles_list h i items
      rw [hj, text, text, textItems_map ih]
  | closure i params body home =>
      have hlook := h (.closure i params body home)
      generalize value (.closure i params body home) = w at hlook
      cases hlook <;> rfl
  | nil | bool | int | str | sym | builtin | foreign =>
      exact congrArg _ (eq_of_resembles_atom h trivial)

theorem checkText_of_resembles (room : Nat) (v : Value) :
    (value v).checkText room = v.checkText room := by
  induction v using Value.induct generalizing room with
  | list i items ih =>
      obtain ⟨j, hj⟩ := exists_of_resembles_list h i items
      rw [hj]
      cases room with
      | zero => rfl
      | succ room => exact checkTextItems_map fun v hv => ih v hv room
  | closure i params body home =>
      have hlook := h (.closure i params body home)
      generalize value (.closure i params body home) = w at hlook
      cases hlook <;> rfl
  | nil | bool | int | str | sym | builtin | foreign =>
      exact congrArg _ (eq_of_resembles_atom h trivial)

theorem printAs_of_resembles (style : TextStyle) (room : Nat) (v : Value) :
    (value v).printAs style room = v.printAs style room := by
  rw [printAs, checkText_of_resembles h, text_of_resembles h]
  rfl

theorem isTruthy_of_resembles (v : Value) : (value v).isTruthy = v.isTruthy := by
  have hlook := h v
  generalize value v = w at hlook
  cases hlook <;> rfl

/-- Whether a value is a list, and of which length, is not hidden. -/
theorem compute_of_resembles (room : Nat) {b : Builtin} (hb : b ∈ [.isList, .isEmpty, .count])
    (v : Value) : b.compute room [value v] = b.compute room [v] := by
  have hlook := h v
  generalize value v = w at hlook
  simp only [List.mem_cons, List.not_mem_nil, or_false] at hb
  cases hlook with
  | atom => rfl
  | list i j items =>
      rcases hb with rfl | rfl | rfl
      · rfl
      · rw [Builtin.compute, Builtin.compute, List.isEmpty_map]
      · rw [Builtin.compute, Builtin.compute, List.length_map]
  | closure => rcases hb with rfl | rfl | rfl <;> rfl

end Resembles

end Value

/-! ## Disguises -/

/-- What a value may be exchanged for, if `value` is done to the items of a list and `serial` to
    the serial numbers of lists and closures. -/
inductive Value.Looks (value : Value → Value) (serial : Serial → Serial) :
    Value → Value → Prop where
  | atom {v : Value} : v.IsAtom → Looks value serial v v
  | list (i : Option Serial) (items : List Value) :
      Looks value serial (.list i items) (.list (i.map serial) (items.map value))
  | closure (i : Serial) {params params' : List String} {body body' : Value}
      {home home' : FrameId} : Looks value serial (.closure i params body home)
        (.closure (serial i) params' body' home')

theorem Value.Looks.resembles {value : Value → Value} {serial : Serial → Serial} {v w : Value}
    (h : v.Looks value serial w) : v.Resembles value w := by
  cases h with
  | atom hatom => exact .atom hatom
  | list i items => exact .list i _ items
  | closure => exact .closure

/-- Lists stay different if their items do. -/
theorem Value.eq_of_map_eq {value : Value → Value} {xs ys : List Value}
    (h : ∀ x ∈ xs, ∀ y ∈ ys, value x = value y → x = y) (heq : xs.map value = ys.map value) :
    xs = ys := by
  induction xs generalizing ys with
  | nil => exact (List.map_eq_nil_iff.mp heq.symm).symm
  | cons x xs ih =>
      cases ys with
      | nil => exact nomatch heq
      | cons y ys =>
          obtain ⟨hhead, htail⟩ := List.cons.inj heq
          rw [h x List.mem_cons_self y List.mem_cons_self hhead]
          congr 1
          refine ih (fun x hx y hy => ?_) htail
          exact h x (List.mem_cons_of_mem _ hx) y (List.mem_cons_of_mem _ hy)

/-- An exchange of values that keeps all that shows of them.  The values that it fits stay
    different from each other. -/
structure Disguise where
  value : Value → Value
  serial : Serial → Serial
  /-- The values for which the disguise is made. -/
  Fits : Value → Prop
  looks (v : Value) : v.Looks value serial (value v)
  serial_injective : Function.Injective serial
  value_injective {v w : Value} : Fits v → Fits w → value v = value w → v = w
  fits_atom {v : Value} : v.IsAtom → Fits v
  fits_list {i : Option Serial} {items : List Value} : Fits (.list i items) ↔ ∀ v ∈ items, Fits v

namespace Disguise

variable (D : Disguise) {x y : Value} {xs ys : List Value}

theorem resembles (v : Value) : v.Resembles D.value (D.value v) :=
  (D.looks v).resembles

theorem value_atom {v : Value} (h : v.IsAtom) : D.value v = v :=
  Value.eq_of_resembles_atom D.resembles h

theorem value_list (i : Option Serial) (items : List Value) :
    D.value (.list i items) = .list (i.map D.serial) (items.map D.value) := by
  have hlook := D.looks (.list i items)
  generalize D.value (.list i items) = w at hlook
  cases hlook with
  | atom hatom => exact hatom.elim
  | list => rfl

theorem text_value (style : TextStyle) (v : Value) : (D.value v).text style = v.text style :=
  Value.text_of_resembles D.resembles style v

theorem checkText_value (room : Nat) (v : Value) :
    (D.value v).checkText room = v.checkText room :=
  Value.checkText_of_resembles D.resembles room v

theorem print_value (room : Nat) (v : Value) : (D.value v).print room = v.print room :=
  Value.printAs_of_resembles D.resembles .readable room v

theorem isTruthy_value (v : Value) : (D.value v).isTruthy = v.isTruthy :=
  Value.isTruthy_of_resembles D.resembles v

theorem isFunction_value (v : Value) : (D.value v).IsFunction ↔ v.IsFunction := by
  have hlook := D.looks v
  generalize D.value v = w at hlook
  cases hlook <;> rfl

theorem isInteger_value (v : Value) : (D.value v).isInteger = v.isInteger := by
  have hlook := D.looks v
  generalize D.value v = w at hlook
  cases hlook <;> rfl

/-! ## Equality -/

theorem sameList_value (i j : Option Serial) (hxs : ∀ x ∈ xs, D.Fits x)
    (hys : ∀ y ∈ ys, D.Fits y) :
    Value.sameList (i.map D.serial) (j.map D.serial) (xs.map D.value) (ys.map D.value) =
      Value.sameList i j xs ys := by
  have hserials : (i.map D.serial == j.map D.serial) = (i == j) := by
    rw [Bool.eq_iff_iff, beq_iff_eq, beq_iff_eq]
    exact (Option.map_injective D.serial_injective).eq_iff
  have hitems : Value.identical (xs.map D.value) (ys.map D.value) = Value.identical xs ys := by
    rw [Bool.eq_iff_iff, Value.identical_iff_eq, Value.identical_iff_eq]
    refine ⟨Value.eq_of_map_eq fun x hx y hy => ?_, congrArg _⟩
    exact D.value_injective (hxs x hx) (hys y hy)
  rw [Value.sameList, Value.sameList, Option.isSome_map, hserials, hitems]

theorem equalItems_map {room : Nat}
    (h : ∀ x ∈ xs, ∀ y, D.Fits y → (D.value x).equal room (D.value y) = x.equal room y)
    (hys : ∀ y ∈ ys, D.Fits y) :
    Value.equalItems room (xs.map D.value) (ys.map D.value) = Value.equalItems room xs ys := by
  induction xs generalizing ys with
  | nil => rfl
  | cons x xs ih =>
      obtain ⟨hx, hxs⟩ := List.forall_mem_cons.mp h
      cases ys with
      | nil => rfl
      | cons y ys =>
          obtain ⟨hy, hys⟩ := List.forall_mem_cons.mp hys
          rw [List.map_cons, List.map_cons, Value.equalItems, Value.equalItems, hx y hy, ih hxs hys]

/-- Atoms are compared as they are, and differ from all lists and closures. -/
theorem equal_value_of_atom (room : Nat) (hx : x.IsAtom) (y : Value) :
    x.equal room (D.value y) = x.equal room y := by
  have hlook := D.looks y
  generalize D.value y = w at hlook
  cases hlook with
  | atom => rfl
  | list =>
      cases x with
      | list => exact hx.elim
      | _ => rfl
  | closure =>
      cases x with
      | closure => exact hx.elim
      | _ => rfl

/-- Lists are compared by their items and closures by their serial numbers. -/
theorem equal_value (room : Nat) (hx : D.Fits x) (hy : D.Fits y) :
    (D.value x).equal room (D.value y) = x.equal room y := by
  induction x using Value.induct generalizing room y with
  | list i xs ih =>
      rw [D.value_list]
      have hlook := D.looks y
      generalize D.value y = w at hlook
      cases hlook with
      | atom hatom =>
          cases y with
          | list => exact hatom.elim
          | _ => rfl
      | list j ys =>
          have hxs := D.fits_list.mp hx
          have hys := D.fits_list.mp hy
          unfold Value.equal
          rw [D.sameList_value i j hxs hys, List.length_map, List.length_map]
          cases room with
          | zero => rfl
          | succ room =>
              have hitems : ∀ x ∈ xs, ∀ y, D.Fits y →
                  (D.value x).equal room (D.value y) = x.equal room y :=
                fun x hmem y hy => ih x hmem room (hxs x hmem) hy
              simp only [D.equalItems_map hitems hys]
      | closure => rfl
  | closure i params body home =>
      have hlook := D.looks (.closure i params body home)
      generalize D.value (.closure i params body home) = v at hlook
      cases hlook with
      | atom hatom => exact hatom.elim
      | closure =>
          have hlook := D.looks y
          generalize D.value y = w at hlook
          cases hlook with
          | atom hatom =>
              cases y with
              | closure => exact hatom.elim
              | _ => rfl
          | list => rfl
          | closure j =>
              have hserials : (D.serial i == D.serial j) = (i == j) := by
                rw [Bool.eq_iff_iff, beq_iff_eq, beq_iff_eq]
                exact D.serial_injective.eq_iff
              exact congrArg Except.ok hserials
  | nil | bool | int | str | sym | builtin | foreign =>
      rw [D.value_atom (by trivial), D.equal_value_of_atom room (by trivial)]

/-! ## Builtins -/

/-- Apart from integers, only the texts of the operands are of interest. -/
theorem operands_value (room : Nat) (b : Builtin) (x y : Value) :
    b.operands room (D.value x) (D.value y) = b.operands room x y := by
  have hfirst : ∀ {x : Value} (y : Value), ¬ x.isInteger = true → b.operands room x y =
      liftM (x.print room) >>= fun shown => Eval.fail (.notInteger b 1 shown) := by
    intro x y hx
    cases x with
    | int => exact absurd rfl hx
    | _ => rfl
  have hsecond : ∀ (m : Int) {y : Value}, ¬ y.isInteger = true → b.operands room (.int m) y =
      liftM (y.print room) >>= fun shown => Eval.fail (.notInteger b 2 shown) := by
    intro m y hy
    cases y with
    | int => exact absurd rfl hy
    | _ => rfl
  have hint : ∀ v : Value, v.isInteger = true → ∃ n, v = .int n := by
    intro v hv
    cases v with
    | int n => exact ⟨n, rfl⟩
    | _ => exact nomatch hv
  by_cases hx : x.isInteger = true
  · obtain ⟨m, rfl⟩ := hint x hx
    have hm : D.value (.int m) = .int m := D.value_atom trivial
    by_cases hy : y.isInteger = true
    · obtain ⟨n, rfl⟩ := hint y hy
      have hn : D.value (.int n) = .int n := D.value_atom trivial
      rw [hm, hn]
    · have hy' : ¬ (D.value y).isInteger = true := by rwa [D.isInteger_value]
      rw [hm, hsecond m hy, hsecond m hy', D.print_value]
  · have hx' : ¬ (D.value x).isInteger = true := by rwa [D.isInteger_value]
    rw [hfirst y hx, hfirst (D.value y) hx', D.print_value]

/-- A builtin that neither prints nor makes a list does the same. -/
theorem call_map (room : Nat) {b : Builtin} (hlist : b ≠ .list) (hprn : b ≠ .prn)
    {args : List Value} (hargs : ∀ v ∈ args, D.Fits v) :
    b.call room (args.map D.value) = b.call room args := by
  rw [Builtin.call, Builtin.call, List.length_map]
  split
  case isFalse => rfl
  case isTrue hcount =>
    cases b with
    | add | sub | mul =>
        obtain ⟨x, y, rfl⟩ := List.length_eq_two.mp hcount
        rw [List.map_cons, List.map_singleton, Builtin.compute, Builtin.compute,
          Builtin.arithmetic, Builtin.arithmetic, operands_value]
    | div =>
        obtain ⟨x, y, rfl⟩ := List.length_eq_two.mp hcount
        rw [List.map_cons, List.map_singleton, Builtin.compute, Builtin.compute,
          Builtin.division, Builtin.division, operands_value]
    | less | lessEq | greater | greaterEq =>
        obtain ⟨x, y, rfl⟩ := List.length_eq_two.mp hcount
        rw [List.map_cons, List.map_singleton, Builtin.compute, Builtin.compute,
          Builtin.comparison, Builtin.comparison, operands_value]
    | equal =>
        obtain ⟨x, y, rfl⟩ := List.length_eq_two.mp hcount
        rw [List.map_cons, List.map_singleton, Builtin.compute, Builtin.compute,
          D.equal_value room (hargs x (by simp)) (hargs y (by simp))]
    | isList | isEmpty | count =>
        obtain ⟨x, rfl⟩ := List.length_eq_one_iff.mp hcount
        exact Value.compute_of_resembles D.resembles room (by simp) x
    | list => exact absurd rfl hlist
    | prn => exact absurd rfl hprn
    | interrupt =>
        obtain rfl := List.length_eq_zero_iff.mp hcount
        rfl

end Disguise

/-! ## Bindings -/

namespace Bindings

variable {name : String → String} {value : Value → Value}

/-- Bindings of other values under other names. -/
def recast (name : String → String) (value : Value → Value) (bs : Bindings) : Bindings :=
  bs.map fun (x, v) => (name x, value v)

theorem recast_congr {value' : Value → Value} {bs : Bindings}
    (h : ∀ entry ∈ bs, value entry.2 = value' entry.2) :
    bs.recast name value = bs.recast name value' :=
  List.map_congr_left fun entry hentry => congrArg (Prod.mk (name entry.1)) (h entry hentry)

theorem get?_recast (hname : Function.Injective name) (x : String) (bs : Bindings) :
    (bs.recast name value).get? (name x) = (bs.get? x).map value := by
  induction bs with
  | nil => rfl
  | cons entry rest ih =>
      obtain ⟨y, v⟩ := entry
      show (if name y = name x then some (value v) else (recast name value rest).get? (name x)) =
        (if y = x then some v else get? x rest).map value
      by_cases hx : y = x
      · rw [if_pos hx, if_pos (congrArg name hx)]
        rfl
      · rw [if_neg hx, if_neg (mt (hname ·) hx), ih]

theorem set_recast (hname : Function.Injective name) (x : String) (v : Value) (bs : Bindings) :
    (bs.recast name value).set (name x) (value v) = (bs.set x v).recast name value := by
  induction bs with
  | nil => rfl
  | cons entry rest ih =>
      obtain ⟨y, w⟩ := entry
      show (if name y = name x then (name x, value v) :: recast name value rest
          else (name y, value w) :: (recast name value rest).set (name x) (value v)) =
        recast name value (if y = x then (x, v) :: rest else (y, w) :: set x v rest)
      by_cases hx : y = x
      · rw [if_pos hx, if_pos (congrArg name hx)]
        rfl
      · rw [if_neg hx, if_neg (mt (hname ·) hx), ih]
        rfl

/-- The bindings of parameters. -/
theorem ofList_zip_recast (hname : Function.Injective name) (params : List String)
    (vs : List Value) : ofList ((params.map name).zip (vs.map value)) =
      (ofList (params.zip vs)).recast name value := by
  have hfoldl : ∀ (pairs : List (String × Value)) (bs : Bindings),
      (recast name value pairs).foldl (fun bs (x, v) => bs.set x v) (bs.recast name value) =
        (pairs.foldl (fun bs (x, v) => bs.set x v) bs).recast name value := by
    intro pairs
    induction pairs with
    | nil => exact fun _ => rfl
    | cons pair rest ih =>
        intro bs
        obtain ⟨x, v⟩ := pair
        show (recast name value rest).foldl _ ((bs.recast name value).set (name x) (value v)) = _
        rw [set_recast hname]
        exact ih (bs.set x v)
  rw [List.zip_map]
  exact hfoldl (params.zip vs) []

end Bindings

end TailLisp
