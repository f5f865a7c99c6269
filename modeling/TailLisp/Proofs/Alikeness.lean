import TailLisp.Proofs.Exhaustion
import TailLisp.Proofs.DataPrograms
import TailLisp.Proofs.Disguise

/-! # Alikeness — what the language's equality decides

    Two values are alike if they have the same structure; functions are known by what they were
    made as.  Equality stops where it meets one and the same list, and at the first items that
    differ, and it may run out of levels; wherever it answers, the answer is whether the values
    are alike.

    * **`Value.alike`** — the comparison by structure alone.
    * **`Value.essence`** — what is left of a value for it: values are alike if and only if they
      have the same essence.
    * **`Value.equal_eq_alike`** — equality with levels enough, and **`Value.alike_of_equal`** —
      with however many there are.
    * **`equality_respects_observation`** — equality is an equivalence, nothing tells equal
      values apart, and equal texts come from equal data. -/

namespace TailLisp

namespace Value

/-! ## Comparing by structure -/

mutual

/-- Whether two values have the same structure. -/
def alike : Value → Value → Bool
  | .nil, .nil => true
  | .bool a, .bool b => a == b
  | .int a, .int b => a == b
  | .str a, .str b => a == b
  | .sym a, .sym b => a == b
  | .builtin a, .builtin b => a == b
  | .closure i _ _ _, .closure j _ _ _ => i == j
  | .list _ xs, .list _ ys => xs.length == ys.length && alikeItems xs ys
  | .foreign a, .foreign b => a == b
  | _, _ => false

/-- Whether the items of two lists have the same structure in pairs. -/
def alikeItems : List Value → List Value → Bool
  | x :: xs, y :: ys => alike x y && alikeItems xs ys
  | _, _ => true

end

mutual

/-- What there is to compare of a value. -/
def essence : Value → Value
  | .list _ items => .list none (essenceItems items)
  | .closure i _ _ _ => .closure i [] .nil Store.root
  | v => v

/-- The same for each of some values. -/
def essenceItems : List Value → List Value
  | [] => []
  | item :: rest => essence item :: essenceItems rest

end

@[simp] theorem essenceItems_eq_map (items : List Value) :
    essenceItems items = items.map essence := by
  induction items with
  | nil => rfl
  | cons item rest ih => rw [essenceItems, ih, List.map_cons]

theorem resembles_essence (v : Value) : v.Resembles essence v.essence := by
  cases v with
  | list i items =>
      rw [essence, essenceItems_eq_map]
      exact .list i none items
  | closure => exact .closure
  | _ => exact .atom trivial

theorem alikeItems_iff {xs ys : List Value}
    (h : ∀ x ∈ xs, ∀ y, alike x y = true ↔ x.essence = y.essence) :
    (xs.length == ys.length && alikeItems xs ys) = true ↔ xs.map essence = ys.map essence := by
  induction xs generalizing ys with
  | nil => cases ys <;> simp [alikeItems]
  | cons x xs ih =>
      obtain ⟨hx, hxs⟩ := List.forall_mem_cons.mp h
      cases ys with
      | nil => simp
      | cons y ys =>
          have hrest : (xs.length == ys.length && alikeItems xs ys) = true ↔
              xs.map essence = ys.map essence := ih hxs
          simp only [Bool.and_eq_true, beq_iff_eq] at hrest
          rw [List.map_cons, List.map_cons, List.cons.injEq, ← hrest, ← hx y]
          simp only [alikeItems, Bool.and_eq_true, beq_iff_eq, List.length_cons, Nat.succ_inj]
          exact and_left_comm

/-- Values are alike if and only if there is the same to compare. -/
theorem alike_iff {x y : Value} : alike x y = true ↔ x.essence = y.essence := by
  induction x using Value.induct generalizing y with
  | list i xs ih =>
      cases y with
      | list j ys =>
          rw [alike, alikeItems_iff fun x hx y => ih x hx]
          simp [essence]
      | _ => simp [alike, essence]
  | nil | bool | int | str | sym | builtin | closure | foreign =>
      cases y <;> simp [alike, essence]

@[simp] theorem alike_self (v : Value) : alike v v = true :=
  alike_iff.mpr rfl

/-! ## Equality -/

theorem equalItems_eq_alikeItems {room : Nat} {xs ys : List Value}
    (h : ∀ x ∈ xs, ∀ y ∈ ys, equal room x y = .ok (alike x y)) :
    equalItems room xs ys = .ok (alikeItems xs ys) := by
  induction xs generalizing ys with
  | nil => rfl
  | cons x xs ih =>
      cases ys with
      | nil => rfl
      | cons y ys =>
          have hrest := ih fun x hx y hy => h x (List.mem_cons_of_mem _ hx) y
            (List.mem_cons_of_mem _ hy)
          rw [equalItems, h x List.mem_cons_self y List.mem_cons_self, alikeItems]
          cases alike x y with
          | false => rfl
          | true => exact hrest

/-- **With levels enough** for one of the values, equality is the comparison by structure. -/
theorem equal_eq_alike {room : Nat} {x y : Value} (h : x.height ≤ room ∨ y.height ≤ room) :
    equal room x y = .ok (alike x y) := by
  induction x using Value.induct generalizing room y with
  | list i xs ih =>
      cases y with
      | list j ys =>
          rw [height, height] at h
          obtain ⟨room, rfl⟩ : ∃ m, room = m + 1 := ⟨room - 1, by omega⟩
          have hitems : equalItems room xs ys = .ok (alikeItems xs ys) := by
            refine equalItems_eq_alikeItems fun x hx y hy => ih x hx ?_
            have hxs := height_le_heightItems hx
            have hys := height_le_heightItems hy
            omega
          rw [equal, alike]
          -- One object is equal to itself without a look at its items.
          by_cases hsame : sameList i j xs ys = true
          · obtain rfl := eq_of_sameList hsame
            rw [if_pos hsame]
            exact congrArg Except.ok (alike_self (.list i xs)).symm
          · rw [if_neg hsame]
            by_cases hlength : xs.length = ys.length
            · rw [if_neg (not_not_intro hlength), hlength, beq_self_eq_true, Bool.true_and]
              exact hitems
            · rw [if_pos hlength, beq_false_of_ne hlength, Bool.false_and]
      | _ => rfl
  | nil | bool | int | str | sym | builtin | closure | foreign => cases y <;> rfl

/-- Wherever equality answers, it answers by structure. -/
theorem alike_of_equal {room : Nat} {x y : Value} {same : Bool}
    (h : equal room x y = .ok same) : alike x y = same := by
  have henough : equal (max room x.height) x y = .ok (alike x y) :=
    equal_eq_alike (.inl (Nat.le_max_right ..))
  -- More levels do not change an answer, they only give one where there was none.
  have hmore : Fault.AgreesUnless (Eq Fault.stackOverflow) (equal room x y)
      (equal (max room x.height) x y) := equal_mono rfl (Nat.le_max_left ..) x y
  rw [h, henough] at hmore
  rcases hmore with ⟨fault, hfault, -⟩ | hsame
  · exact nomatch hfault
  · exact (Except.ok.inj hsame).symm

theorem sameList_comm (i j : Option Serial) (xs ys : List Value) :
    sameList i j xs ys = sameList j i ys xs := by
  have hiff : ∀ {i j : Option Serial} {xs ys : List Value}, sameList i j xs ys = true →
      sameList j i ys xs = true := by
    intro i j xs ys h
    obtain rfl := eq_of_sameList h
    simp only [sameList, Bool.and_eq_true, beq_iff_eq] at h ⊢
    obtain ⟨⟨hsome, rfl⟩, hitems⟩ := h
    exact ⟨⟨hsome, rfl⟩, hitems⟩
  exact Bool.eq_iff_iff.mpr ⟨hiff, hiff⟩

theorem equalItems_comm {room : Nat} {xs ys : List Value}
    (h : ∀ x ∈ xs, ∀ y, equal room x y = equal room y x) :
    equalItems room xs ys = equalItems room ys xs := by
  induction xs generalizing ys with
  | nil => cases ys <;> rfl
  | cons x xs ih =>
      obtain ⟨hx, hxs⟩ := List.forall_mem_cons.mp h
      cases ys with
      | nil => rfl
      | cons y ys => rw [equalItems, equalItems, hx y, ih hxs]

/-- The order of the values does not matter, also where there are too few levels. -/
theorem equal_comm (room : Nat) (x y : Value) : equal room x y = equal room y x := by
  induction x using Value.induct generalizing room y with
  | list i xs ih =>
      cases y with
      | list j ys =>
          unfold equal
          rw [sameList_comm i j]
          by_cases hlength : xs.length = ys.length
          · rw [if_neg (not_not_intro hlength), if_neg (not_not_intro hlength.symm)]
            cases room with
            | zero => rfl
            | succ room => simp only [equalItems_comm fun x hx y => ih x hx room y]
          · rw [if_pos hlength, if_pos (Ne.symm hlength)]
      | _ => rfl
  | nil | bool | int | str | sym | builtin | closure | foreign =>
      cases y <;> first | rfl | exact congrArg Except.ok Bool.beq_comm

/-! ## Telling values apart -/

/-- Two values that are the same in what is printed of them, in tests and for the builtins that
    ask about lists. -/
structure LooksLike (x y : Value) : Prop where
  texts : ∀ style room, x.printAs style room = y.printAs style room
  truth : x.isTruthy = y.isTruthy
  builtins : ∀ b ∈ [Builtin.isList, .isEmpty, .count], ∀ room, b.call room [x] = b.call room [y]

theorem looksLike_of_alike {x y : Value} (h : alike x y = true) : x.LooksLike y := by
  have hsame := alike_iff.mp h
  refine ⟨fun style room => ?_, ?_, fun b hb room => ?_⟩
  · rw [← printAs_of_resembles resembles_essence, hsame, printAs_of_resembles resembles_essence]
  · rw [← isTruthy_of_resembles resembles_essence, hsame, isTruthy_of_resembles resembles_essence]
  · rw [Builtin.call, Builtin.call, ← compute_of_resembles resembles_essence room hb x, hsame,
      compute_of_resembles resembles_essence room hb y]
    rfl

theorem IsData.essence_eq_bare {v : Value} (h : v.IsData) : v.essence = v.bare := by
  induction h with
  | list serial _ ih =>
      rw [essence, bare, essenceItems_eq_map, bareItems_eq_map, List.map_congr_left ih]
  | _ => rfl

/-- Data with one text is alike, because the text reads back. -/
theorem IsData.alike_of_text_eq {x y : Value} (hx : x.IsData) (hy : y.IsData)
    (hxnames : x.HasReadableNames) (hynames : y.HasReadableNames)
    (htext : x.text .readable = y.text .readable) : alike x y = true := by
  have hreadx := hx.readForm_text hxnames (Nat.le_max_left x.height y.height)
  have hready := hy.readForm_text hynames (Nat.le_max_right x.height y.height)
  rw [htext, hready] at hreadx
  have hbare : y.bare = x.bare := Option.some.inj (Except.ok.inj (congrArg Prod.fst hreadx))
  rw [alike_iff, hx.essence_eq_bare, hy.essence_eq_bare, hbare]

end Value

open Value

/-- **Equality is an equivalence that respects observation**, for values that are within the
    `room` levels that it has: it compares by structure, nothing tells equal values apart, and
    data that is printed the same is equal. -/
theorem equality_respects_observation (room : Nat) :
    (∀ x y : Value, x.height ≤ room ∨ y.height ≤ room → equal room x y = .ok (alike x y)) ∧
      (∀ x : Value, x.height ≤ room → equal room x x = .ok true) ∧
      (∀ x y : Value, equal room x y = equal room y x) ∧
      (∀ x y z : Value, x.height ≤ room → equal room x y = .ok true →
        equal room y z = .ok true → equal room x z = .ok true) ∧
      (∀ x y : Value, equal room x y = .ok true → x.LooksLike y) ∧
      ∀ (x y : Value) (text : String), x.IsData → x.HasReadableNames → y.IsData →
        y.HasReadableNames → x.print room = .ok text → y.print room = .ok text →
        equal room x y = .ok true := by
  refine ⟨fun _ _ => equal_eq_alike, fun x hx => ?_, equal_comm room, fun x y z hx hxy hyz => ?_,
    fun x y hxy => looksLike_of_alike (alike_of_equal hxy),
    fun x y text hx hxnames hy hynames hxtext hytext => ?_⟩
  · rw [equal_eq_alike (.inl hx), alike_self]
  · have hxz := (alike_iff.mp (alike_of_equal hxy)).trans (alike_iff.mp (alike_of_equal hyz))
    rw [equal_eq_alike (.inl hx), alike_iff.mpr hxz]
  · obtain ⟨hcheck, hxtext⟩ := checkText_and_text_of_print hxtext
    obtain ⟨-, hytext⟩ := checkText_and_text_of_print hytext
    rw [equal_eq_alike (.inl (height_le_of_checkText hcheck)),
      hx.alike_of_text_eq hy hxnames hynames (hxtext.trans hytext.symm)]

/-- A list built by a call and one that was written down. -/
theorem equality_respects_observation_of_two_lists :
    let built : Value := .list (some 0) [.int 1, .list (some 1) []]
    let written : Value := .list none [.int 1, .list none []]
    built.height ≤ 2 ∧ equal 2 built written = .ok true ∧ built.LooksLike written := by
  intro built written
  obtain ⟨hstructure, -, -, -, hlooks, -⟩ := equality_respects_observation 2
  have hheight : built.height ≤ 2 := by decide
  have hequal : equal 2 built written = .ok true := hstructure built written (.inl hheight)
  exact ⟨hheight, hequal, hlooks built written hequal⟩

end TailLisp
