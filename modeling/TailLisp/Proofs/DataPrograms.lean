import TailLisp.Proofs.Chains
import TailLisp.Proofs.Composition
import TailLisp.Proofs.Parts
import TailLisp.Proofs.ReadBack
import TailLisp.Proofs.TailSteps

/-! # Data programs — a program for every value, and `=` on what such programs give

    Data without symbols has a program: its text, in which every list `(x y …)` is written as
    the call `(list x y …)`.  The way from a value to its program, to the text, and back through
    the lexer, the reader and the evaluator leads to the same value, but for the serial numbers of
    the lists that the calls build.

    * **`Value.source`** and **`Value.program`** — the program as a text and as a form.
    * **`IsConstant`** — data without symbols.
    * **`IsConstant.readForm_source`** — the reader makes the form of the text.
    * **`IsConstant.isRestored`** — the form evaluates to the value, by induction on it.
    * **`IsData.equal_eq`** — `=` compares data by everything but serial numbers.
    * **`Program.data_programs`** — all of it put together, for one value and for two. -/

namespace TailLisp

namespace Value

/-! ## Programs for values -/

mutual

/-- The text of a value with every list written as a call of `list`. -/
def source : Value → String
  | .list _ items => "(list" ++ sourceItems items ++ ")"
  | v => v.text .readable

/-- The same for each of some values, a space in front of each. -/
def sourceItems : List Value → String
  | [] => ""
  | item :: rest => " " ++ source item ++ sourceItems rest

end

mutual

/-- A value with every list made a call of `list`. -/
def program : Value → Value
  | .list _ items => .list none (.sym Builtin.list.name :: programItems items)
  | v => v

/-- The same for each of some values. -/
def programItems : List Value → List Value
  | [] => []
  | item :: rest => program item :: programItems rest

end

@[simp] theorem programItems_eq_map (items : List Value) :
    programItems items = items.map program := by
  induction items with
  | nil => rfl
  | cons item rest ih => rw [programItems, ih, List.map_cons]

theorem textItems_program {items : List Value}
    (h : ∀ item ∈ items, item.program.text .readable = item.source) (head : Value) :
    textItems .readable (head :: items.map program) =
      head.text .readable ++ sourceItems items := by
  induction items generalizing head with
  | nil => rw [List.map_nil, textItems, sourceItems, String.append_empty]
  | cons item rest ih =>
      obtain ⟨hitem, hrest⟩ := List.forall_mem_cons.mp h
      rw [List.map_cons, textItems, sourceItems, ih hrest, hitem, String.append_assoc,
        String.append_assoc]

/-- The one is the text of the other. -/
theorem text_program (v : Value) : v.program.text .readable = v.source := by
  induction v using Value.induct with
  | list serial items ih =>
      rw [program, programItems_eq_map, text, textItems_program ih, source, ← String.append_assoc]
      rfl
  | _ => rfl

/-- A program is only written down. -/
theorem bare_program (v : Value) : v.program.bare = v.program := by
  induction v using Value.induct with
  | list serial items ih =>
      have hitems : (items.map program).map bare = items.map program := by
        rw [List.map_map]
        exact List.map_congr_left ih
      have hhead : (sym Builtin.list.name).bare = sym Builtin.list.name := rfl
      rw [program, programItems_eq_map, bare, bareItems_eq_map, List.map_cons, hhead, hitems]
  | _ => rfl

theorem heightItems_map {g : Value → Value} {items : List Value}
    (h : ∀ item ∈ items, (g item).height = item.height) :
    heightItems (items.map g) = heightItems items := by
  induction items with
  | nil => rfl
  | cons item rest ih =>
      obtain ⟨hitem, hrest⟩ := List.forall_mem_cons.mp h
      rw [List.map_cons, heightItems, heightItems, hitem, ih hrest]

theorem height_bare (v : Value) : v.bare.height = v.height := by
  induction v using Value.induct with
  | list serial items ih => rw [bare, bareItems_eq_map, height, height, heightItems_map ih]
  | _ => rfl

theorem height_program (v : Value) : v.program.height = v.height := by
  induction v using Value.induct with
  | list serial items ih =>
      rw [program, programItems_eq_map, height, heightItems, heightItems_map ih, height]
      exact congrArg Nat.succ (Nat.zero_max _)
  | _ => rfl

/-! ## Data without symbols -/

/-- Data in which there are no symbols. -/
structure IsConstant (v : Value) : Prop where
  isData : v.IsData
  no_symbol : ∀ name, ¬ Occurs name v

theorem isReadableName_builtin (b : Builtin) : IsReadableName b.name := by
  refine Token.isReadableName_iff.mpr ⟨⟨?_, ?_⟩, ?_, ?_⟩
  · cases b <;> exact List.cons_ne_nil _ _
  · cases b <;> exact List.all_eq_true.mp rfl
  · cases b <;> decide
  · cases b <;> rfl

theorem IsData.program {v : Value} (h : v.IsData) : v.program.IsData := by
  induction h with
  | nil => exact .nil
  | bool b => exact .bool b
  | int hdigits => exact .int hdigits
  | str text => exact .str text
  | sym name => exact .sym name
  | list serial _ ih =>
      refine .list none (List.forall_mem_cons.mpr ⟨.sym _, ?_⟩)
      rw [programItems_eq_map]
      exact List.forall_mem_map.mpr ih

/-- The only symbol that comes in with a program is the name of `list`. -/
theorem occurs_program {name : String} {v : Value} (h : v.IsData)
    (hname : Occurs name v.program) : name = Builtin.list.name ∨ Occurs name v := by
  induction h with
  | nil | bool | int | str => exact nomatch hname
  | sym x => exact .inr hname
  | list serial _ ih =>
      rw [Value.program, programItems_eq_map, occurs_list_iff] at hname
      obtain ⟨w, hmem, hw⟩ := hname
      rcases List.mem_cons.mp hmem with rfl | hmem
      · exact .inl (occurs_sym_iff.mp hw).symm
      · obtain ⟨item, hitem, rfl⟩ := List.mem_map.mp hmem
        exact (ih item hitem hw).imp id (.item hitem)

/-- The text of data is read as the data. -/
theorem IsData.readForm_text {v : Value} (h : v.IsData) (hnames : v.HasReadableNames)
    {limit : Nat} (hheight : v.height ≤ limit) :
    readForm limit (Token.lex (v.text .readable)) = (.ok (some v.bare), []) := by
  have hend : Token.Delimits [] := fun _ => nofun
  have htokens : Token.lex (v.text .readable) = v.tokens ++ [] := by
    rw [Token.lex, ← List.append_nil (v.text .readable).toList, h.lexChars_text hnames hend,
      Token.lexChars_nil]
  rw [htokens]
  exact h.readFrom_tokens hnames (by rwa [List.length_nil, Nat.zero_add]) []

namespace IsConstant

variable {v : Value}

theorem hasReadableNames_program (h : v.IsConstant) : v.program.HasReadableNames := by
  intro name hname
  rcases occurs_program h.isData hname with rfl | hname
  · exact isReadableName_builtin .list
  · exact absurd hname (h.no_symbol name)

theorem readForm_source (h : v.IsConstant) {limit : Nat} (hheight : v.height ≤ limit) :
    readForm limit (Token.lex v.source) = (.ok (some v.program), []) := by
  have hprogram : v.program.height ≤ limit := by rwa [height_program]
  have hread := h.isData.program.readForm_text h.hasReadableNames_program hprogram
  rwa [text_program, bare_program] at hread

end IsConstant

/-! ## Equality -/

/-- Serial numbers do not matter for what is data. -/
theorem IsData.of_bare_eq {v w : Value} (h : v.IsData) (hbare : w.bare = v.bare) : w.IsData := by
  induction h generalizing w with
  | nil => cases w <;> simp [bare] at hbare; exact .nil
  | bool b => cases w <;> simp [bare] at hbare; exact .bool _
  | int hdigits => cases w <;> simp [bare] at hbare; exact .int (hbare ▸ hdigits)
  | str text => cases w <;> simp [bare] at hbare; exact .str _
  | sym name => cases w <;> simp [bare] at hbare; exact .sym _
  | @list i items _ ih =>
      cases w with
      | list j ws =>
          have hitems : ws.map bare = items.map bare := by simpa [bare] using hbare
          refine .list j fun w hw => ?_
          have hmem : w.bare ∈ items.map bare := hitems ▸ List.mem_map_of_mem hw
          obtain ⟨item, hitem, hsame⟩ := List.mem_map.mp hmem
          exact ih item hitem hsame.symm
      | _ => simp [bare] at hbare

theorem equalItems_of_forall {room : Nat} {xs ys : List Value}
    (h : ∀ x ∈ xs, ∀ y, equal room x y = .ok (decide (x.bare = y.bare)))
    (hlength : xs.length = ys.length) :
    equalItems room xs ys = .ok (decide (xs.map bare = ys.map bare)) := by
  induction xs generalizing ys with
  | nil =>
      obtain rfl := List.length_eq_zero_iff.mp hlength.symm
      rfl
  | cons x xs ih =>
      obtain ⟨hx, hxs⟩ := List.forall_mem_cons.mp h
      cases ys with
      | nil => exact nomatch hlength
      | cons y ys =>
          have hrest := ih hxs (Nat.succ.inj hlength)
          rw [equalItems, hx y, List.map_cons, List.map_cons]
          by_cases hsame : x.bare = y.bare
          · have hcons : decide (y.bare :: xs.map bare = y.bare :: ys.map bare) =
                decide (xs.map bare = ys.map bare) := by
              simp
            rw [decide_eq_true hsame, hsame, hcons]
            exact hrest
          · rw [decide_eq_false hsame, decide_eq_false fun heq => hsame (List.cons.inj heq).1]
            rfl

/-- Data is equal to exactly the values that it differs from by no more than serial numbers. -/
theorem IsData.equal_eq {x : Value} (h : x.IsData) {room : Nat} (hheight : x.height ≤ room)
    (y : Value) : equal room x y = .ok (decide (x.bare = y.bare)) := by
  induction h generalizing room y with
  | nil => cases y <;> simp [equal, bare]
  | bool b => cases y <;> simp [equal, bare, beq_eq_decide]
  | int _ => cases y <;> simp [equal, bare, beq_eq_decide]
  | str text => cases y <;> simp [equal, bare, beq_eq_decide]
  | sym name => cases y <;> simp [equal, bare, beq_eq_decide]
  | @list i xs _ ih =>
      cases y with
      | list j ys =>
          rw [height] at hheight
          obtain ⟨room, rfl⟩ : ∃ m, room = m + 1 := ⟨room - 1, by omega⟩
          have hbare : decide (bare (.list i xs) = bare (.list j ys)) =
              decide (xs.map bare = ys.map bare) := by
            simp [bare]
          rw [equal, hbare]
          -- One object is equal to itself without a look at its items.
          by_cases hsame : sameList i j xs ys = true
          · rw [if_pos hsame, eq_of_sameList hsame, decide_eq_true rfl]
          · rw [if_neg hsame]
            by_cases hlength : xs.length = ys.length
            · rw [if_neg (not_not_intro hlength)]
              refine equalItems_of_forall (fun x hmem y => ih x hmem ?_ y) hlength
              have hle := height_le_heightItems hmem
              omega
            · have hne : xs.map bare ≠ ys.map bare := fun heq =>
                hlength (by simpa using congrArg List.length heq)
              rw [if_pos hlength, decide_eq_false hne]
      | _ => simp [equal, bare]

end Value

/-! ## Evaluation -/

open Value (IsConstant)

section Evaluation

variable {fuel depth : Nat} {s s₁ s₂ : Store}

/-- A call of a builtin in the root frame, whose name stands for it there. -/
theorem Eval.evaluate_builtin {b : Builtin} {args vs : List Value} {v : Value}
    (hb : (s.bindings Store.root).get? b.name = some (.builtin b))
    (hargs : (args.mapM (evaluate (fuel + 1) (depth + 1) · Store.root)).run s = .ok vs s₁)
    (hcall : (b.call (depth + 1) vs).run s₁ = .ok v s₂) (i : Option Serial) :
    (evaluate (fuel + 1) (depth + 2) (.list i (.sym b.name :: args)) Store.root).run s =
      .ok v s₂ := by
  have hlookup : s.lookup? Store.root b.name = some (.builtin b) :=
    (s.lookup?_root b.name).trans hb
  have hhead : (evaluate (fuel + 1) (depth + 1) (.sym b.name) Store.root).run s =
      .ok (.builtin b) s := by
    refine follow_of_value ?_ fuel
    rw [step, EStateM.run_bind, run_lookup_some s hlookup]
    rfl
  refine follow_of_value ?_ fuel
  rw [step_application _ _ _ b.sym_name_ne, EStateM.run_bind, hhead]
  simp only [EStateM.run_bind, hargs, apply, hcall]
  rfl

/-- The program of a value evaluates to the value, and changes nothing of a store but the number
    of serial numbers that were given out. -/
def Value.IsRestored (fuel depth : Nat) (s : Store) (v : Value) : Prop :=
  ∀ n : Serial, ∃ w n', (Eval.evaluate fuel depth v.program Store.root).run
    { s with nextSerial := n } = .ok w { s with nextSerial := n' } ∧ w.bare = v.bare

/-- Programs of values that are evaluated one after another. -/
theorem Eval.mapM_evaluate_program {items : List Value}
    (h : ∀ item ∈ items, item.IsRestored fuel depth s) (n : Serial) :
    ∃ ws n', ((items.map Value.program).mapM (evaluate fuel depth · Store.root)).run
        { s with nextSerial := n } = .ok ws { s with nextSerial := n' } ∧
      ws.map Value.bare = items.map Value.bare := by
  induction items generalizing n with
  | nil => exact ⟨[], n, rfl, rfl⟩
  | cons item rest ih =>
      obtain ⟨hitem, hrest⟩ := List.forall_mem_cons.mp h
      obtain ⟨w, n₁, hw, hbare⟩ := hitem n
      obtain ⟨ws, n₂, hws, hbares⟩ := ih hrest n₁
      refine ⟨w :: ws, n₂, ?_, ?_⟩
      · simp only [List.map_cons, List.mapM_cons, EStateM.run_bind, hw, hws]
        rfl
      · rw [List.map_cons, List.map_cons, hbare, hbares]

/-- A constant is restored within one level more than it has itself. -/
theorem Value.IsConstant.isRestored {v : Value} (h : v.IsConstant) (fuel : Nat)
    (hlist : (s.bindings Store.root).get? Builtin.list.name = some (.builtin .list))
    (hdepth : v.height < depth) : v.IsRestored (fuel + 1) depth s := by
  obtain ⟨hdata, hsym⟩ := h
  obtain ⟨depth, rfl⟩ := Nat.exists_eq_add_one_of_ne_zero (Nat.ne_zero_of_lt hdepth)
  induction hdata generalizing depth with
  | nil | bool | int | str => exact fun n => ⟨_, n, rfl, rfl⟩
  | sym name => exact absurd .sym (hsym name)
  | @list i items _ ih =>
      rw [height] at hdepth
      obtain ⟨depth, rfl⟩ : ∃ m, depth = m + 1 := ⟨depth - 1, by omega⟩
      have heach : ∀ item ∈ items, item.IsRestored (fuel + 1) (depth + 1) s := by
        intro item hmem
        have hle := height_le_heightItems hmem
        exact ih item hmem (fun name hname => hsym name (.item hmem hname)) depth (by omega)
      intro n
      obtain ⟨ws, n', hws, hbares⟩ := Eval.mapM_evaluate_program heach n
      have hcall : (Builtin.list.call (depth + 1) ws).run { s with nextSerial := n' } =
          .ok (.list (some n') ws) { s with nextSerial := n' + 1 } := rfl
      refine ⟨.list (some n') ws, n' + 1, ?_, ?_⟩
      · rw [program, programItems_eq_map]
        exact Eval.evaluate_builtin (s := { s with nextSerial := n }) hlist hws hcall none
      · rw [bare, bare, bareItems_eq_map, bareItems_eq_map, hbares]

end Evaluation

/-! ## Texts -/

namespace Program

variable {limits : Limits} {s : Store}

/-- The text that compares two values. -/
def comparison (a b : Value) : String :=
  "(= " ++ a.source ++ " " ++ b.source ++ ")"

/-- The form that it is read as. -/
def comparisonForm (a b : Value) : Value :=
  .list none [.sym Builtin.equal.name, a.program, b.program]

theorem readForm_comparison {a b : Value} (ha : a.IsConstant) (hb : b.IsConstant) {limit : Nat}
    (hheight : max a.height b.height + 1 ≤ limit) :
    Value.readForm limit (Token.lex (comparison a b)) = (.ok (some (comparisonForm a b)), []) := by
  have hdata : (comparisonForm a b).IsData := by
    refine .list none ?_
    simp only [List.mem_cons, List.not_mem_nil, or_false, forall_eq_or_imp, forall_eq]
    exact ⟨.sym _, ha.isData.program, hb.isData.program⟩
  have hnames : (comparisonForm a b).HasReadableNames := by
    refine .list ?_
    simp only [List.mem_cons, List.not_mem_nil, or_false, forall_eq_or_imp, forall_eq]
    refine ⟨?_, ha.hasReadableNames_program, hb.hasReadableNames_program⟩
    intro name hname
    rw [← Value.occurs_sym_iff.mp hname]
    exact Value.isReadableName_builtin .equal
  have hlow : (comparisonForm a b).height ≤ limit := by
    simp only [comparisonForm, Value.height, Value.heightItems, Value.height_program]
    omega
  have htext : (comparisonForm a b).text .readable = comparison a b := by
    simp only [comparisonForm, Value.text, Value.textItems, Value.text_program, comparison,
      String.append_assoc]
    rfl
  have hbare : (comparisonForm a b).bare = comparisonForm a b := by
    simp only [comparisonForm, Value.bare, Value.bareItems, Value.bare_program]
  have hread := hdata.readForm_text hnames hlow
  rwa [htext, hbare] at hread

/-- Comparing the programs of two data compares the data. -/
theorem evaluate_comparisonForm {a b : Value} (ha : a.IsConstant) (hb : b.IsConstant) (fuel : Nat)
    {depth : Nat} (hlist : (s.bindings Store.root).get? Builtin.list.name = some (.builtin .list))
    (hequal : (s.bindings Store.root).get? Builtin.equal.name = some (.builtin .equal))
    (hheight : max a.height b.height + 1 < depth) :
    ∃ n, (Eval.evaluate (fuel + 1) depth (comparisonForm a b) Store.root).run s =
      .ok (.bool (decide (a.bare = b.bare))) { s with nextSerial := n } := by
  obtain ⟨depth, rfl⟩ : ∃ m, depth = m + 2 := ⟨depth - 2, by omega⟩
  have hlow : a.height < depth + 1 ∧ b.height < depth + 1 := by omega
  have heach : ∀ item ∈ [a, b], item.IsRestored (fuel + 1) (depth + 1) s := by
    simp only [List.mem_cons, List.not_mem_nil, or_false, forall_eq_or_imp, forall_eq]
    exact ⟨ha.isRestored fuel hlist hlow.1, hb.isRestored fuel hlist hlow.2⟩
  obtain ⟨ws, n, hws, hbares⟩ := Eval.mapM_evaluate_program heach s.nextSerial
  obtain ⟨x, rest, rfl, hx, hrest⟩ := List.map_eq_cons_iff.mp hbares
  obtain ⟨y, rfl, hy⟩ := List.map_eq_singleton_iff.mp hrest
  have hroom : x.height ≤ depth + 1 := by
    rw [← Value.height_bare, hx, Value.height_bare]
    exact Nat.le_of_lt hlow.1
  have hsame := (ha.isData.of_bare_eq hx).equal_eq hroom y
  rw [hx, hy] at hsame
  refine ⟨n, Eval.evaluate_builtin (b := .equal) hequal hws ?_ none⟩
  simp only [Builtin.call, Builtin.compute, hsame]
  rfl

/-- **Every value has a program, and `=` decides structural equality.**  Where the root frame
    binds `list` and `=` to the builtins, the program of data without symbols evaluates to the
    data, and comparing the programs of two such data gives whether the two are the same.  Neither
    prints or binds anything. -/
theorem data_programs (limits : Limits) (s : Store) (hfuel : 0 < limits.fuel)
    (hlist : (s.bindings Store.root).get? "list" = some (.builtin .list))
    (hequal : (s.bindings Store.root).get? "=" = some (.builtin .equal)) :
    (∀ v : Value, v.IsConstant → v.height < limits.depth →
      ∃ w s', (eval limits v.source).run s = .ok w s' ∧ w.bare = v.bare ∧
        s'.frames = s.frames ∧ s'.printed = s.printed) ∧
    ∀ a b : Value, a.IsConstant → b.IsConstant → max a.height b.height + 1 < limits.depth →
      ∃ s', (eval limits (comparison a b)).run s = .ok (.bool (decide (a.bare = b.bare))) s' ∧
        s'.frames = s.frames ∧ s'.printed = s.printed := by
  obtain ⟨depth, fuel⟩ := limits
  obtain ⟨fuel, rfl⟩ := Nat.exists_eq_add_one.mpr hfuel
  constructor
  · intro v hv hheight
    obtain ⟨w, n, hw, hbare⟩ := hv.isRestored fuel hlist hheight s.nextSerial
    refine ⟨w, { s with nextSerial := n }, ?_, hbare, rfl, rfl⟩
    rw [run_eval_of_readForm (hv.readForm_source (Nat.le_of_lt hheight))]
    exact hw
  · intro a b ha hb hheight
    obtain ⟨n, hrun⟩ := evaluate_comparisonForm ha hb fuel hlist hequal hheight
    refine ⟨{ s with nextSerial := n }, ?_, rfl, rfl⟩
    rw [run_eval_of_readForm (readForm_comparison ha hb (Nat.le_of_lt hheight))]
    exact hrun

/-- A number is no truth value, not even in a list. -/
theorem data_programs_of_one_item :
    let truth := Value.list (some 3) [.bool true]
    let number := Value.list none [.int 1]
    (∃ w s', (eval .standard truth.source).run .initial = .ok w s' ∧ w.bare = truth.bare ∧
        s'.frames = Store.initial.frames ∧ s'.printed = Store.initial.printed) ∧
      ∃ s', (eval .standard (comparison truth number)).run .initial = .ok (.bool false) s' ∧
        s'.frames = Store.initial.frames ∧ s'.printed = Store.initial.printed := by
  intro truth number
  have hsingle : ∀ {i : Option Serial} {v : Value}, v.IsConstant → IsConstant (.list i [v]) := by
    rintro i v ⟨hdata, hsym⟩
    refine ⟨.list i fun item hmem => List.mem_singleton.mp hmem ▸ hdata, fun name hname => ?_⟩
    obtain ⟨item, hmem, hitem⟩ := Value.occurs_list_iff.mp hname
    exact hsym name (List.mem_singleton.mp hmem ▸ hitem)
  have htruth : truth.IsConstant := hsingle ⟨.bool true, fun _ => nofun⟩
  have hnumber : number.IsConstant := hsingle ⟨.int (by decide), fun _ => nofun⟩
  have hall := data_programs .standard .initial (by decide) rfl rfl
  exact ⟨hall.1 truth htruth (by decide), hall.2 truth number htruth hnumber (by decide)⟩

end Program

end TailLisp
