import TailLisp.Proofs.Parts
import TailLisp.Proofs.Trampoline

/-! # Free names — the symbols of a form that are looked up outside of it

    Which names a form needs can be read off it before it is evaluated: `fn*` takes its
    parameters away from its body, and `let*` each name from the forms behind it.  Of a
    special form that is refused all symbols count, as a `let*` may have evaluated
    some of its forms before.

    There is one equation for each shape of a form, and the names of a part are found
    among those of the whole. -/

namespace TailLisp.Value

mutual

/-- The symbols in a value, at any depth of lists. -/
def symbols : Value → List String
  | .sym name => [name]
  | .list _ items => symbolsOfAll items
  | _ => []

/-- The symbols in some values. -/
def symbolsOfAll : List Value → List String
  | [] => []
  | item :: rest => symbols item ++ symbolsOfAll rest

end

/-- The names that a `let*` binds, if its bindings are pairs of a symbol and a form. -/
def boundNames? : List Value → Option (List String)
  | [] => some []
  | .sym name :: _ :: rest => (boundNames? rest).map (name :: ·)
  | _ => none

mutual

/-- The names that a form needs from around it. -/
def freeNames : Value → List String
  | .sym name => [name]
  | .list _ (head :: args) =>
    match Eval.step.specialForm? head, args with
    | none, args => freeNames head ++ freeNamesOfAll args
    | some .branch, args | some .sequence, args => freeNamesOfAll args
    | some .define, [.sym _, expr] => freeNames expr
    | some .letStar, [.list i bindings, body] =>
      match boundNames? bindings with
      | some names => freeNamesOfBindings [] bindings ++ (freeNames body).filter (· ∉ names)
      | none => symbolsOfAll [.list i bindings, body]
    | some .lambda, [.list i params, body] =>
      match SpecialForm.parameterDefect? [] params with
      | none => (freeNames body).filter (Value.sym · ∉ params)
      | some _ => symbolsOfAll [.list i params, body]
    | some _, args => symbolsOfAll args
  | _ => []

/-- The names that some forms need. -/
def freeNamesOfAll : List Value → List String
  | [] => []
  | form :: rest => freeNames form ++ freeNamesOfAll rest

/-- The names that the forms of a `let*` need, those bound before them aside. -/
def freeNamesOfBindings (bound : List String) : List Value → List String
  | .sym name :: form :: rest =>
    (freeNames form).filter (· ∉ bound) ++ freeNamesOfBindings (bound ++ [name]) rest
  | _ => []

end

theorem mem_freeNamesOfAll {name : String} {forms : List Value} :
    name ∈ freeNamesOfAll forms ↔ ∃ form ∈ forms, name ∈ form.freeNames := by
  induction forms with
  | nil => simp [freeNamesOfAll]
  | cons form rest ih => simp [freeNamesOfAll, ih]

theorem mem_symbolsOfAll {name : String} {values : List Value} :
    name ∈ symbolsOfAll values ↔ ∃ v ∈ values, name ∈ v.symbols := by
  induction values with
  | nil => simp [symbolsOfAll]
  | cons v rest ih => simp [symbolsOfAll, ih]

/-! ## One equation for each shape -/

section Shapes

variable (i j : Option Serial)

theorem freeNames_define (name : String) (expr : Value) :
    freeNames (SpecialForm.define.applied i [.sym name, expr]) = expr.freeNames := rfl

theorem freeNames_letStar (bindings : List Value) (body : Value) :
    freeNames (SpecialForm.letStar.applied i [.list j bindings, body]) =
      match boundNames? bindings with
      | some names =>
        freeNamesOfBindings [] bindings ++ body.freeNames.filter (· ∉ names)
      | none => symbolsOfAll [.list j bindings, body] := rfl

/-- `(let* (a b c a) (c d))` needs `b` and `d`. -/
example :
    freeNames (SpecialForm.letStar.applied none
      [.list none [.sym "a", .sym "b", .sym "c", .sym "a"],
        .list none [.sym "c", .sym "d"]]) = ["b", "d"] := by
  decide

theorem freeNames_branch (args : List Value) :
    freeNames (SpecialForm.branch.applied i args) = freeNamesOfAll args := rfl

theorem freeNames_sequence (args : List Value) :
    freeNames (SpecialForm.sequence.applied i args) = freeNamesOfAll args := rfl

theorem freeNames_lambda {names : List String} (h : names.Nodup) (body : Value) :
    freeNames (SpecialForm.lambda.applied i [.list j (names.map .sym), body]) =
      body.freeNames.filter (Value.sym · ∉ names.map Value.sym) := by
  have hparams : SpecialForm.parameterDefect? [] (names.map .sym) = none := by
    have hdefect := SpecialForm.parameterDefect?_eq (i := 0) [] (names.map .sym) rfl
    rw [SpecialForm.parameterNames_map [] h] at hdefect
    exact hdefect
  show (match SpecialForm.parameterDefect? [] (names.map .sym) with
    | none => body.freeNames.filter (Value.sym · ∉ names.map Value.sym)
    | some _ => symbolsOfAll [.list j (names.map .sym), body]) = _
  rw [hparams]

theorem freeNames_application {head : Value} (args : List Value)
    (h : ∀ kind : SpecialForm, head ≠ .sym kind.name) :
    freeNames (.list i (head :: args)) = freeNamesOfAll (head :: args) := by
  rw [freeNames.eq_def]
  simp only [Eval.specialForm?_eq_none h]
  rfl

end Shapes

/-! ## Names are symbols -/

section Subset

variable {names : List String}

theorem freeNamesOfAll_subset {forms : List Value} (h : ∀ form ∈ forms, form.freeNames ⊆ names) :
    freeNamesOfAll forms ⊆ names := by
  intro name hname
  obtain ⟨form, hmem, hname⟩ := mem_freeNamesOfAll.mp hname
  exact h form hmem hname

theorem freeNamesOfBindings_subset (bound : List String) {bindings : List Value}
    (h : ∀ form ∈ bindings, form.freeNames ⊆ names) :
    freeNamesOfBindings bound bindings ⊆ names := by
  induction bindings using boundNames?.induct generalizing bound with
  | case1 => exact List.nil_subset _
  | case2 name form rest ih =>
      obtain ⟨hform, hrest⟩ := List.forall_mem_cons.mp (List.forall_mem_cons.mp h).2
      rw [freeNamesOfBindings]
      refine List.append_subset.mpr ⟨?_, ih _ hrest⟩
      exact List.Subset.trans (List.filter_subset_self _) hform
  | case3 bindings hnil hpair =>
      rw [freeNamesOfBindings]
      · exact List.nil_subset _
      · exact hpair

/-- The shapes of a list in turn; the forms of a `let*` are parts two levels down. -/
theorem freeNames_list_subset {i : Option Serial} {items : List Value}
    (h : ∀ v ∈ items, v.Throughout fun w => w.freeNames ⊆ w.symbols) :
    freeNames (.list i items) ⊆ symbolsOfAll items := by
  have hitem : ∀ form ∈ items, form.symbols ⊆ symbolsOfAll items := fun form hmem name hname =>
    mem_symbolsOfAll.mpr ⟨form, hmem, hname⟩
  have hform : ∀ form ∈ items, form.freeNames ⊆ symbolsOfAll items := fun form hmem =>
    List.Subset.trans (h form hmem).self (hitem form hmem)
  cases items with
  | nil => exact List.nil_subset _
  | cons head args =>
      obtain ⟨hhead, hargs⟩ := List.forall_mem_cons.mp hform
      have hrest : symbolsOfAll args ⊆ symbolsOfAll (head :: args) :=
        List.subset_append_right _ _
      rw [freeNames.eq_def]
      simp only
      split
      case h_1 => exact List.append_subset.mpr ⟨hhead, freeNamesOfAll_subset hargs⟩
      case h_2 | h_3 => exact freeNamesOfAll_subset hargs
      case h_4 name expr _ => exact hargs expr (by simp)
      case h_5 j bindings body _ =>
        split
        · refine List.append_subset.mpr ⟨?_, ?_⟩
          · have hbindings := (h (.list j bindings) (by simp)).items
            refine freeNamesOfBindings_subset [] fun form hmem name hname => ?_
            refine hitem (.list j bindings) (by simp) ?_
            exact mem_symbolsOfAll.mpr ⟨form, hmem, (hbindings form hmem).self hname⟩
          · exact List.Subset.trans (List.filter_subset_self _) (hargs body (by simp))
        · exact hrest
      case h_6 j params body _ =>
        split
        · exact List.Subset.trans (List.filter_subset_self _) (hargs body (by simp))
        · exact hrest
      case h_7 => exact hrest

end Subset

theorem throughout_freeNames_subset (form : Value) :
    form.Throughout fun w => w.freeNames ⊆ w.symbols := by
  induction form using Value.induct with
  | sym name => exact .atom trivial (List.Subset.refl _)
  | list serial items ih => exact .list (freeNames_list_subset ih) ih
  | closure serial params body home ih => exact .closure (List.nil_subset _) ih
  | _ => exact .atom trivial (List.nil_subset _)

/-- Only symbols of a form can be names that it needs. -/
theorem freeNames_subset (form : Value) : form.freeNames ⊆ form.symbols :=
  (throughout_freeNames_subset form).self

/-! ## The names of the parts of a `let*` -/

section LetStar

variable (i j : Option Serial) {bindings : List Value} (body : Value)

/-- The forms that are bound need no more than the whole, also if they are not all bound. -/
theorem freeNamesOfBindings_subset_letStar (bindings : List Value) :
    freeNamesOfBindings [] bindings ⊆
      freeNames (SpecialForm.letStar.applied i [.list j bindings, body]) := by
  rw [freeNames_letStar]
  split
  · exact List.subset_append_left _ _
  · refine freeNamesOfBindings_subset [] fun form hmem name hname => ?_
    refine mem_symbolsOfAll.mpr ⟨.list j bindings, List.mem_cons_self, ?_⟩
    exact mem_symbolsOfAll.mpr ⟨form, hmem, freeNames_subset form hname⟩

/-- The body needs no more than the whole and the names that are bound. -/
theorem mem_freeNames_letStar {names : List String} (hnames : boundNames? bindings = some names)
    {name : String} (hname : name ∈ body.freeNames) (hfree : name ∉ names) :
    name ∈ freeNames (SpecialForm.letStar.applied i [.list j bindings, body]) := by
  rw [freeNames_letStar, hnames]
  refine List.mem_append_right _ (List.mem_filter.mpr ⟨hname, ?_⟩)
  exact decide_eq_true hfree

end LetStar

end TailLisp.Value
