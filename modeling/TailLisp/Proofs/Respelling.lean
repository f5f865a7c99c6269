import Mathlib.Data.List.Nodup
import TailLisp.Proofs.Correspondence
import TailLisp.Proofs.FreeNames

/-! # Respelling — forms of the same shape

    A form may be written with other symbols, as long as different ones stay different and
    those of special forms stay what they are.  Then it has the same shape: a special form is
    refused for the same reason, or its parts are found in the same places.  So to evaluate
    a form and a respelling of it side by side, little has to be known about the two stores.

    * **`Respelling`** — another way to write forms.
    * **`Respelling.misuse?_map`** — special forms are refused alike.
    * **`Likeness.Reads`** — what a likeness needs for that; **`Likeness.Reads.twin`** takes the
      forms apart. -/

namespace TailLisp

/-! ## Other symbols -/

/-- What a form may be written as, if `value` is done to the items of a list and `name` to
    symbols. -/
inductive Value.Respelt (value : Value → Value) (name : String → String) :
    Value → Value → Prop where
  | sym (x : String) : Respelt value name (.sym x) (.sym (name x))
  | list (i i' : Option Serial) (items : List Value) :
      Respelt value name (.list i items) (.list i' (items.map value))
  | other {v w : Value} : (∀ x, v ≠ .sym x) → (∀ i items, v ≠ .list i items) →
      (∀ x, w ≠ .sym x) → (∀ i items, w ≠ .list i items) → Respelt value name v w

/-- Another way to write forms. -/
structure Respelling where
  value : Value → Value
  name : String → String
  respelt (v : Value) : v.Respelt value name (value v)
  name_injective : Function.Injective name
  special (kind : SpecialForm) : name kind.name = kind.name

namespace Respelling

variable (M : Respelling)

theorem value_sym (x : String) : M.value (.sym x) = .sym (M.name x) := by
  have hspelt := M.respelt (.sym x)
  generalize M.value (.sym x) = w at hspelt
  cases hspelt with
  | sym => rfl
  | other hsym => exact absurd rfl (hsym x)

theorem value_list (i : Option Serial) (items : List Value) :
    ∃ i', M.value (.list i items) = .list i' (items.map M.value) := by
  have hspelt := M.respelt (.list i items)
  generalize M.value (.list i items) = w at hspelt
  cases hspelt with
  | list _ i' => exact ⟨i', rfl⟩
  | other _ hlist => exact absurd rfl (hlist i items)

/-- Only a symbol becomes one. -/
theorem value_eq_sym {v : Value} {x : String} : M.value v = .sym (M.name x) ↔ v = .sym x := by
  constructor
  · intro heq
    have hspelt := M.respelt v
    rw [heq] at hspelt
    generalize hname : Value.sym (M.name x) = w at hspelt
    cases hspelt with
    | sym y => rw [M.name_injective (Value.sym.inj hname)]
    | list => exact nomatch hname
    | other _ _ hsym => exact absurd hname.symm (hsym _)
  · rintro rfl
    exact M.value_sym x

/-- What is no symbol does not become one. -/
theorem value_ne_sym {v : Value} (h : ∀ x, v ≠ .sym x) (y : String) : M.value v ≠ .sym y := by
  intro heq
  have hspelt := M.respelt v
  rw [heq] at hspelt
  generalize hw : Value.sym y = w at hspelt
  cases hspelt with
  | sym x => exact h x rfl
  | list => exact nomatch hw
  | other _ _ hsym => exact hsym y hw.symm

theorem value_ne_special {v : Value} (h : ∀ kind : SpecialForm, v ≠ .sym kind.name)
    (kind : SpecialForm) : M.value v ≠ .sym kind.name := by
  rw [← M.special kind]
  exact mt M.value_eq_sym.mp (h kind)

theorem isSelfEvaluating_value {v : Value} (h : v.IsSelfEvaluating) :
    (M.value v).IsSelfEvaluating := by
  have hspelt := M.respelt v
  generalize M.value v = w at hspelt
  cases hspelt with
  | sym => exact h.elim
  | list i i' items =>
      cases items with
      | nil => trivial
      | cons => exact h.elim
  | other _ _ hsym hlist =>
      cases w with
      | sym x => exact absurd rfl (hsym x)
      | list i items => exact absurd rfl (hlist i items)
      | _ => trivial

theorem map_sym (names : List String) :
    (names.map Value.sym).map M.value = (names.map M.name).map .sym := by
  rw [List.map_map, List.map_map]
  exact List.map_congr_left fun x _ => M.value_sym x

/-! ## Special forms -/

/-- A defect, which may tell of a symbol. -/
def defect : Defect → Defect
  | .duplicateParameter x => .duplicateParameter (M.name x)
  | defect => defect

/-- The refusal of a special form, which may tell of a symbol. -/
def refusal : LispError → LispError
  | .malformed kind defect => .malformed kind (M.defect defect)
  | cause => cause

theorem parameterDefect?_map (earlier params : List Value) :
    SpecialForm.parameterDefect? (earlier.map M.value) (params.map M.value) =
      (SpecialForm.parameterDefect? earlier params).map M.defect := by
  induction params generalizing earlier with
  | nil => rfl
  | cons head rest ih =>
      by_cases hsym : ∃ x, head = .sym x
      · obtain ⟨x, rfl⟩ := hsym
        have hmem : Value.sym (M.name x) ∈ earlier.map M.value ↔ Value.sym x ∈ earlier := by
          rw [List.mem_map]
          constructor
          · rintro ⟨v, hv, heq⟩
            exact M.value_eq_sym.mp heq ▸ hv
          · exact fun hx => ⟨_, hx, M.value_sym x⟩
        have hrest := ih (earlier ++ [.sym x])
        rw [List.map_append, List.map_singleton, M.value_sym] at hrest
        rw [List.map_cons, M.value_sym, SpecialForm.parameterDefect?, SpecialForm.parameterDefect?]
        by_cases hold : Value.sym x ∈ earlier
        · rw [if_pos hold, if_pos (hmem.mpr hold)]
          rfl
        · rw [if_neg hold, if_neg (mt hmem.mp hold)]
          exact hrest
      · have hhead : ∀ x, head = .sym x → False := fun x h => hsym ⟨x, h⟩
        rw [List.map_cons, SpecialForm.parameterDefect?, SpecialForm.parameterDefect?,
          List.length_map]
        · rfl
        · exact hhead
        · exact M.value_ne_sym hhead

theorem defect?_map (kind : SpecialForm) (args : List Value) :
    kind.defect? (args.map M.value) = (kind.defect? args).map M.defect := by
  cases args with
  | nil => cases kind <;> rfl
  | cons first rest =>
      rw [List.map_cons]
      have hspelt := M.respelt first
      generalize M.value first = first' at hspelt
      cases hspelt with
      | sym => cases kind <;> rfl
      | list i i' items =>
          cases kind with
          | letStar =>
              rw [SpecialForm.defect?, SpecialForm.defect?, List.length_map]
              split <;> rfl
          | lambda => exact M.parameterDefect?_map [] items
          | define | branch | sequence => rfl
      | other hsym hlist hsym' hlist' =>
          cases kind with
          | define =>
              rw [SpecialForm.defect?, SpecialForm.defect?]
              · rfl
              · rintro x _ heq
                exact hsym x (List.cons.inj heq).1
              · rintro x _ heq
                exact hsym' x (List.cons.inj heq).1
          | letStar =>
              rw [SpecialForm.defect?, SpecialForm.defect?]
              · rfl
              · rintro i items _ heq
                exact hlist i items (List.cons.inj heq).1
              · rintro i items _ heq
                exact hlist' i items (List.cons.inj heq).1
          | lambda =>
              rw [SpecialForm.defect?, SpecialForm.defect?]
              · rfl
              · rintro i items _ heq
                exact hlist i items (List.cons.inj heq).1
              · rintro i items _ heq
                exact hlist' i items (List.cons.inj heq).1
          | branch | sequence => rfl

/-- **A special form is refused for its shape**, whichever symbols it is written with. -/
theorem misuse?_map (kind : SpecialForm) (args : List Value) :
    kind.misuse? (args.map M.value) = (kind.misuse? args).map M.refusal := by
  rw [SpecialForm.misuse?, SpecialForm.misuse?, List.length_map]
  split
  · rw [M.defect?_map, Option.map_map, Option.map_map]
    rfl
  · rfl

end Respelling

/-! ## Side by side -/

namespace Likeness

/-- What is needed to evaluate the forms that `Suits` allows in frame `e` beside their
    respellings in frame `e'`. -/
structure Reads (L : Likeness) (M : Respelling) (s t : Store) (e e' : FrameId)
    (Suits : Value → Prop) : Prop where
  takes {form : Value} : Suits form → L.Takes s e form e' (M.value form)
  nil : L.Takes s e .nil e' .nil
  binds {i : Option Serial} {name : String} {expr : Value} :
    Suits (SpecialForm.define.applied i [.sym name, expr]) → L.Binds s e name e' (M.name name)
  self {form : Value} : Suits form → form.IsSelfEvaluating → L.Gives s form (M.value form)
  found {name : String} {v : Value} : Suits (.sym name) → s.lookup? e name = some v →
    ∃ w, t.lookup? e' (M.name name) = some w ∧ L.Gives s v w
  unbound {name : String} : Suits (.sym name) → s.lookup? e name = none →
    t.lookup? e' (M.name name) = none ∧
      L.Fails (.error (.unbound name)) (.error (.unbound (M.name name)))
  refused (cause : LispError) : L.Fails (.error cause) (.error (M.refusal cause))
  head {i : Option Serial} {head : Value} {args : List Value} : Suits (.list i (head :: args)) →
    (∀ kind : SpecialForm, head ≠ .sym kind.name) → Suits head
  args {i : Option Serial} {head : Value} {args : List Value} : Suits (.list i (head :: args)) →
    ∀ arg ∈ args, Suits arg
  opened {i j : Option Serial} {bindings : List Value} {body : Value} :
    Suits (SpecialForm.letStar.applied i [.list j bindings, body]) → bindings.length % 2 = 0 →
      L.Stores (s.addFrame e []) (t.addFrame e' []) ∧
        L.Pairs (s.addFrame e []) s.frames.size t.frames.size bindings (bindings.map M.value) ∧
        L.Takes (s.addFrame e []) s.frames.size body t.frames.size (M.value body)
  made {i j : Option Serial} {names : List String} {body : Value} :
    Suits (SpecialForm.lambda.applied i [.list j (names.map .sym), body]) →
      L.Gives s (.closure s.nextSerial names body e)
        (.closure t.nextSerial (names.map M.name) (M.value body) e')

variable {L : Likeness} {M : Respelling} {s t : Store} {e e' : FrameId}

/-- Bindings of a `let*`, all of which may be evaluated and bound. -/
theorem pairs_of_forall {bindings : List Value} (heven : bindings.length % 2 = 0)
    (hforms : ∀ form ∈ bindings, L.Takes s e form e' (M.value form))
    (hnames : ∀ name, .sym name ∈ bindings → L.Binds s e name e' (M.name name)) :
    L.Pairs s e e' bindings (bindings.map M.value) := by
  induction bindings using Value.boundNames?.induct with
  | case1 => exact .nil
  | case2 name form rest ih =>
      rw [List.map_cons, List.map_cons, M.value_sym]
      refine .cons (hforms form (by simp)) (hnames name (by simp)) (ih ?_ ?_ ?_)
      · exact Eval.even_of_pair heven
      · exact fun form hmem => hforms form (by simp [hmem])
      · exact fun name hmem => hnames name (by simp [hmem])
  | case3 bindings hnil hpair =>
      cases bindings with
      | nil => exact (hnil rfl).elim
      | cons head rest =>
          have hhead : ∀ name, head ≠ .sym name := by
            rintro name rfl
            cases rest with
            | nil => exact absurd heven (by simp)
            | cons form rest => exact hpair name form rest rfl
          exact .misnamed hhead (M.value_ne_sym hhead)

namespace Reads

variable {Suits : Value → Prop} (h : L.Reads M s t e e' Suits)
include h

theorem takesAll {forms : List Value} (hforms : ∀ form ∈ forms, Suits form) :
    List.Forall₂ (fun form form' => L.Takes s e form e' form') forms (forms.map M.value) := by
  induction forms with
  | nil => exact .nil
  | cons form rest ih =>
      obtain ⟨hform, hrest⟩ := List.forall_mem_cons.mp hforms
      exact .cons (h.takes hform) (ih hrest)

/-- Special forms, which are refused alike or have the same shape. -/
theorem twin_special {i i' : Option Serial} {kind : SpecialForm} {args : List Value}
    (hform : Suits (kind.applied i args)) :
    L.Twin s t e e' (kind.applied i args) (kind.applied i' (args.map M.value)) := by
  have hargs := h.args hform
  cases hmisuse : kind.misuse? args with
  | some cause =>
      have hmisuse' := M.misuse?_map kind args
      rw [hmisuse] at hmisuse'
      exact .misused hmisuse hmisuse' (h.refused cause)
  | none =>
      cases SpecialForm.wellShaped_of_misuse?_eq_none hmisuse with
      | define name expr =>
          rw [List.map_cons, List.map_singleton, M.value_sym]
          exact .define (h.takes (hargs expr (by simp))) (h.binds hform)
      | letStar j bindings body heven =>
          obtain ⟨hstores, hpairs, hbody⟩ := h.opened hform heven
          obtain ⟨j', hlist⟩ := M.value_list j bindings
          rw [List.map_cons, List.map_singleton, hlist]
          exact .letStar heven (by rwa [List.length_map]) hstores hpairs hbody
      | branch cond yes no =>
          have hmap : (cond :: yes :: no.toList).map M.value =
              M.value cond :: M.value yes :: (no.map M.value).toList := by
            cases no <;> rfl
          rw [hmap]
          refine .branch (h.takes (hargs cond (by simp))) (h.takes (hargs yes (by simp))) ?_
          cases no with
          | none => exact h.nil
          | some no => exact h.takes (hargs no (by simp))
      | sequence => exact .sequence (h.takesAll hargs)
      | lambda j names body hnodup =>
          obtain ⟨j', hlist⟩ := M.value_list j (names.map .sym)
          rw [List.map_cons, List.map_singleton, hlist, M.map_sym]
          exact .lambda hnodup (List.Nodup.map M.name_injective hnodup) (h.made hform)

/-- **A form and its respelling are of one shape**, by cases on the form. -/
theorem twin {form : Value} (hform : Suits form) : L.Twin s t e e' form (M.value form) := by
  cases form with
  | sym name =>
      rw [M.value_sym]
      cases hname : s.lookup? e name with
      | some v =>
          obtain ⟨w, hname', hgives⟩ := h.found hform hname
          exact .found hname hname' hgives
      | none =>
          obtain ⟨hname', hfails⟩ := h.unbound hform hname
          exact .unbound hname hname' hfails
  | list i items =>
      cases items with
      | nil =>
          have hself : Value.IsSelfEvaluating (.list i []) := trivial
          exact .self hself (M.isSelfEvaluating_value hself) (h.self hform hself)
      | cons head args =>
          obtain ⟨i', hlist⟩ := M.value_list i (head :: args)
          rw [hlist, List.map_cons]
          cases hkind : Eval.step.specialForm? head with
          | some kind =>
              obtain rfl := Eval.eq_name_of_specialForm? hkind
              rw [M.value_sym, M.special]
              exact h.twin_special hform
          | none =>
              have hhead := Eval.ne_name_of_specialForm?_eq_none hkind
              exact .application hhead (M.value_ne_special hhead)
                (h.takes (h.head hform hhead)) (h.takesAll (h.args hform))
  | _ => exact .self trivial (M.isSelfEvaluating_value trivial) (h.self hform trivial)

end Reads

end Likeness

end TailLisp
