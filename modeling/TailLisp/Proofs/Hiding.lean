import TailLisp.Proofs.Renumbering
import TailLisp.Proofs.Scoping

/-! # Hiding — names that nothing asks for

    A name is asked for where a symbol is evaluated.  Symbols at the heads of special forms
    are not: `if` may be bound to anything, and lists that start with it are the same special
    form.  Such a symbol may also be the first parameter of a `fn*` or the first name of a
    `let*`, and then it is bound.

    * **`Value.Bypasses`** — forms that never ask for the hidden names.
    * **`Value.bypasses_of_readForm`** — what such forms are read from: tokens of which a hidden
      symbol is only one that stands for a special form, right behind an opening parenthesis.
    * **`Store.without`** — a store in which hidden names are bound nowhere; what is done to
      the store itself is done to it. -/

namespace TailLisp

/-! ## Forms -/

namespace Value

variable {hidden : List String} {i : Option Serial}

/-- A form whose evaluation asks for none of the hidden names: they are in it only where a list
    begins, and there only as special forms. -/
inductive Bypasses (hidden : List String) : Value → Prop where
  | atom {v : Value} : v.IsAtom → (∀ name ∈ hidden, v ≠ .sym name) → Bypasses hidden v
  | list {i : Option Serial} {items : List Value} : (∀ v ∈ items, Bypasses hidden v) →
      Bypasses hidden (.list i items)
  | special {i : Option Serial} (kind : SpecialForm) {args : List Value} :
      (∀ v ∈ args, Bypasses hidden v) → Bypasses hidden (kind.applied i args)
  | closure {j : Serial} {params : List String} {body : Value} {home : FrameId} :
      Bypasses hidden body → Bypasses hidden (.closure j params body home)

/-- A closure whose body asks for none of the hidden names. -/
def IsInert (hidden : List String) : Value → Prop
  | .closure _ _ body _ => body.Bypasses hidden
  | _ => True

theorem IsAtom.isInert {v : Value} (h : v.IsAtom) (hidden : List String) : v.IsInert hidden := by
  cases v with
  | closure => exact h.elim
  | _ => trivial

namespace Bypasses

theorem nil : Bypasses hidden .nil :=
  .atom trivial fun _ _ => nofun

theorem not_mem {name : String} (h : Bypasses hidden (.sym name)) : name ∉ hidden := by
  cases h with
  | atom _ hne => exact fun hmem => hne name hmem rfl

theorem args {head : Value} {args : List Value} (h : Bypasses hidden (.list i (head :: args))) :
    ∀ v ∈ args, v.Bypasses hidden := by
  cases h with
  | atom hatom => exact hatom.elim
  | list hitems => exact (List.forall_mem_cons.mp hitems).2
  | special kind hargs => exact hargs

theorem items {head : Value} {args : List Value} (h : Bypasses hidden (.list i (head :: args)))
    (hhead : ∀ kind : SpecialForm, head ≠ .sym kind.name) :
    ∀ v ∈ head :: args, v.Bypasses hidden := by
  cases h with
  | atom hatom => exact hatom.elim
  | list hitems => exact hitems
  | special kind => exact absurd rfl (hhead kind)

/-- One item more. -/
theorem concat {items : List Value} (h : Bypasses hidden (.list i items)) {v : Value}
    (hv : v.Bypasses hidden) : Bypasses hidden (.list i (items ++ [v])) := by
  cases h with
  | atom hatom => exact hatom.elim
  | list hitems =>
      exact .list (List.forall_mem_append.mpr ⟨hitems, List.forall_mem_singleton.mpr hv⟩)
  | special kind hargs =>
      exact .special kind (List.forall_mem_append.mpr ⟨hargs, List.forall_mem_singleton.mpr hv⟩)

/-- The closures in a form that asks for no hidden name do not ask for one. -/
theorem throughout_isInert {v : Value} (h : v.Bypasses hidden) :
    v.Throughout (IsInert hidden) := by
  induction h with
  | atom hatom => exact .atom hatom (hatom.isInert hidden)
  | list _ ih => exact .list trivial ih
  | special kind _ ih => exact .list trivial (List.forall_mem_cons.mpr ⟨.atom trivial trivial, ih⟩)
  | closure hbody ih => exact .closure hbody ih

end Bypasses

/-- If nothing is hidden, no form asks for it. -/
theorem bypasses_nil (v : Value) : v.Bypasses [] := by
  induction v using Value.induct with
  | list i items ih => exact .list ih
  | closure i params body home ih => exact .closure ih
  | _ => exact .atom trivial (List.forall_mem_nil _)

theorem throughout_isInert_nil (v : Value) : v.Throughout (IsInert []) :=
  v.bypasses_nil.throughout_isInert

end Value

theorem Store.holds_isInert_nil (s : Store) : s.Holds (Value.IsInert []) :=
  fun _ entry _ => entry.2.throughout_isInert_nil

/-! ## Texts -/

namespace Token

/-- What may stand behind a token: a hidden symbol only if it names a special form, and only
    behind an opening parenthesis. -/
def MayFollow (hidden : List String) (before token : Token) : Prop :=
  ∀ name ∈ hidden, token = ⟨.symbol, name⟩ →
    before = opening ∧ ∃ kind : SpecialForm, kind.name = name

/-- Tokens of which no form asks for a hidden name. -/
def Bypass (hidden : List String) (tokens : List Token) : Prop :=
  (closing :: tokens).IsChain (MayFollow hidden)

variable {hidden : List String} {before : Token} {tokens : List Token}

/-- Tokens without hidden symbols. -/
theorem bypass_of_forall (h : ∀ token ∈ tokens, ∀ name ∈ hidden, token ≠ ⟨.symbol, name⟩) :
    Bypass hidden tokens := by
  have hchain : ∀ before : Token, (before :: tokens).IsChain (MayFollow hidden) := by
    induction tokens with
    | nil => exact fun before => .singleton before
    | cons token rest ih =>
        obtain ⟨htoken, hrest⟩ := List.forall_mem_cons.mp h
        intro before
        refine .cons_cons (fun name hname heq => ?_) (ih hrest token)
        exact absurd heq (htoken name hname)
  exact hchain closing

/-- What may stand behind something else than an opening parenthesis is no hidden symbol. -/
theorem Bypass.of_ne_opening (h : (before :: tokens).IsChain (MayFollow hidden))
    (hbefore : before ≠ opening) : Bypass hidden tokens := by
  cases tokens with
  | nil => exact .singleton _
  | cons token rest =>
      obtain ⟨htoken, hrest⟩ := List.isChain_cons_cons.mp h
      refine List.isChain_cons_cons.mpr ⟨fun name hname heq => ?_, hrest⟩
      exact absurd (htoken name hname heq).1 hbefore

end Token

namespace Value

open Token

variable {hidden : List String}

/-- An atom that is no symbol, or the symbol that its token is. -/
theorem sym_of_role {token : Token} {v : Value} (h : token.role = .ok (.atom v)) :
    v.IsAtom ∧ ∀ name, v = .sym name → token = ⟨.symbol, name⟩ := by
  obtain ⟨kind, text⟩ := token
  cases kind with
  | opening | closing | other => exact nomatch h
  | symbol =>
      have hword := ordinaryOr_readWord text
      have hrole : (readWord text).map Role.atom = .ok (.atom v) := h
      cases hread : readWord text with
      | error fault =>
          rw [hread] at hrole
          exact nomatch hrole
      | ok w =>
          rw [hread] at hrole hword
          obtain rfl : w = v := Role.atom.inj (Except.ok.inj hrole)
          cases hword with
          | nil | bool | int => exact ⟨trivial, nofun⟩
          | sym => exact ⟨trivial, fun name heq => by rw [Value.sym.inj heq]⟩
  | string =>
      have hstring := ordinaryOr_readString text
      have hrole : (readString text).map Role.atom = .ok (.atom v) := h
      cases hread : readString text with
      | error fault =>
          rw [hread] at hrole
          exact nomatch hrole
      | ok w =>
          rw [hread] at hrole hstring
          obtain ⟨shown, rfl⟩ := hstring
          obtain rfl : .str shown = v := Role.atom.inj (Except.ok.inj hrole)
          exact ⟨trivial, nofun⟩

/-- Reading on: the lists that are open ask for no hidden name, and right behind an opening
    parenthesis the innermost of them is empty. -/
theorem bypasses_of_readFrom {limit : Nat} {stack : List (List Value)} {before : Token}
    {tokens rest : List Token} {form : Value}
    (hchain : (before :: tokens).IsChain (MayFollow hidden))
    (hstack : ∀ items ∈ stack, (Value.list none items.reverse).Bypasses hidden)
    (hopen : before = opening → ∃ outer, stack = [] :: outer)
    (hread : readFrom limit stack tokens = (.ok (some form), rest)) :
    form.Bypasses hidden ∧ Bypass hidden rest := by
  fun_induction readFrom limit stack tokens generalizing before with
  | case1 | case2 | case3 | case5 | case6 => cases hread
  | case4 stack token rest hrole hdepth ih =>
      obtain ⟨-, hrest⟩ := List.isChain_cons_cons.mp hchain
      refine ih hrest ?_ (fun _ => ⟨stack, rfl⟩) hread
      exact List.forall_mem_cons.mpr ⟨.list (List.forall_mem_nil _), hstack⟩
  | case7 token rest hrole items =>
      obtain ⟨-, hrest⟩ := List.isChain_cons_cons.mp hchain
      cases hread
      refine ⟨hstack items List.mem_cons_self, .of_ne_opening hrest ?_⟩
      rintro rfl
      cases hrole
  | case8 token rest hrole items outer stack ih =>
      obtain ⟨-, hrest⟩ := List.isChain_cons_cons.mp hchain
      obtain ⟨hitems, hopened⟩ := List.forall_mem_cons.mp hstack
      obtain ⟨houter, hstack⟩ := List.forall_mem_cons.mp hopened
      refine ih hrest (List.forall_mem_cons.mpr ⟨?_, hstack⟩) ?_ hread
      · rw [List.reverse_cons]
        exact houter.concat hitems
      · rintro rfl
        cases hrole
  | case9 token rest v hrole =>
      obtain ⟨htoken, hrest⟩ := List.isChain_cons_cons.mp hchain
      obtain ⟨hatom, hsym⟩ := sym_of_role hrole
      cases hread
      refine ⟨.atom hatom fun name hname heq => ?_, .of_ne_opening hrest ?_⟩
      · obtain ⟨outer, hempty⟩ := hopen (htoken name hname (hsym name heq)).1
        cases hempty
      · rintro rfl
        cases hrole
  | case10 token rest v hrole items stack ih =>
      obtain ⟨htoken, hrest⟩ := List.isChain_cons_cons.mp hchain
      obtain ⟨hatom, hsym⟩ := sym_of_role hrole
      obtain ⟨hitems, hstack⟩ := List.forall_mem_cons.mp hstack
      refine ih hrest (List.forall_mem_cons.mpr ⟨?_, hstack⟩) ?_ hread
      · -- A hidden symbol is the first item of its list and names a special form.
        by_cases hname : ∃ name ∈ hidden, v = .sym name
        · obtain ⟨name, hname, rfl⟩ := hname
          obtain ⟨hbefore, kind, rfl⟩ := htoken name hname (hsym name rfl)
          obtain ⟨outer, hempty⟩ := hopen hbefore
          obtain ⟨rfl, -⟩ := List.cons.inj hempty
          exact .special kind (List.forall_mem_nil _)
        · rw [List.reverse_cons]
          exact hitems.concat (.atom hatom fun name hmem heq => hname ⟨name, hmem, heq⟩)
      · rintro rfl
        cases hrole

theorem bypasses_of_readForm {limit : Nat} {tokens rest : List Token} {form : Value}
    (h : Bypass hidden tokens) (hread : readForm limit tokens = (.ok (some form), rest)) :
    form.Bypasses hidden ∧ Bypass hidden rest :=
  bypasses_of_readFrom h (List.forall_mem_nil _) nofun hread

end Value

/-! ## Bindings and stores -/

namespace Bindings

variable {hidden : List String} {name : String}

/-- The bindings of all names that are not hidden. -/
def without (hidden : List String) (bs : Bindings) : Bindings :=
  bs.filter (·.1 ∉ hidden)

theorem without_cons (hidden : List String) (name : String) (v : Value) (bs : Bindings) :
    without hidden ((name, v) :: bs) =
      if name ∈ hidden then without hidden bs else (name, v) :: without hidden bs := by
  by_cases h : name ∈ hidden
  · rw [if_pos h]
    exact List.filter_cons_of_neg (by simpa using h)
  · rw [if_neg h]
    exact List.filter_cons_of_pos (by simpa using h)

theorem without_nil (bs : Bindings) : without [] bs = bs :=
  List.filter_eq_self.mpr fun _ _ => rfl

theorem get?_without (h : name ∉ hidden) (bs : Bindings) :
    (without hidden bs).get? name = bs.get? name := by
  induction bs with
  | nil => rfl
  | cons entry rest ih =>
      obtain ⟨other, v⟩ := entry
      rw [without_cons]
      by_cases hother : other ∈ hidden
      · have hne : other ≠ name := fun heq => h (heq ▸ hother)
        rw [if_pos hother, ih, get?, if_neg hne]
      · rw [if_neg hother, get?, get?, ih]

theorem without_set (hidden : List String) (name : String) (v : Value) (bs : Bindings) :
    without hidden (bs.set name v) =
      if name ∈ hidden then without hidden bs else (without hidden bs).set name v := by
  induction bs with
  | nil => exact without_cons hidden name v []
  | cons entry rest ih =>
      obtain ⟨other, w⟩ := entry
      rw [set]
      by_cases heq : other = name
      · subst heq
        rw [if_pos rfl, without_cons, without_cons]
        by_cases hname : other ∈ hidden
        · rw [if_pos hname, if_pos hname, if_pos hname]
        · rw [if_neg hname, if_neg hname, if_neg hname, set, if_pos rfl]
      · rw [if_neg heq, without_cons, without_cons, ih]
        by_cases hname : name ∈ hidden
        · rw [if_pos hname, if_pos hname]
        · rw [if_neg hname, if_neg hname]
          by_cases hother : other ∈ hidden
          · rw [if_pos hother, if_pos hother]
          · rw [if_neg hother, if_neg hother, set, if_neg heq]

end Bindings

theorem NumberChange.bindings_without (ρ : NumberChange) (hidden : List String) (bs : Bindings) :
    ρ.bindings (bs.without hidden) = (ρ.bindings bs).without hidden := by
  have hfilter : (ρ.bindings bs).filter (·.1 ∉ hidden) =
      ρ.bindings (bs.filter ((fun entry : String × Value => decide (entry.1 ∉ hidden)) ∘
        fun entry => (entry.1, ρ.value entry.2))) := List.filter_map
  exact hfilter.symm

namespace Store

variable {hidden : List String} {s : Store}

/-- The store in which hidden names are bound nowhere. -/
def without (hidden : List String) (s : Store) : Store :=
  { s with frames := s.frames.map fun frame =>
      { frame with bindings := frame.bindings.without hidden } }

@[simp] theorem size_without (hidden : List String) (s : Store) :
    (s.without hidden).frames.size = s.frames.size :=
  Array.size_map

theorem frame_without (hidden : List String) (s : Store) (f : FrameId) :
    (s.without hidden).frames[f]? = (s.frames[f]?).map fun frame =>
      { frame with bindings := frame.bindings.without hidden } :=
  Array.getElem?_map

theorem without_nil (s : Store) : s.without [] = s := by
  have hframes : s.frames.map (fun frame =>
      ({ frame with bindings := frame.bindings.without [] } : Frame)) = s.frames := by
    have hframe : (fun frame : Frame =>
        ({ frame with bindings := frame.bindings.without [] } : Frame)) = id := by
      funext frame
      rw [Bindings.without_nil]
      rfl
    rw [hframe, Array.map_id]
  rw [without, hframes]

theorem outer?_without (hidden : List String) (s : Store) (f : FrameId) :
    (s.without hidden).outer? f = s.outer? f := by
  rw [outer?, outer?, frame_without]
  cases s.frames[f]? <;> rfl

theorem bindings_without (hidden : List String) (s : Store) (f : FrameId) :
    (s.without hidden).bindings f = (s.bindings f).without hidden := by
  rw [bindings, bindings, frame_without]
  cases s.frames[f]? <;> rfl

theorem chain_without (hidden : List String) (s : Store) (f : FrameId) :
    (s.without hidden).chain f = s.chain f :=
  chain_congr fun g _ => s.outer?_without hidden g

/-- What is not hidden is found as before. -/
theorem lookup?_without {name : String} (h : name ∉ hidden) (f : FrameId) :
    (s.without hidden).lookup? f name = s.lookup? f name := by
  rw [lookup?, lookup?, chain_without]
  congr 1
  funext g
  rw [bindings_without, Bindings.get?_without h]

/-- A definition of a hidden name leaves nothing behind. -/
theorem without_define (hidden : List String) (s : Store) (f : FrameId) (name : String)
    (v : Value) : (s.define f name v).without hidden =
      if name ∈ hidden then s.without hidden else (s.without hidden).define f name v := by
  have hframes : ((s.define f name v).without hidden).frames =
      (if name ∈ hidden then s.without hidden else (s.without hidden).define f name v).frames := by
    refine Array.ext_getElem? fun g => ?_
    rw [frame_without, define, Array.getElem?_modify]
    by_cases hname : name ∈ hidden
    · rw [if_pos hname, frame_without]
      split
      · cases s.frames[g]? with
        | none => rfl
        | some frame =>
            have hset := Bindings.without_set hidden name v frame.bindings
            rw [if_pos hname] at hset
            exact congrArg (fun bs => some (Frame.mk frame.outer bs)) hset
      · rfl
    · rw [if_neg hname, define, Array.getElem?_modify, frame_without]
      split
      · cases s.frames[g]? with
        | none => rfl
        | some frame =>
            have hset := Bindings.without_set hidden name v frame.bindings
            rw [if_neg hname] at hset
            exact congrArg (fun bs => some (Frame.mk frame.outer bs)) hset
      · rfl
  by_cases hname : name ∈ hidden
  · rw [if_pos hname] at hframes ⊢
    exact congrArg (fun frames => Store.mk frames s.nextSerial s.printed) hframes
  · rw [if_neg hname] at hframes ⊢
    exact congrArg (fun frames => Store.mk frames s.nextSerial s.printed) hframes

theorem without_addFrame (hidden : List String) (s : Store) (outer : FrameId) (bs : Bindings) :
    (s.addFrame outer bs).without hidden =
      (s.without hidden).addFrame outer (bs.without hidden) :=
  congrArg (fun frames => Store.mk frames s.nextSerial s.printed) Array.map_push

end Store

end TailLisp
