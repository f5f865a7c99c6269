import Mathlib.Data.List.Forall2
import TailLisp.Proofs.Chains
import TailLisp.Proofs.Discipline
import TailLisp.Proofs.Disguise

/-! # Correspondences — two runs side by side

    A `Correspondence` says when two stores are alike, which forms may be evaluated side by side
    in two frames of them, and with which faults the two evaluations may stop.  Values of the one
    side are those of the other in a disguise.  Its laws are about single acts, as those of a
    `Discipline` are; one of them takes apart two forms that are evaluated side by side.

    * **`Likeness`** and **`Correspondence`** — the relations, and their laws.
    * **`Likeness.Matches`** — computations that end alike, with the rule for sequencing.
    * **`Correspondence.agrees_evaluate`** — evaluations side by side end alike, with the same
      limits and however they end; and so do whole texts.

    The proof goes the way of the evaluator, as for disciplines: over the forms that a step
    evaluates, over the chain of steps and over the depth. -/

namespace TailLisp

/-! ## Stores that grow -/

/-- The second store has all frames of the first, with links that lead where they did. -/
structure Store.GrowsInto (s s' : Store) : Prop where
  grows : s.frames.size ≤ s'.frames.size
  links : ∀ f < s.frames.size, s'.outer? f = s.outer? f

namespace Store.GrowsInto

variable {s s₁ s₂ : Store}

theorem of_frames_eq (h : s₁.frames = s.frames) : s.GrowsInto s₁ :=
  ⟨h ▸ Nat.le_refl _, fun f _ => by rw [outer?, outer?, h]⟩

theorem refl (s : Store) : s.GrowsInto s := .of_frames_eq rfl

theorem trans (h : s.GrowsInto s₁) (h' : s₁.GrowsInto s₂) : s.GrowsInto s₂ := by
  refine ⟨Nat.le_trans h.grows h'.grows, fun f hf => ?_⟩
  rw [h'.links f (Nat.lt_of_lt_of_le hf h.grows), h.links f hf]

theorem define (s : Store) (f : FrameId) (name : String) (v : Value) :
    s.GrowsInto (s.define f name v) :=
  ⟨Nat.le_of_eq (s.size_define f name v).symm, fun g _ => s.outer?_define f g name v⟩

theorem addFrame (s : Store) (outer : FrameId) (bindings : Bindings) :
    s.GrowsInto (s.addFrame outer bindings) :=
  ⟨Nat.le_of_lt (s.lt_size_addFrame outer bindings),
    fun _ hf => s.outer?_addFrame_of_lt hf outer bindings⟩

theorem chain (h : s.GrowsInto s₁) {f : FrameId} (hf : f < s.frames.size) :
    s₁.chain f = s.chain f :=
  chain_congr fun g hg => h.links g (Nat.lt_of_le_of_lt hg hf)

end Store.GrowsInto

theorem Store.chain_addFrame_self {s : Store} {f : FrameId} (hf : f < s.frames.size)
    (bs : Bindings) : (s.addFrame f bs).chain s.frames.size = s.frames.size :: s.chain f := by
  rw [chain_of_some (s.outer?_addFrame_self f bs), if_pos hf, (GrowsInto.addFrame s f bs).chain hf]

/-! ## What is alike -/

/-- What is meant by two runs side by side. -/
structure Likeness where
  /-- How the values of the first run look in the second. -/
  guise : Store → Disguise
  Stores : Store → Store → Prop
  /-- The forms that may be evaluated side by side, each in its frame. -/
  Takes : Store → FrameId → Value → FrameId → Value → Prop
  /-- The names that may be bound side by side. -/
  Binds : Store → FrameId → String → FrameId → String → Prop
  Fails : Fault → Fault → Prop

namespace Likeness

variable (L : Likeness)

/-- The values that may come of two evaluations. -/
def Gives (s : Store) (v w : Value) : Prop :=
  (L.guise s).Fits v ∧ w = (L.guise s).value v

/-- The lists of values that may come of two evaluations. -/
def GivesAll (s : Store) (vs ws : List Value) : Prop :=
  (∀ v ∈ vs, (L.guise s).Fits v) ∧ ws = vs.map (L.guise s).value

/-- Bindings of two `let*` that may be made side by side, up to a head that is no symbol. -/
inductive Pairs (s : Store) (e e' : FrameId) : List Value → List Value → Prop where
  | nil : Pairs s e e' [] []
  | cons {name name' : String} {form form' : Value} {rest rest' : List Value} :
      L.Takes s e form e' form' → L.Binds s e name e' name' → Pairs s e e' rest rest' →
      Pairs s e e' (.sym name :: form :: rest) (.sym name' :: form' :: rest')
  | misnamed {head head' : Value} {rest rest' : List Value} : (∀ name, head ≠ .sym name) →
      (∀ name, head' ≠ .sym name) → Pairs s e e' (head :: rest) (head' :: rest')

/-- Two forms of one shape, and what is needed to evaluate them side by side. -/
inductive Twin (s t : Store) (e e' : FrameId) : Value → Value → Prop where
  | self {form form' : Value} : form.IsSelfEvaluating → form'.IsSelfEvaluating →
      L.Gives s form form' → Twin s t e e' form form'
  | found {name name' : String} {v w : Value} : s.lookup? e name = some v →
      t.lookup? e' name' = some w → L.Gives s v w → Twin s t e e' (.sym name) (.sym name')
  | unbound {name name' : String} : s.lookup? e name = none → t.lookup? e' name' = none →
      L.Fails (.error (.unbound name)) (.error (.unbound name')) →
      Twin s t e e' (.sym name) (.sym name')
  | misused {kind : SpecialForm} {i i' : Option Serial} {args args' : List Value}
      {cause cause' : LispError} : kind.misuse? args = some cause →
      kind.misuse? args' = some cause' → L.Fails (.error cause) (.error cause') →
      Twin s t e e' (kind.applied i args) (kind.applied i' args')
  | define {i i' : Option Serial} {name name' : String} {expr expr' : Value} :
      L.Takes s e expr e' expr' → L.Binds s e name e' name' →
      Twin s t e e' (SpecialForm.define.applied i [.sym name, expr])
        (SpecialForm.define.applied i' [.sym name', expr'])
  | letStar {i i' j j' : Option Serial} {bindings bindings' : List Value} {body body' : Value} :
      bindings.length % 2 = 0 → bindings'.length % 2 = 0 →
      L.Stores (s.addFrame e []) (t.addFrame e' []) →
      L.Pairs (s.addFrame e []) s.frames.size t.frames.size bindings bindings' →
      L.Takes (s.addFrame e []) s.frames.size body t.frames.size body' →
      Twin s t e e' (SpecialForm.letStar.applied i [.list j bindings, body])
        (SpecialForm.letStar.applied i' [.list j' bindings', body'])
  | branch {i i' : Option Serial} {cond cond' yes yes' : Value} {no no' : Option Value} :
      L.Takes s e cond e' cond' → L.Takes s e yes e' yes' →
      L.Takes s e (no.getD .nil) e' (no'.getD .nil) →
      Twin s t e e' (SpecialForm.branch.applied i (cond :: yes :: no.toList))
        (SpecialForm.branch.applied i' (cond' :: yes' :: no'.toList))
  | sequence {i i' : Option Serial} {forms forms' : List Value} :
      List.Forall₂ (fun form form' => L.Takes s e form e' form') forms forms' →
      Twin s t e e' (SpecialForm.sequence.applied i forms) (SpecialForm.sequence.applied i' forms')
  | lambda {i i' j j' : Option Serial} {names names' : List String} {body body' : Value} :
      names.Nodup → names'.Nodup →
      L.Gives s (.closure s.nextSerial names body e) (.closure t.nextSerial names' body' e') →
      Twin s t e e' (SpecialForm.lambda.applied i [.list j (names.map .sym), body])
        (SpecialForm.lambda.applied i' [.list j' (names'.map .sym), body'])
  | application {i i' : Option Serial} {head head' : Value} {args args' : List Value} :
      (∀ kind : SpecialForm, head ≠ .sym kind.name) →
      (∀ kind : SpecialForm, head' ≠ .sym kind.name) → L.Takes s e head e' head' →
      List.Forall₂ (fun arg arg' => L.Takes s e arg e' arg') args args' →
      Twin s t e e' (.list i (head :: args)) (.list i' (head' :: args'))

end Likeness

/-- A likeness with the laws that let evaluations go on side by side. -/
structure Correspondence extends Likeness where
  fails_refl (fault : Fault) : Fails fault fault
  guise_mono {s s' v} : s.GrowsInto s' → (guise s).Fits v →
    (guise s').Fits v ∧ (guise s').value v = (guise s).value v
  takes_mono {s s' e form e' form'} : s.GrowsInto s' → Takes s e form e' form' →
    Takes s' e form e' form'
  binds_mono {s s' e name e' name'} : s.GrowsInto s' → Binds s e name e' name' →
    Binds s' e name e' name'
  twin {s t e form e' form'} : Stores s t → Takes s e form e' form' →
    toLikeness.Twin s t e e' form form'
  defined {s t e name e' name' v w} : Stores s t → Binds s e name e' name' →
    toLikeness.Gives s v w → Stores (s.define e name v) (t.define e' name' w)
  counted {s t} : Stores s t → (guise s).serial s.nextSerial = t.nextSerial ∧
    Stores { s with nextSerial := s.nextSerial + 1 } { t with nextSerial := t.nextSerial + 1 }
  recorded {s t v w} : Stores s t → toLikeness.Gives s v w → Stores (s.record v) (t.record w)
  entered {s t i params body home i' params' body' home' vs ws} : Stores s t →
    toLikeness.Gives s (.closure i params body home) (.closure i' params' body' home') →
    toLikeness.GivesAll s vs ws → params'.length = params.length ∧
      (vs.length = params.length →
        Stores (s.addFrame home (Bindings.ofList (params.zip vs)))
            (t.addFrame home' (Bindings.ofList (params'.zip ws))) ∧
          Takes (s.addFrame home (Bindings.ofList (params.zip vs))) s.frames.size body
            t.frames.size body')

/-! ## Computations that end alike -/

namespace Likeness

variable (L : Likeness) {α β α' β' : Type}

/-- Outcomes that are alike, from a store `s` on. -/
inductive Ends (s : Store) (Q : Store → α → β → Prop) : Outcome α → Outcome β → Prop where
  | ok {a : α} {b : β} {s' t' : Store} : s.GrowsInto s' → L.Stores s' t' → Q s' a b →
      Ends s Q (.ok a s') (.ok b t')
  | error {fault fault' : Fault} {s' t' : Store} : s.GrowsInto s' → L.Stores s' t' →
      L.Fails fault fault' → Ends s Q (.error fault s') (.error fault' t')

/-- Computations that come from two stores to outcomes that are alike. -/
def Matches (s t : Store) (x : Eval α) (y : Eval β) (Q : Store → α → β → Prop) : Prop :=
  L.Ends s Q (x.run s) (y.run t)

namespace Matches

variable {L} {s t : Store} {Q : Store → α → β → Prop} {R : Store → α' → β' → Prop}

theorem pure (h : L.Stores s t) {a : α} {b : β} (hQ : Q s a b) :
    L.Matches s t (Pure.pure a) (Pure.pure b) Q :=
  .ok (.refl s) h hQ

theorem throw (h : L.Stores s t) {fault fault' : Fault} (hfails : L.Fails fault fault') :
    L.Matches s t (MonadExcept.throw fault) (MonadExcept.throw fault') Q :=
  .error (.refl s) h hfails

/-- However two computations end, the stores that they leave are alike. -/
theorem after {x : Eval α} {y : Eval β} (h : L.Matches s t x y Q) :
    L.Stores (x.after s) (y.after t) := by
  unfold Matches at h
  unfold Eval.after
  generalize x.run s = o at h
  generalize y.run t = o' at h
  cases h with
  | ok _ hstores _ => exact hstores
  | error _ hstores _ => exact hstores

/-- What is known of results on the one side is known of the pair. -/
theorem and_run {P : Store → α → Prop} {x : Eval α} {y : Eval β} (h : L.Matches s t x y Q)
    (hP : ∀ a s', x.run s = .ok a s' → P s' a) :
    L.Matches s t x y fun s' a b => Q s' a b ∧ P s' a := by
  unfold Matches at h ⊢
  generalize hrun : x.run s = o at h
  generalize y.run t = o' at h
  cases h with
  | ok hgrows hstores hQ => exact .ok hgrows hstores ⟨hQ, hP _ _ hrun⟩
  | error hgrows hstores hfails => exact .error hgrows hstores hfails

/-- One side may go ahead. -/
theorem ahead {x : Eval α} {a : α} {s₁ : Store} {f : α → Eval α'} {y : Eval β'}
    (hrun : x.run s = .ok a s₁) (hgrows : s.GrowsInto s₁) (h : L.Matches s₁ t (f a) y R) :
    L.Matches s t (x >>= f) y R := by
  unfold Matches at h ⊢
  rw [EStateM.run_bind, hrun]
  show L.Ends s R ((f a).run s₁) (y.run t)
  generalize (f a).run s₁ = o at h
  generalize y.run t = o' at h
  cases h with
  | ok hgrows' hstores hR => exact .ok (hgrows.trans hgrows') hstores hR
  | error hgrows' hstores hfails => exact .error (hgrows.trans hgrows') hstores hfails

/-- Sequencing: the rests have to end alike wherever the first parts have come to. -/
theorem bind {x : Eval α} {y : Eval β} {f : α → Eval α'} {g : β → Eval β'}
    (hx : L.Matches s t x y Q)
    (hf : ∀ s' t' a b, s.GrowsInto s' → L.Stores s' t' → Q s' a b →
      L.Matches s' t' (f a) (g b) R) : L.Matches s t (x >>= f) (y >>= g) R := by
  unfold Matches at hx ⊢
  rw [EStateM.run_bind, EStateM.run_bind]
  generalize x.run s = o at hx
  generalize y.run t = o' at hx
  cases hx with
  | @ok a b s' t' hgrows hstores hQ =>
      have hrest := hf s' t' a b hgrows hstores hQ
      unfold Matches at hrest
      show L.Ends s R ((f a).run s') ((g b).run t')
      generalize (f a).run s' = o at hrest
      generalize (g b).run t' = o' at hrest
      cases hrest with
      | ok hgrows' hstores' hR => exact .ok (hgrows.trans hgrows') hstores' hR
      | error hgrows' hstores' hfails => exact .error (hgrows.trans hgrows') hstores' hfails
  | error hgrows hstores hfails => exact .error hgrows hstores hfails

end Matches

/-- What two steps may come to. -/
inductive Reaches (s : Store) : Step → Step → Prop where
  | value {v w : Value} : L.Gives s v w → Reaches s (.value v) (.value w)
  | tail {form form' : Value} {e e' : FrameId} : L.Takes s e form e' form' →
      Reaches s (.tail form e) (.tail form' e')

end Likeness

/-! ## The evaluator -/

namespace Correspondence

open Eval Likeness

variable (C : Correspondence) {nested : Evaluator} {s t : Store} {e e' : FrameId}

/-- An evaluator whose evaluations side by side end alike. -/
def Agrees (nested : Evaluator) : Prop :=
  ∀ s t e form e' form', C.Stores s t → C.Takes s e form e' form' →
    C.Matches s t (nested form e) (nested form' e') C.Gives

variable {C}

theorem gives_mono {s s' : Store} {v w : Value} (h : s.GrowsInto s') (hv : C.Gives s v w) :
    C.Gives s' v w := by
  obtain ⟨hfits, rfl⟩ := hv
  obtain ⟨hfits', hvalue⟩ := C.guise_mono h hfits
  exact ⟨hfits', hvalue.symm⟩

theorem gives_atom (s : Store) {v : Value} (h : v.IsAtom) : C.Gives s v v :=
  ⟨(C.guise s).fits_atom h, ((C.guise s).value_atom h).symm⟩

theorem givesAll_cons {v w : Value} {vs ws : List Value} (hv : C.Gives s v w)
    (hvs : C.GivesAll s vs ws) : C.GivesAll s (v :: vs) (w :: ws) := by
  obtain ⟨hfits, rfl⟩ := hv
  obtain ⟨hall, rfl⟩ := hvs
  exact ⟨List.forall_mem_cons.mpr ⟨hfits, hall⟩, rfl⟩

theorem takesAll_mono {s s' : Store} {forms forms' : List Value} (h : s.GrowsInto s')
    (hforms : List.Forall₂ (fun form form' => C.Takes s e form e' form') forms forms') :
    List.Forall₂ (fun form form' => C.Takes s' e form e' form') forms forms' :=
  hforms.imp fun _ _ => C.takes_mono h

theorem pairs_mono {s s' : Store} {bindings bindings' : List Value} (h : s.GrowsInto s')
    (hpairs : C.Pairs s e e' bindings bindings') : C.Pairs s' e e' bindings bindings' := by
  induction hpairs with
  | nil => exact .nil
  | cons hform hname _ ih => exact .cons (C.takes_mono h hform) (C.binds_mono h hname) ih
  | misnamed hhead hhead' => exact .misnamed hhead hhead'

/-! ### Builtins -/

/-- What has nothing to do with the store ends as itself. -/
theorem matches_of_isPure (h : C.Stores s t) {x : Eval Value} (hx : IsPure Value.IsPlain x) :
    C.Matches s t x x C.Gives := by
  rcases hx with ⟨v, hv, rfl⟩ | ⟨fault, -, rfl⟩
  · exact .pure h (gives_atom s hv.isAtom)
  · exact .throw h (C.fails_refl fault)

theorem matches_call (room : Nat) (b : Builtin) {vs ws : List Value} (h : C.Stores s t)
    (hvs : C.GivesAll s vs ws) : C.Matches s t (b.call room vs) (b.call room ws) C.Gives := by
  obtain ⟨hfits, rfl⟩ := hvs
  by_cases hlist : b = .list
  · subst hlist
    obtain ⟨hserial, hcounted⟩ := C.counted h
    have hgrows : s.GrowsInto { s with nextSerial := s.nextSerial + 1 } := .of_frames_eq rfl
    have hgives : C.Gives s (.list (some s.nextSerial) vs)
        (.list (some t.nextSerial) (vs.map (C.guise s).value)) := by
      refine ⟨(C.guise s).fits_list.mpr hfits, ?_⟩
      rw [(C.guise s).value_list, Option.map_some, hserial]
    exact .ok hgrows hcounted (gives_mono hgrows hgives)
  by_cases hprn : b = .prn
  · subst hprn
    unfold Matches
    rw [Builtin.call, Builtin.call, List.length_map]
    split
    case isFalse => exact .error (.refl s) h (C.fails_refl _)
    case isTrue hcount =>
      obtain ⟨v, rfl⟩ := List.length_eq_one_iff.mp hcount
      have hv : C.Gives s v ((C.guise s).value v) := ⟨hfits v List.mem_cons_self, rfl⟩
      rw [List.map_singleton, Builtin.compute, Builtin.compute, (C.guise s).checkText_value,
        EStateM.run_bind, EStateM.run_bind]
      cases v.checkText room with
      | ok => exact .ok (.of_frames_eq rfl) (C.recorded h hv) (gives_atom _ trivial)
      | error fault => exact .error (.refl s) h (C.fails_refl fault)
  · rw [(C.guise s).call_map room hlist hprn hfits]
    exact matches_of_isPure h (Builtin.isPure_call room hlist hprn vs)

theorem matches_apply (room : Nat) {fn fn' : Value} {vs ws : List Value} (h : C.Stores s t)
    (hfn : C.Gives s fn fn') (hvs : C.GivesAll s vs ws) :
    C.Matches s t (apply room fn vs) (apply room fn' ws) (C.Reaches) := by
  by_cases hfunction : fn.IsFunction
  · cases fn with
    | builtin b =>
        obtain ⟨-, rfl⟩ := hfn
        rw [(C.guise s).value_atom (by trivial)]
        refine (matches_call room b h hvs).bind ?_
        intro s₁ t₁ v w _ h₁ hv
        exact .pure h₁ (.value hv)
    | closure i params body home =>
        have hlook := (C.guise s).looks (.closure i params body home)
        obtain ⟨hfits, rfl⟩ := hfn
        generalize hvalue : (C.guise s).value (.closure i params body home) = fn' at hlook
        cases hlook with
        | atom hatom => exact hatom.elim
        | @closure i _ params' _ body' _ home' =>
            obtain ⟨hparams, hentered⟩ := C.entered h ⟨hfits, hvalue.symm⟩ hvs
            have hws : ws.length = vs.length := by rw [hvs.2, List.length_map]
            rw [apply, apply, enter, enter, hws, hparams]
            by_cases hlen : vs.length = params.length
            · obtain ⟨hstores, hbody⟩ := hentered hlen
              rw [if_pos hlen, if_pos hlen]
              exact .ok (.addFrame s home _) hstores (.tail hbody)
            · rw [if_neg hlen, if_neg hlen]
              exact .error (.refl s) h (C.fails_refl _)
    | _ => exact hfunction.elim
  · obtain ⟨-, rfl⟩ := hfn
    have hfunction' : ¬ ((C.guise s).value fn).IsFunction := by
      rwa [(C.guise s).isFunction_value]
    unfold Matches
    rw [apply_of_not_isFunction hfunction, apply_of_not_isFunction hfunction',
      (C.guise s).print_value]
    cases fn.print room <;> exact .error (.refl s) h (C.fails_refl _)

/-! ### Forms in a row -/

theorem matches_bindEach (hn : C.Agrees nested) (i : Nat) {bindings bindings' : List Value}
    (h : C.Stores s t) (hpairs : C.Pairs s e e' bindings bindings') :
    C.Matches s t (bindEach nested e i bindings) (bindEach nested e' i bindings')
      fun _ _ _ => True := by
  fun_induction bindEach nested e i bindings generalizing s t bindings' with
  | case1 i name form rest ih =>
      cases hpairs with
      | @cons _ name' _ form' _ rest' hform hname hrest =>
          refine (hn s t e form e' form' h hform).bind ?_
          intro s₁ t₁ v w hgrows h₁ hv
          have hname₁ := C.binds_mono hgrows hname
          have hdefine := Store.GrowsInto.define s₁ e name v
          have hbound : C.Matches s₁ t₁ (define e name v) (define e' name' w)
              fun s₂ _ _ => s₁.GrowsInto s₂ :=
            .ok hdefine (C.defined h₁ hname₁ hv) hdefine
          refine hbound.bind ?_
          intro s₂ t₂ _ _ _ h₂ hgrows₂
          exact ih h₂ (pairs_mono (hgrows.trans hgrows₂) hrest)
      | misnamed hhead => exact absurd rfl (hhead name)
  | case2 i name =>
      cases hpairs with
      | misnamed hhead => exact absurd rfl (hhead name)
  | case3 i head rest hpair hsingle =>
      cases hpairs with
      | @cons name _ form _ rest => exact absurd rfl (hpair name form rest rfl)
      | @misnamed _ head' _ rest' hhead hhead' =>
          rw [bindEach]
          · exact .throw h (C.fails_refl _)
          · exact fun name _ _ heq _ => hhead' name heq
          · exact fun name heq _ => hhead' name heq
  | case4 =>
      cases hpairs with
      | nil => exact .pure h trivial

theorem matches_mapM (hn : C.Agrees nested) {forms forms' : List Value} (h : C.Stores s t)
    (hforms : List.Forall₂ (fun form form' => C.Takes s e form e' form') forms forms') :
    C.Matches s t (forms.mapM (nested · e)) (forms'.mapM (nested · e')) C.GivesAll := by
  induction forms generalizing s t forms' with
  | nil =>
      cases hforms
      exact .pure h ⟨List.forall_mem_nil _, rfl⟩
  | cons form rest ih =>
      obtain ⟨form', rest', hform, hrest, rfl⟩ := List.forall₂_cons_left_iff.mp hforms
      rw [List.mapM_cons, List.mapM_cons]
      refine (hn s t e form e' form' h hform).bind ?_
      intro s₁ t₁ v w hgrows h₁ hv
      refine (ih h₁ (takesAll_mono hgrows hrest)).bind ?_
      intro s₂ t₂ vs ws hgrows₂ h₂ hvs
      exact .pure h₂ (givesAll_cons (gives_mono hgrows₂ hv) hvs)

theorem matches_sequence (hn : C.Agrees nested) {forms forms' : List Value} (h : C.Stores s t)
    (hforms : List.Forall₂ (fun form form' => C.Takes s e form e' form') forms forms') :
    C.Matches s t (Eval.sequence nested e forms) (Eval.sequence nested e' forms') C.Reaches := by
  fun_induction Eval.sequence nested e forms generalizing s t forms' with
  | case1 =>
      cases hforms
      exact .pure h (.value (gives_atom s trivial))
  | case2 last =>
      obtain ⟨last', rest', hlast, hrest, rfl⟩ := List.forall₂_cons_left_iff.mp hforms
      cases hrest
      exact .pure h (.tail hlast)
  | case3 form next rest ih =>
      obtain ⟨form', rest', hform, hrest, rfl⟩ := List.forall₂_cons_left_iff.mp hforms
      obtain ⟨next', rest', hnext, hrest', rfl⟩ := List.forall₂_cons_left_iff.mp hrest
      refine (hn s t e form e' form' h hform).bind ?_
      intro s₁ t₁ _ _ hgrows h₁ _
      exact ih h₁ (takesAll_mono hgrows hrest)

/-! ### Steps and runs -/

/-- One step, by what the two forms have in common. -/
theorem matches_step (hn : C.Agrees nested) (room : Nat) {form form' : Value}
    (h : C.Stores s t) (hform : C.Takes s e form e' form') :
    C.Matches s t (step nested room form e) (step nested room form' e') C.Reaches := by
  cases C.twin h hform with
  | self hself hself' hgives =>
      rw [step_self _ _ _ hself, step_self _ _ _ hself']
      exact .pure h (.value hgives)
  | found hname hname' hgives =>
      unfold Matches
      rw [step, step, EStateM.run_bind, EStateM.run_bind, run_lookup_some s hname,
        run_lookup_some t hname']
      exact .ok (.refl s) h (.value hgives)
  | unbound hname hname' hfails =>
      unfold Matches
      rw [step, step, EStateM.run_bind, EStateM.run_bind, run_lookup_none s hname,
        run_lookup_none t hname']
      exact .error (.refl s) h hfails
  | misused hmisuse hmisuse' hfails =>
      rw [step_special, step_special, special_of_misuse nested e hmisuse,
        special_of_misuse nested e' hmisuse']
      exact .throw h hfails
  | @define i i' name name' expr expr' hexpr hname =>
      rw [step_special, step_special, special, special]
      refine (hn s t e expr e' expr' h hexpr).bind ?_
      intro s₁ t₁ v w hgrows h₁ hv
      have hdefine := Store.GrowsInto.define s₁ e name v
      exact .ok hdefine (C.defined h₁ (C.binds_mono hgrows hname) hv)
        (.value (gives_mono hdefine hv))
  | letStar heven heven' hopened hpairs hbody =>
      rw [step_special, step_special, special, special, if_neg (not_not_intro heven),
        if_neg (not_not_intro heven')]
      have hchild : C.Matches s t (newFrame e []) (newFrame e' []) fun s₁ child child' =>
          child = s.frames.size ∧ child' = t.frames.size ∧ s₁ = s.addFrame e [] :=
        .ok (.addFrame s e []) hopened ⟨rfl, rfl, rfl⟩
      refine hchild.bind ?_
      rintro s₁ t₁ child child' - h₁ ⟨rfl, rfl, rfl⟩
      refine (matches_bindEach hn 0 h₁ hpairs).bind ?_
      intro s₂ t₂ _ _ hgrows h₂ _
      exact .pure h₂ (.tail (C.takes_mono hgrows hbody))
  | branch hcond hyes hno =>
      rw [step_special, step_special, special_branch, special_branch]
      refine (hn s t e _ e' _ h hcond).bind ?_
      intro s₁ t₁ v w hgrows h₁ hv
      have htruthy : w.isTruthy = v.isTruthy := by rw [hv.2, (C.guise s₁).isTruthy_value]
      rw [htruthy]
      refine .pure h₁ (.tail ?_)
      split
      · exact C.takes_mono hgrows hyes
      · exact C.takes_mono hgrows hno
  | sequence hforms =>
      rw [step_special, step_special]
      exact matches_sequence hn h hforms
  | lambda hnodup hnodup' hgives =>
      rw [step_special, step_special, special_lambda nested e hnodup,
        special_lambda nested e' hnodup']
      have hgrows : s.GrowsInto { s with nextSerial := s.nextSerial + 1 } := .of_frames_eq rfl
      exact .ok hgrows (C.counted h).2 (.value (gives_mono hgrows hgives))
  | application hhead hhead' hfn hargs =>
      rw [step_application _ _ _ hhead, step_application _ _ _ hhead']
      refine (hn s t e _ e' _ h hfn).bind ?_
      intro s₁ t₁ fn fn' hgrows h₁ hfn
      refine (matches_mapM hn h₁ (takesAll_mono hgrows hargs)).bind ?_
      intro s₂ t₂ vs ws hgrows₂ h₂ hvs
      exact matches_apply room h₂ (gives_mono hgrows₂ hfn) hvs

theorem agrees_follow (hn : C.Agrees nested) (room fuel : Nat) :
    C.Agrees (follow (step nested room) fuel) := by
  induction fuel with
  | zero => exact fun _ _ _ _ _ _ h _ => .throw h (C.fails_refl _)
  | succ n ih =>
      intro s t e form e' form' h hform
      refine (matches_step hn room h hform).bind ?_
      intro s₁ t₁ next next' _ h₁ hnext
      cases hnext with
      | value hv => exact .pure h₁ hv
      | tail htail => exact ih s₁ t₁ _ _ _ _ h₁ htail

variable (C) in
/-- **Evaluations side by side end alike**, by induction on the depth they may take. -/
theorem agrees_evaluate (fuel depth : Nat) : C.Agrees (evaluate fuel depth) := by
  induction depth with
  | zero => exact fun _ _ _ _ _ _ h _ => .throw h (C.fails_refl _)
  | succ n ih => exact agrees_follow ih n fuel

/-! ## Programs -/

section Programs

open Program

variable {limits : Limits} {I : List Token → Prop}

/-- Tokens of which all forms may be evaluated side by side in the root frames. -/
def Admits (C : Correspondence) (limits : Limits) (I : List Token → Prop) : Prop :=
  ∀ s t tokens form rest, C.Stores s t → I tokens →
    Value.readForm limits.depth tokens = (.ok (some form), rest) →
    C.Takes s Store.root form Store.root form ∧ I rest

/-- All forms of a text, by induction on them. -/
theorem matches_fold {α : Type} (visit : α → Value → Eval α) (hI : C.Admits limits I)
    (hvisit : ∀ s t a v w, C.Stores s t → C.Gives s v w →
      C.Matches s t (visit a v) (visit a w) fun _ a b => b = a)
    (h : C.Stores s t) (start : α) {tokens : List Token} (htokens : I tokens) :
    C.Matches s t (fold limits visit start tokens) (fold limits visit start tokens)
      fun _ a b => b = a := by
  induction tokens using Value.readForm_induct limits.depth generalizing s t start with
  | failed tokens fault rest hread =>
      rw [fold_of_error visit start hread]
      exact .throw h (C.fails_refl _)
  | ended tokens rest hread =>
      rw [fold_of_none visit start hread]
      exact .pure h rfl
  | form tokens form rest hread ih =>
      obtain ⟨hform, hrest⟩ := hI s t tokens form rest h htokens hread
      rw [fold_of_some visit start hread]
      refine (C.agrees_evaluate _ _ s t _ form _ form h hform).bind ?_
      intro s₁ t₁ v w _ h₁ hv
      refine (hvisit s₁ t₁ start v w h₁ hv).bind ?_
      rintro s₂ t₂ _ a - h₂ rfl
      exact ih h₂ a hrest

/-- A text that is evaluated for its effect. -/
theorem matches_load (hI : C.Admits limits I) (h : C.Stores s t) {source : String}
    (hsource : I (Token.lex source)) :
    C.Matches s t (load limits source) (load limits source) fun _ a b => b = a :=
  matches_fold _ hI (fun _ _ _ _ _ h _ => .pure h rfl) h () hsource

/-- A text whose values are printed, which look the same. -/
theorem matches_rep (hI : C.Admits limits I) (h : C.Stores s t) {source : String}
    (hsource : I (Token.lex source)) :
    C.Matches s t (rep limits source) (rep limits source) fun _ a b => b = a := by
  refine matches_fold _ hI ?_ h none hsource
  rintro s t a v _ h ⟨-, rfl⟩
  rw [(C.guise s).print_value]
  cases v.print limits.depth with
  | ok shown => exact .pure h rfl
  | error fault => exact .throw h (C.fails_refl _)

end Programs

end Correspondence

end TailLisp
