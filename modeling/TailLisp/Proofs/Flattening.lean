import TailLisp.Proofs.Approximation

/-! # Flattening — a `do` inside a `do`

    The forms of a `do` are evaluated in turn, and the last one takes the place of the whole.  A
    `do` that is one of these forms is evaluated to its end before the next one is taken up; where
    it is the last, the trampoline goes on with it.  Written out in its place, its own last form
    comes to stand in front of others, or its first forms come to be those of the outer `do`.

    It makes no difference, but for limits: evaluating the inner `do` on the way takes one level
    more.  So the two ways approximate each other under slightly larger limits.

    * **`Eval.runThrough`** — a `do` to its end, form by form.
    * **`Eval.runThrough_nested_approximates`** and **`Eval.runThrough_flat_approximates`** — the two
      directions, each by cases on whether a form stands behind the inner `do`.
    * **`nested_sequences_flatten`** — the same outcome, store and output, also of what never
      ends. -/

namespace TailLisp

/-- One more of everything. -/
def Limits.succ (limits : Limits) : Limits := ⟨limits.depth + 1, limits.fuel + 1⟩

namespace Eval

variable {limits : Limits} {e : FrameId}

/-! ## A `do` to its end -/

/-- The forms of a `do` in turn, and what the trampoline makes of the last. -/
def runThrough (limits : Limits) (e : FrameId) (forms : List Value) : Eval Value :=
  sequence (evaluate limits.fuel limits.depth) e forms >>= finish limits

theorem turn_sequence (limits : Limits) (e : FrameId) (i : Option Serial) (forms : List Value) :
    turn limits (SpecialForm.sequence.applied i forms) e = runThrough limits e forms := by
  rw [turn, step_special]
  rfl

theorem runThrough_nil : runThrough limits e [] = pure .nil := rfl

/-- The last form may take a level more than those in front of it. -/
theorem runThrough_singleton (form : Value) :
    runThrough limits e [form] = evaluate limits.fuel (limits.depth + 1) form e := rfl

theorem runThrough_cons {forms : List Value} (h : forms ≠ []) (form : Value) :
    runThrough limits e (form :: forms) =
      evaluate limits.fuel limits.depth form e >>= fun _ => runThrough limits e forms := by
  obtain ⟨next, rest, rfl⟩ := List.exists_cons_of_ne_nil h
  rw [runThrough, sequence, bind_assoc]
  rfl

theorem appends_runThrough (limits : Limits) (e : FrameId) (forms : List Value) :
    Appends (runThrough limits e forms) := by
  rw [← turn_sequence limits e none]
  exact appends_turn limits _ e

theorem approximates_runThrough {limits' : Limits} (hdepth : limits.depth ≤ limits'.depth)
    (hfuel : limits.fuel ≤ limits'.fuel) (e : FrameId) (forms : List Value) :
    Approximates (runThrough limits e forms) (runThrough limits' e forms) := by
  refine (approximates_sequence (approximates_evaluate hfuel hdepth) e forms).bind ?_
  rintro (v | ⟨form, e'⟩)
  · exact .pure v
  · exact approximates_evaluate hfuel (Nat.succ_le_succ hdepth) form e'

theorem approximates_runThrough_succ (limits : Limits) (e : FrameId) (forms : List Value) :
    Approximates (runThrough limits e forms) (runThrough limits.succ e forms) :=
  approximates_runThrough (Nat.le_succ _) (Nat.le_succ _) e forms

/-! ## Forms behind forms -/

/-- Forms in front of others come first, and the last of them is given no less than one level more
    for being the last. -/
theorem runThrough_append_approximates {zs : List Value} (hzs : zs ≠ []) (ys : List Value) :
    Approximates (runThrough limits e (ys ++ zs))
      (runThrough limits e ys >>= fun _ => runThrough limits e zs) := by
  induction ys with
  | nil =>
      rw [List.nil_append, runThrough_nil, pure_bind]
      exact .refl (appends_runThrough limits e zs)
  | cons y ys ih =>
      rw [List.cons_append, runThrough_cons (List.append_ne_nil_of_right_ne_nil ys hzs)]
      by_cases hys : ys = []
      · subst hys
        have hlast := approximates_evaluate (Nat.le_refl limits.fuel) (Nat.le_succ limits.depth) y e
        exact hlast.bind fun _ => .refl (appends_runThrough limits e zs)
      · rw [runThrough_cons hys, bind_assoc]
        exact (Approximates.refl (appends_evaluate _ _ y e)).bind fun _ => ih

/-- With one level more, the last of the forms in front can be evaluated on the way. -/
theorem approximates_runThrough_append {zs : List Value} (hzs : zs ≠ []) (ys : List Value) :
    Approximates (runThrough limits e ys >>= fun _ => runThrough limits e zs)
      (runThrough limits.succ e (ys ++ zs)) := by
  have hrest := approximates_runThrough_succ limits e zs
  induction ys with
  | nil =>
      rw [List.nil_append, runThrough_nil, pure_bind]
      exact hrest
  | cons y ys ih =>
      rw [List.cons_append, runThrough_cons (List.append_ne_nil_of_right_ne_nil ys hzs)]
      by_cases hys : ys = []
      · subst hys
        have hlast := approximates_evaluate (Nat.le_succ limits.fuel)
          (Nat.le_refl (limits.depth + 1)) y e
        exact hlast.bind fun _ => hrest
      · rw [runThrough_cons hys, bind_assoc]
        have hfirst := approximates_evaluate (Nat.le_succ limits.fuel) (Nat.le_succ limits.depth) y e
        exact hfirst.bind fun _ => ih

/-- Forms in front of others do not matter. -/
theorem Approximates.runThrough_append {forms forms' : List Value} (hne : forms ≠ [])
    (hne' : forms' ≠ [])
    (h : Approximates (runThrough limits e forms) (runThrough limits.succ e forms'))
    (xs : List Value) :
    Approximates (runThrough limits e (xs ++ forms)) (runThrough limits.succ e (xs ++ forms')) := by
  induction xs with
  | nil => exact h
  | cons x xs ih =>
      rw [List.cons_append, List.cons_append,
        runThrough_cons (List.append_ne_nil_of_right_ne_nil xs hne),
        runThrough_cons (List.append_ne_nil_of_right_ne_nil xs hne')]
      have hfirst := approximates_evaluate (Nat.le_succ limits.fuel) (Nat.le_succ limits.depth) x e
      exact hfirst.bind fun _ => ih

/-! ## The inner `do` -/

/-- A `do` in front, as far as it gets, is its forms in front. -/
theorem runThrough_nested_approximates (limits : Limits) (e : FrameId) (j : Option Serial)
    (ys zs : List Value) :
    Approximates (runThrough limits e (SpecialForm.sequence.applied j ys :: zs))
      (runThrough limits.succ e (ys ++ zs)) := by
  by_cases hzs : zs = []
  · -- The trampoline takes up the inner `do` in place of the outer one.
    subst hzs
    have hturn := approximates_turn ⟨limits.depth + 1, limits.fuel⟩
      (SpecialForm.sequence.applied j ys) e
    rw [turn_sequence] at hturn
    rw [runThrough_singleton, List.append_nil]
    refine hturn.trans (approximates_runThrough ?_ ?_ e ys)
    · exact Nat.le_refl (limits.depth + 1)
    · exact Nat.le_succ limits.fuel
  · -- The inner `do` is evaluated on the way, to its end.
    have hturn := approximates_turn limits (SpecialForm.sequence.applied j ys) e
    rw [turn_sequence] at hturn
    rw [runThrough_cons hzs]
    exact (hturn.bind fun _ => .refl (appends_runThrough limits e zs)).trans
      (approximates_runThrough_append hzs ys)

/-- Forms in front, as far as they get, are a `do` of them in front. -/
theorem runThrough_flat_approximates (limits : Limits) (e : FrameId) (j : Option Serial)
    (ys zs : List Value) :
    Approximates (runThrough limits e (ys ++ zs))
      (runThrough limits.succ e (SpecialForm.sequence.applied j ys :: zs)) := by
  have hturn := turn_approximates limits (SpecialForm.sequence.applied j ys) e
  rw [turn_sequence] at hturn
  by_cases hzs : zs = []
  · subst hzs
    rw [runThrough_singleton, List.append_nil]
    exact hturn.trans (approximates_evaluate (Nat.le_refl _) (Nat.le_succ _) _ e)
  · rw [runThrough_cons hzs]
    exact (runThrough_append_approximates hzs ys).trans
      (hturn.bind fun _ => approximates_runThrough_succ limits e zs)

/-- A `do` of forms that approximate others, one level and one turn apart. -/
theorem approximates_sequence_forms {forms forms' : List Value}
    (h : ∀ limits, Approximates (runThrough limits e forms) (runThrough limits.succ e forms'))
    (i k : Option Serial) (limits : Limits) :
    ∃ limits' : Limits, Approximates
      (evaluate limits.fuel limits.depth (SpecialForm.sequence.applied i forms) e)
      (evaluate limits'.fuel limits'.depth (SpecialForm.sequence.applied k forms') e) := by
  have hbegin := approximates_turn limits (SpecialForm.sequence.applied i forms) e
  have hend := turn_approximates limits.succ (SpecialForm.sequence.applied k forms') e
  rw [turn_sequence] at hbegin hend
  exact ⟨limits.succ.succ, (hbegin.trans (h limits)).trans hend⟩

end Eval

open Eval

/-- **A `do` inside a `do` can be written out in its place**, unless it is empty and comes last.  The
    evaluations end with the same value or fault and leave the same store, or neither of them ends.
    They print the same in any case. -/
theorem nested_sequences_flatten {ys zs : List Value} (h : ys ≠ [] ∨ zs ≠ []) (xs : List Value)
    (i j k : Option Serial) (e : FrameId) (s : Store) :
    let nested : Limits → Eval Value := fun limits =>
      evaluate limits.fuel limits.depth
        (SpecialForm.sequence.applied i (xs ++ SpecialForm.sequence.applied j ys :: zs)) e
    let flat : Limits → Eval Value := fun limits =>
      evaluate limits.fuel limits.depth (SpecialForm.sequence.applied k (xs ++ (ys ++ zs))) e
    (∀ o, Settles nested s o ↔ Settles flat s o) ∧
      ∀ values, Prints nested s values ↔ Prints flat s values := by
  intro nested flat
  have hinner : SpecialForm.sequence.applied j ys :: zs ≠ [] := List.cons_ne_nil _ _
  have hforms : ys ++ zs ≠ [] :=
    h.elim (List.append_ne_nil_of_left_ne_nil · zs) (List.append_ne_nil_of_right_ne_nil ys)
  have hflat : ∀ limits, ∃ limits', (nested limits).Approximates (flat limits') :=
    approximates_sequence_forms
      (fun limits => (runThrough_nested_approximates limits e j ys zs).runThrough_append
        hinner hforms xs) i k
  have hnested : ∀ limits, ∃ limits', (flat limits).Approximates (nested limits') :=
    approximates_sequence_forms
      (fun limits => (runThrough_flat_approximates limits e j ys zs).runThrough_append
        hforms hinner xs) k i
  refine ⟨fun o => ⟨?_, ?_⟩, fun values => ⟨?_, ?_⟩⟩
  · exact .of_approximates hflat
  · exact .of_approximates hnested
  · exact .of_approximates hflat
  · exact .of_approximates hnested

/-- The last form of the inner `do` defines what is printed behind it, before a division fails. -/
theorem nested_sequences_flatten_of_failing_form :
    let call (b : Builtin) (args : List Value) : Value := .list none (.sym b.name :: args)
    let xs := [call .prn [.int 1]]
    let ys := [call .list [], SpecialForm.define.applied none [.sym "x", .int 2]]
    let zs := [call .prn [.sym "x"], call .div [.sym "x", .int 0], call .prn [.int 3]]
    let nested : Limits → Eval Value := fun limits =>
      evaluate limits.fuel limits.depth (SpecialForm.sequence.applied none
        (xs ++ SpecialForm.sequence.applied none ys :: zs)) Store.root
    ys ≠ [] ∧
      (∃ s, Settles nested .initial (.error (.error .divisionByZero) s) ∧
        s.printed = #[.int 1, .int 2]) ∧
      Prints nested .initial [.int 1, .int 2] := by
  intro call xs ys zs nested
  have hys : ys ≠ [] := List.cons_ne_nil _ _
  obtain ⟨hsettles, hprints⟩ :=
    nested_sequences_flatten (.inl hys) xs none none none Store.root .initial
  -- The forms in one `do` fail within three levels.
  let flat := evaluate 3 3 (SpecialForm.sequence.applied none (xs ++ (ys ++ zs))) Store.root
  have hfault : flat.fault? .initial = some (.error .divisionByZero) := by decide +kernel
  have hprinted : (flat.after .initial).printed = #[.int 1, .int 2] := by decide +kernel
  refine ⟨hys, ?_, (hprints _).mpr ⟨⟨3, 3⟩, ?_⟩⟩
  · cases hrun : flat.run .initial with
    | ok v s =>
        rw [fault?, hrun] at hfault
        cases hfault
    | error fault s =>
        rw [fault?, hrun] at hfault
        obtain rfl := Option.some.inj hfault
        rw [after_of_error hrun] at hprinted
        exact ⟨s, (hsettles _).mpr (evaluate_settles id hrun), hprinted⟩
  · show [.int 1, .int 2] <+: (flat.after .initial).printed.toList
    exact hprinted ▸ List.prefix_refl _

end TailLisp
