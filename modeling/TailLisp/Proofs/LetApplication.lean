import TailLisp.Proofs.Alikeness
import TailLisp.Proofs.ParameterRenaming
import TailLisp.Proofs.Relocation
import TailLisp.Proofs.TailSteps

/-! # Let and application — two ways to one scope

    A `let*` evaluates its forms in the new frame, one after another and each with those before it
    in scope, and then its body.  A `fn*` that is called at once has its arguments evaluated in the
    frame around it, and all parameters are bound when the new frame is made.  If no form asks for
    one of the names, both come to the same.

    * While the forms are evaluated, the frame of the `let*` has no counterpart: it stands where the
      frame around it does (**`Relocation.beside`**).
    * While the body is evaluated, the frame of the `let*` is the youngest one but one of the other
      side (**`Relocation.within`**).  Frames that were opened inside of it on the way are of no
      use any more.

    * **`let_as_application`** — evaluations end alike under all limits but the smallest, so that
      without limits both end or neither does. -/

namespace TailLisp

open Eval

/-! ## Values -/

namespace NumberChange

variable (ρ : NumberChange) {v : Value}

theorem essence_value (h : v.IsFunctionFree) : (ρ.value v).essence = v.essence := by
  induction v using Value.induct with
  | list i items ih =>
      rw [value_list, Value.essence, Value.essence, Value.essenceItems_eq_map,
        Value.essenceItems_eq_map, List.map_map]
      congr 1
      exact List.map_congr_left fun item hmem => ih item hmem (h.items item hmem)
  | closure => exact absurd trivial h.self
  | _ => rfl

/-- Without functions, a value with other numbers is equal to the value. -/
theorem equal_value (h : v.IsFunctionFree) {room : Nat} (hroom : v.height ≤ room) :
    v.equal room (ρ.value v) = .ok true := by
  rw [Value.equal_eq_alike (.inl hroom), Value.alike_iff.mpr (ρ.essence_value h).symm]

end NumberChange

/-- How two evaluations in store `s` end: with values that look the same, and are equal if there is
    no function in them, or with the same fault. -/
inductive EndAlike (s : Store) : Outcome Value → Outcome Value → Prop where
  | ok {v w : Value} {s' t' : Store} : (∀ room, w.print room = v.print room) →
      (v.IsFunctionFree → ∀ room, v.height ≤ room → v.equal room w = .ok true) →
      s.TracesAlike s' t' → EndAlike s (.ok v s') (.ok w t')
  | error {fault : Fault} {s' t' : Store} : s.TracesAlike s' t' →
      EndAlike s (.error fault s') (.error fault t')

theorem EndAlike.isExhausted_iff {s : Store} {o o' : Outcome Value} (h : EndAlike s o o') :
    IsExhausted o ↔ IsExhausted o' := by
  cases h <;> exact Iff.rfl

namespace Relocation

variable {R : Relocation} {s m t : Store} {e n : FrameId}

theorem Alike.tracesAlike (h : R.Alike m t) (hold : R.old = s.frames.size) :
    s.TracesAlike m t := by
  refine ⟨fun start => ?_, fun f hf => h.older f (hold ▸ hf)⟩
  rw [Store.outputFrom, Store.outputFrom, List.map_drop, List.map_drop, h.lines]

/-- What two computations come to is alike if what they go on with is, wherever they have come
    to. -/
theorem endAlike_bind {α β : Type} {Q : Store → α → β → Prop} {x : Eval α} {y : Eval β}
    {f : α → Eval Value} {g : β → Eval Value} (hold : R.old = s.frames.size)
    (h : R.likeness.Matches m t x y Q)
    (hrest : ∀ m' t' a b, m.GrowsInto m' → R.Alike m' t' → Q m' a b →
      EndAlike s ((f a).run m') ((g b).run t')) :
    EndAlike s ((x >>= f).run m) ((y >>= g).run t) := by
  unfold Likeness.Matches at h
  rw [EStateM.run_bind, EStateM.run_bind]
  generalize x.run m = o at h
  generalize y.run t = o' at h
  cases h with
  | ok hgrows halike hQ => exact hrest _ _ _ _ hgrows halike hQ
  | error _ halike hfails =>
      obtain rfl := hfails
      exact .error (halike.tracesAlike hold)

theorem endAlike_of_matches {x y : Eval Value} (hold : R.old = s.frames.size)
    (h : R.likeness.Matches m t x y R.likeness.Gives) : EndAlike s (x.run m) (y.run t) := by
  rw [← bind_pure x, ← bind_pure y]
  refine endAlike_bind hold h ?_
  rintro m' t' v _ - halike ⟨-, rfl⟩
  exact .ok ((R.guise m').print_value · v) (fun hfree _ => R.equal_value hfree)
    (halike.tracesAlike hold)

/-! ## Binding in turn and at once -/

/-- A form that avoids what it has to, in an absent frame and in the counterpart of that: it leaves
    the absent frame as it is. -/
theorem matches_evaluate_absent (fuel depth : Nat) {form : Value} (h : R.Alike m t)
    (habsent : R.Absent n) (hold : R.old ≤ n) (hread : form.IsRead)
    (hfree : ∀ name, R.Avoids name → ¬ form.Occurs name) :
    R.likeness.Matches m t (evaluate fuel depth form n) (evaluate fuel depth form (R.frame n))
      fun m' v w => R.likeness.Gives m' v w ∧ m'.bindings n = m.bindings n := by
  have hn : n < m.frames.size := h.absent_lt n habsent
  have hsuits : R.Suits m n form := ⟨throughout_fits_of_isRead hread, fun _ => ⟨hread, hfree⟩⟩
  have hagrees := R.correspondence.agrees_evaluate fuel depth m t n form _ _ h
    ⟨rfl, rfl, hn, hold, hsuits⟩
  rw [R.value_of_isRead hread] at hagrees
  -- The form has no `def!`, and what closures define when they are called is in new frames.
  refine hagrees.and_run fun v m' hrun => ?_
  have hseals : form.Seals (n + 1) m n := ⟨hn, fun _ => hfree _ R.avoids_define⟩
  have hspares := spares_evaluate fuel depth hseals
  rw [after_of_ok hrun] at hspares
  rw [Store.bindings, Store.bindings, hspares.frame hn n (Nat.lt_succ_self n)]

/-- **The forms of a `let*` beside the arguments of a call**, by induction on their list.  What the
    `let*` binds on the way is bound in a frame that is absent on the other side. -/
theorem matches_bindEach_mapM (fuel depth i : Nat) {pairs : List (String × Value)}
    (h : R.Alike m t) (habsent : R.Absent n) (hold : R.old ≤ n)
    (hread : ∀ pair ∈ pairs, pair.2.IsRead)
    (hfree : ∀ pair ∈ pairs, ∀ name, R.Avoids name → ¬ pair.2.Occurs name)
    (hnames : ∀ pair ∈ pairs, R.Avoids pair.1) :
    R.likeness.Matches m t (bindEach (evaluate fuel depth) n i (bindingForms pairs))
      ((pairs.map Prod.snd).mapM (evaluate fuel depth · (R.frame n)))
      fun m' _ ws => ∃ vs, R.likeness.GivesAll m' vs ws ∧ vs.length = pairs.length ∧
        m'.bindings n = Bindings.setAll (m.bindings n) ((pairs.map Prod.fst).zip vs) := by
  induction pairs generalizing m t i with
  | nil => exact .pure h ⟨[], ⟨List.forall_mem_nil _, rfl⟩, rfl, rfl⟩
  | cons pair rest ih =>
      obtain ⟨name, form⟩ := pair
      obtain ⟨hform, hread⟩ := List.forall_mem_cons.mp hread
      obtain ⟨hformFree, hfree⟩ := List.forall_mem_cons.mp hfree
      obtain ⟨hname, hnames⟩ := List.forall_mem_cons.mp hnames
      show R.likeness.Matches m t (evaluate fuel depth form n >>= fun v =>
        define n name v >>= fun _ => bindEach (evaluate fuel depth) n (i + 2) (bindingForms rest)) _ _
      rw [List.map_cons, List.mapM_cons]
      refine (matches_evaluate_absent fuel depth h habsent hold hform hformFree).bind ?_
      rintro m₁ t₁ v _ - h₁ ⟨⟨hv, rfl⟩, hkept⟩
      -- Only the `let*` binds at this point; the call has nothing to do.
      have hgrows := Store.GrowsInto.define m₁ n name v
      have h₂ := h₁.define_absent habsent hold hname hv
      refine .ahead (run_define m₁ n name v) hgrows ?_
      -- Behind the rest only the call goes on, and puts its values together.
      rw [← bind_pure (bindEach _ n (i + 2) (bindingForms rest))]
      refine (ih (i + 2) h₂ hread hfree hnames).bind ?_
      rintro m₂ t₂ _ ws hgrows₂ h₃ ⟨vs, hvs, hlength, hbound⟩
      refine .pure h₃ ⟨v :: vs, ?_, congrArg (· + 1) hlength, ?_⟩
      · have hgives : R.likeness.Gives m₁ v (R.value v) := ⟨hv, rfl⟩
        exact Correspondence.givesAll_cons (C := R.correspondence)
          (Correspondence.gives_mono (C := R.correspondence) (hgrows.trans hgrows₂) hgives) hvs
      · rw [hbound, Store.bindings_define_self m₁ (h₁.absent_lt n habsent), hkept]
        rfl

end Relocation

/-! ## Numbers that close a gap -/

/-- The numbers above `n` go down by one, and `n` itself becomes `e`. -/
def closeGap (n e k : Nat) : Nat :=
  if k < n then k else if k = n then e else k - 1

section CloseGap

variable {n e j k : Nat}

theorem closeGap_of_lt (h : k < n) : closeGap n e k = k := if_pos h

theorem closeGap_self : closeGap n e n = e :=
  (if_neg (Nat.lt_irrefl n)).trans (if_pos rfl)

theorem closeGap_of_gt (h : n < k) : closeGap n e k = k - 1 :=
  (if_neg (Nat.lt_asymm h)).trans (if_neg (Nat.ne_of_gt h))

theorem eq_of_closeGap_eq (hj : j ≠ n) (hk : k ≠ n) (h : closeGap n e j = closeGap n e k) :
    j = k := by
  unfold closeGap at h
  split_ifs at h <;> omega

theorem le_closeGap (h : n ≤ k) (hk : k ≠ n) : n ≤ closeGap n e k := by
  rw [closeGap_of_gt (Nat.lt_of_le_of_ne h hk.symm)]
  omega

end CloseGap

/-- The numbers between `n` and `m` go down by one, and `n` itself goes up to the last of them. -/
def rotate (n m k : Nat) : Nat :=
  if m ≤ k then k else closeGap n (m - 1) k

section Rotate

variable {n m j k : Nat}

theorem rotate_of_le (h : m ≤ k) : rotate n m k = k := if_pos h

theorem rotate_of_lt (h : k < m) : rotate n m k = closeGap n (m - 1) k :=
  if_neg (Nat.not_le.mpr h)

theorem eq_of_rotate_eq (h : n < m) (heq : rotate n m j = rotate n m k) : j = k := by
  unfold rotate closeGap at heq
  split_ifs at heq <;> omega

theorem le_rotate (hk : n ≤ k) : n ≤ rotate n m k := by
  unfold rotate closeGap
  split_ifs <;> omega

end Rotate

namespace Relocation

variable {s m t : Store} {e : FrameId}

/-! ## While the forms are evaluated -/

/-- The frame of a `let*` that is made in frame `e` of a store, with no counterpart on the other
    side: all is as it is in `e`.  There the closure that is called has got a number. -/
def beside (s : Store) (e : FrameId) (names : List String) : Relocation where
  frame := closeGap s.frames.size e
  serial := skip s.nextSerial 1
  serial_injective := (skip_strictMono _ _).injective
  old := s.frames.size
  Absent f := f = s.frames.size
  Avoids name := name ∈ SpecialForm.define.name :: SpecialForm.lambda.name :: names
  frame_injective := eq_of_closeGap_eq
  old_le_frame := le_closeGap
  avoids_define := List.mem_cons_self
  avoids_lambda := List.mem_cons_of_mem _ List.mem_cons_self

section Beside

variable {names : List String}

theorem beside_frame_of_lt {f : FrameId} (h : f < s.frames.size) :
    (beside s e names).frame f = f :=
  closeGap_of_lt h

theorem beside_frame_self : (beside s e names).frame s.frames.size = e :=
  closeGap_self

theorem beside_frame_of_gt {f : FrameId} (h : s.frames.size < f) :
    (beside s e names).frame f = f - 1 :=
  closeGap_of_gt h

theorem keeps_beside {v : Value} (h : v.HasNumbers s) : (beside s e names).Keeps v := by
  cases v with
  | list serial items =>
      cases serial with
      | none => rfl
      | some serial => exact congrArg some (skip_of_lt h 1)
  | closure serial params body home => exact ⟨skip_of_lt h.1 1, beside_frame_of_lt h.2⟩
  | _ => trivial

/-- No older frame is inside of the one of the `let*`. -/
theorem not_astray_beside {f : FrameId} (h : f < s.frames.size) :
    ¬ (beside s e names).Astray m f := by
  rintro ⟨g, hg, rfl⟩
  exact Nat.not_lt.mpr (Store.le_of_mem_chain hg) h

theorem alike_beside (hs : s.IsNumbered) (he : e < s.frames.size) :
    (beside s e names).Alike (s.addFrame e []) { s with nextSerial := s.nextSerial + 1 } := by
  have hsize := s.size_addFrame e []
  have hpresent : ∀ {f}, ¬ (beside s e names).Absent f → f ≠ s.frames.size := fun hf => hf
  exact
    { nextFrame := fun k => by
        rw [hsize, beside_frame_of_gt (by omega)]
        show s.frames.size + 1 + k - 1 = s.frames.size + k
        omega
      nextSerial := fun k => by
        show skip s.nextSerial 1 (s.nextSerial + k) = s.nextSerial + 1 + k
        rw [skip_of_le (Nat.le_add_right _ _)]
        omega
      frame_lt := fun f hf => by
        rw [hsize] at hf
        rcases Nat.lt_succ_iff_lt_or_eq.mp hf with hlt | rfl
        · rw [beside_frame_of_lt hlt]
          exact hlt
        · rw [beside_frame_self]
          exact he
      absent_lt := fun f hf => hsize ▸ hf ▸ Nat.lt_succ_self _
      bindings := fun f hf => by
        rw [Store.bindings_addFrame, if_neg (hpresent hf)]
        rcases Nat.lt_or_gt_of_ne hf with hlt | hgt
        · have hkept : (beside s e names).bindings (s.bindings f) = s.bindings f :=
            NumberChange.bindings_eq_self _ fun entry hentry =>
              (hs.values f entry hentry).mono fun _ => keeps_beside
          rw [beside_frame_of_lt hlt, hkept]
          rfl
        · rw [beside_frame_of_gt hgt, s.bindings_of_size_le (Nat.le_of_lt hgt)]
          exact s.bindings_of_size_le (Nat.le_sub_one_of_lt hgt)
      links := fun f hf => by
        rw [Store.outer?_addFrame, if_neg (hpresent hf)]
        rcases Nat.lt_or_gt_of_ne hf with hlt | hgt
        · rw [beside_frame_of_lt hlt]
          cases houter : s.outer? f with
          | none => exact houter
          | some o =>
              rw [Option.map_some, beside_frame_of_lt (hs.links f o houter)]
              exact houter
        · rw [beside_frame_of_gt hgt, s.outer?_of_size_le (Nat.le_of_lt hgt)]
          exact s.outer?_of_size_le (Nat.le_sub_one_of_lt hgt)
      link_lt := fun f o houter => by
        rw [hsize]
        rw [Store.outer?_addFrame] at houter
        split at houter
        · exact Option.some.inj houter ▸ Nat.lt_succ_of_lt he
        · exact Nat.lt_succ_of_lt (hs.links f o houter)
      order := fun f o hf houter => by
        rw [Store.outer?_addFrame, if_neg (hpresent hf)] at houter
        rw [beside_frame_of_lt (s.lt_size_of_outer? houter),
          beside_frame_of_lt (hs.links f o houter)]
      -- Only the frame of the `let*` is absent.  It is new and binds nothing yet.
      through := by
        rintro f name rfl -
        rw [Store.bindings_addFrame_self, Store.outer?_addFrame_self, beside_frame_self]
        exact ⟨rfl, e, he, rfl, beside_frame_of_lt he⟩
      fits := fun f entry hentry => by
        rw [Store.bindings_addFrame] at hentry
        split at hentry
        · cases hentry
        · refine (hs.values f entry hentry).mono fun v hv => ?_
          cases v with
          | closure i params body home =>
              exact ⟨Nat.lt_of_lt_of_le hv.2 (hsize ▸ Nat.le_succ _), not_astray_beside hv.2⟩
          | _ => trivial
      older := fun f hf => (s.bindings_addFrame_of_lt hf e []).symm
      enough := by
        rw [hsize]
        exact ⟨Nat.le_succ _, Nat.le_refl _⟩
      lines := rfl }

end Beside

/-! ## While the body is evaluated -/

/-- The frame of a `let*` in a store `m`, in which its forms have been evaluated, where on the other
    side all frames that were opened by them are older than the one of the call.  Those that are
    inside of the one of the `let*` have no counterpart. -/
def within (s m : Store) (hm : s.frames.size < m.frames.size) : Relocation where
  frame := rotate s.frames.size m.frames.size
  serial := skip s.nextSerial 1
  serial_injective := (skip_strictMono _ _).injective
  old := s.frames.size
  Absent f := f ≠ s.frames.size ∧ f < m.frames.size ∧ s.frames.size ∈ m.chain f
  Avoids _ := True
  frame_injective _ _ := eq_of_rotate_eq hm
  old_le_frame hold _ := le_rotate hold
  avoids_define := trivial
  avoids_lambda := trivial

section Within

variable {names : List String} {hm : s.frames.size < m.frames.size}

theorem within_frame_self : (within s m hm).frame s.frames.size = m.frames.size - 1 :=
  (rotate_of_lt hm).trans closeGap_self

theorem within_frame_of_lt {f : FrameId} (hf : f < s.frames.size) :
    (within s m hm).frame f = f :=
  (rotate_of_lt (Nat.lt_trans hf hm)).trans (closeGap_of_lt hf)

/-- Apart from the frame of the `let*`, all that was there has its place. -/
theorem within_frame {f : FrameId} (hne : f ≠ s.frames.size) (hf : f < m.frames.size) :
    (within s m hm).frame f = (beside s e names).frame f := by
  refine (rotate_of_lt hf).trans ?_
  rcases Nat.lt_or_gt_of_ne hne with hlt | hgt
  · exact (closeGap_of_lt hlt).trans (closeGap_of_lt hlt).symm
  · exact (closeGap_of_gt hgt).trans (closeGap_of_gt hgt).symm

theorem within_frame_of_le {f : FrameId} (hf : m.frames.size ≤ f) :
    (within s m hm).frame f = f :=
  rotate_of_le hf

/-- What leads astray now has done so before. -/
theorem astray_of_astray_within {f : FrameId} (h : (within s m hm).Astray m f) :
    (beside s e names).Astray m f := by
  obtain ⟨g, hg, -, -, hlet⟩ := h
  exact ⟨_, Store.mem_chain_trans hlet hg, rfl⟩

/-- The frame of the `let*` is not astray: what is around it is older. -/
theorem not_astray_within : ¬ (within s m hm).Astray m s.frames.size := by
  rintro ⟨g, hg, hne, -, hlet⟩
  exact hne (Nat.le_antisymm (Store.le_of_mem_chain hg) (Store.le_of_mem_chain hlet))

theorem within_value {v : Value} (h : v.Throughout ((beside s e names).Fits m)) :
    (within s m hm).value v = (beside s e names).value v := by
  have hserial : (within s m hm).serial = (beside s e names).serial := rfl
  refine NumberChange.value_congr hserial (h.mono fun w hw => ?_)
  cases w with
  | closure i params body home =>
      obtain ⟨hhome, hastray⟩ := hw
      exact within_frame (fun heq => not_absent_of_not_astray hastray heq) hhome
  | _ => trivial

theorem throughout_fits_within {v : Value} (h : v.Throughout ((beside s e names).Fits m)) :
    v.Throughout ((within s m hm).Fits m) := by
  refine h.mono fun w hw => ?_
  cases w with
  | closure i params body home => exact ⟨hw.1, mt astray_of_astray_within hw.2⟩
  | _ => trivial

theorem within_bindings {bs : Bindings}
    (h : ∀ entry ∈ bs, entry.2.Throughout ((beside s e names).Fits m)) :
    (within s m hm).bindings bs = (beside s e names).bindings bs := by
  refine List.map_congr_left fun entry hentry => ?_
  obtain ⟨name, v⟩ := entry
  exact congrArg (Prod.mk name) (within_value (h (name, v) hentry))

/-- A frame that is not inside of the one of the `let*` has no link to it. -/
theorem ne_of_outer? (hs : s.IsNumbered) (hgrows : (s.addFrame e []).GrowsInto m) {f o : FrameId}
    (hne : f ≠ s.frames.size) (hpresent : ¬ (within s m hm).Absent f)
    (houter : m.outer? f = some o) : o ≠ s.frames.size := by
  rintro rfl
  rcases Nat.lt_or_gt_of_ne hne with hlt | hgt
  · rw [hgrows.links f (Nat.lt_trans hlt (s.lt_size_addFrame e [])),
      s.outer?_addFrame_of_lt hlt] at houter
    exact Nat.lt_irrefl _ (hs.links f _ houter)
  · exact hpresent ⟨hne, m.lt_size_of_outer? houter,
      Store.mem_chain_of_some houter hgt (m.mem_chain_self _)⟩

variable (hm) in
/-- When the forms have been evaluated, the other side makes the frame of the call. -/
theorem alike_within (hs : s.IsNumbered) (he : e < s.frames.size)
    (hgrows : (s.addFrame e []).GrowsInto m) (h : (beside s e names).Alike m t) :
    (within s m hm).Alike m
      (t.addFrame e ((beside s e names).bindings (m.bindings s.frames.size))) := by
  have hsize' := t.size_addFrame e ((beside s e names).bindings (m.bindings s.frames.size))
  have hlast : m.frames.size - 1 = t.frames.size := by
    rw [← h.frame_size, beside_frame_of_gt hm]
  have hsize : m.frames.size = t.frames.size + 1 :=
    Nat.eq_add_of_sub_eq (Nat.one_le_of_lt hm) hlast
  have hself : (within s m hm).frame s.frames.size = t.frames.size :=
    within_frame_self.trans hlast
  have houterLet : m.outer? s.frames.size = some e := by
    rw [hgrows.links _ (s.lt_size_addFrame e []), Store.outer?_addFrame_self]
  -- The frame of the `let*` has the new one for its counterpart; all others are where they were.
  exact
    { nextFrame := fun k => by
        rw [within_frame_of_le (Nat.le_add_right _ _), hsize', hsize]
      nextSerial := h.nextSerial
      frame_lt := fun f hf => by
        rw [hsize']
        by_cases hne : f = s.frames.size
        · rw [hne, hself]
          exact Nat.lt_succ_self _
        · rw [within_frame hne hf]
          exact Nat.lt_succ_of_lt (h.frame_lt f hf)
      absent_lt := fun f hf => hf.2.1
      bindings := fun f hf => by
        by_cases hne : f = s.frames.size
        · rw [hne, hself, Store.bindings_addFrame_self, within_bindings (h.fits s.frames.size)]
        rcases Nat.lt_or_ge f m.frames.size with hlt | hge
        · rw [within_frame hne hlt, t.bindings_addFrame_of_lt (h.frame_lt f hlt),
            h.bindings f hne, within_bindings (h.fits f)]
        · rw [within_frame_of_le hge, m.bindings_of_size_le hge]
          exact Store.bindings_of_size_le _ (by omega)
      links := fun f hf => by
        by_cases hne : f = s.frames.size
        · rw [hne, hself, Store.outer?_addFrame_self, houterLet, Option.map_some,
            within_frame_of_lt he]
        rcases Nat.lt_or_ge f m.frames.size with hlt | hge
        · rw [within_frame hne hlt, t.outer?_addFrame_of_lt (h.frame_lt f hlt), h.links f hne]
          cases houter : m.outer? f with
          | none => rfl
          | some o =>
              rw [Option.map_some, Option.map_some,
                within_frame (ne_of_outer? hs hgrows hne hf houter) (h.link_lt f o houter)]
        · rw [within_frame_of_le hge, m.outer?_of_size_le hge]
          exact Store.outer?_of_size_le _ (by omega)
      link_lt := h.link_lt
      order := fun f o hf houter => by
        by_cases hne : f = s.frames.size
        · rw [hne, houterLet] at houter
          obtain rfl := Option.some.inj houter
          rw [hne, within_frame_self, within_frame_of_lt he]
          exact iff_of_true (Nat.lt_of_lt_of_le he (Nat.le_sub_one_of_lt hm)) he
        · rw [within_frame hne (m.lt_size_of_outer? houter),
            within_frame (ne_of_outer? hs hgrows hne hf houter) (h.link_lt f o houter)]
          exact h.order f o hne houter
      -- Nothing will be evaluated in or inside of an absent frame, so no name is sought there.
      through := fun f name _ hname => absurd trivial hname
      fits := fun f entry hentry => throughout_fits_within (h.fits f entry hentry)
      older := fun f hf => by
        rw [t.bindings_addFrame_of_lt (Nat.lt_of_lt_of_le hf h.enough.2)]
        exact h.older f hf
      enough := by
        rw [hsize']
        exact ⟨h.enough.1, Nat.le_succ_of_le h.enough.2⟩
      lines := h.lines }

end Within

end Relocation

/-! ## The two forms -/

namespace Value

/-- Names that are bound in a `let*` to forms. -/
def letForm (pairs : List (String × Value)) (body : Value) : Value :=
  SpecialForm.letStar.applied none [.list none (bindingForms pairs), body]

/-- A function that is called where it is made, with forms for its parameters. -/
def callForm (pairs : List (String × Value)) (body : Value) : Value :=
  .list none (functionForm (pairs.map Prod.fst) body :: pairs.map Prod.snd)

end Value

namespace Eval

variable (fuel depth : Nat) {pairs : List (String × Value)} (body : Value) (e : FrameId)
  (s : Store)

/-- The forms of a `let*` are evaluated in its new frame. -/
theorem run_evaluate_letForm :
    (evaluate (fuel + 1) (depth + 1) (.letForm pairs body) e).run s =
      (bindEach (evaluate (fuel + 1) depth) s.frames.size 0 (bindingForms pairs) >>= fun _ =>
        follow (step (evaluate (fuel + 1) depth) depth) fuel body s.frames.size).run
          (s.addFrame e []) := by
  rw [evaluate, follow, Value.letForm, step_special, special,
    if_neg (not_not_intro (even_length_bindingForms pairs))]
  simp only [bind_assoc, pure_bind]
  rfl

/-- The arguments of a function that is called at once are evaluated in the frame of the call, when
    the function has got its number. -/
theorem run_evaluate_callForm (hnodup : (pairs.map Prod.fst).Nodup) :
    (evaluate (fuel + 1) (depth + 2) (.callForm pairs body) e).run s =
      ((pairs.map Prod.snd).mapM (evaluate (fuel + 1) (depth + 1) · e) >>= fun vs =>
        enter (pairs.map Prod.fst) e vs >>= fun child =>
          follow (step (evaluate (fuel + 1) (depth + 1)) (depth + 1)) fuel body child).run
            { s with nextSerial := s.nextSerial + 1 } := by
  have hhead : ∀ kind : SpecialForm,
      Value.functionForm (pairs.map Prod.fst) body ≠ .sym kind.name := fun kind => by rintro ⟨⟩
  have hfn : (evaluate (fuel + 1) (depth + 1) (.functionForm (pairs.map Prod.fst) body) e).run s =
      .ok (.closure s.nextSerial (pairs.map Prod.fst) body e)
        { s with nextSerial := s.nextSerial + 1 } := by
    rw [evaluate, follow, Value.functionForm, step_special, special_lambda _ e hnodup]
    rfl
  rw [evaluate, follow, Value.callForm, step_application _ _ _ hhead]
  simp only [bind_assoc, apply]
  rw [EStateM.run_bind, hfn]
  simp only [bind_assoc, pure_bind]

end Eval

namespace Relocation

/-- **Both forms end alike**, under all limits that let the function be made. -/
theorem endAlike_letForm_callForm (fuel depth : Nat) {pairs : List (String × Value)}
    {body : Value} {e : FrameId} {s : Store} (hnodup : (pairs.map Prod.fst).Nodup)
    (hread : ∀ pair ∈ pairs, pair.2.IsRead)
    (hfree : ∀ pair ∈ pairs, ∀ name ∈ SpecialForm.define.name :: SpecialForm.lambda.name ::
      pairs.map Prod.fst, ¬ pair.2.Occurs name)
    (hbody : body.IsRead) (hs : s.IsNumbered) (he : e < s.frames.size) :
    EndAlike s ((evaluate (fuel + 1) (depth + 2) (.letForm pairs body) e).run s)
      ((evaluate (fuel + 1) (depth + 2) (.callForm pairs body) e).run s) := by
  have hnames : ∀ pair ∈ pairs, pair.1 ∈ SpecialForm.define.name :: SpecialForm.lambda.name ::
      pairs.map Prod.fst := fun pair hpair =>
    List.mem_cons_of_mem _ (List.mem_cons_of_mem _ (List.mem_map_of_mem hpair))
  have hforms := matches_bindEach_mapM (fuel + 1) (depth + 1) 0 (R := beside s e _)
    (alike_beside hs he) rfl (Nat.le_refl _) hread hfree hnames
  rw [beside_frame_self] at hforms
  rw [run_evaluate_letForm, run_evaluate_callForm fuel depth body e s hnodup]
  -- When the forms are evaluated the frames are placed anew, since the call now has a frame, too.
  refine endAlike_bind rfl hforms ?_
  rintro m t - ws hgrows halike ⟨vs, ⟨hfits, hgives⟩, hlength, hbound⟩
  have hm : s.frames.size < m.frames.size :=
    Nat.lt_of_lt_of_le (s.lt_size_addFrame e []) hgrows.grows
  have hwithin := alike_within hm hs he hgrows halike
  have hbs : Bindings.setAll [] ((pairs.map Prod.fst).zip vs) =
      Bindings.ofList ((pairs.map Prod.fst).zip vs) := rfl
  have hws : vs.map (beside s e (pairs.map Prod.fst)).value = ws := hgives.symm
  rw [hbound, Store.bindings_addFrame_self, hbs, ← NumberChange.ofList_zip, hws] at hwithin
  have hlen : ws.length = (pairs.map Prod.fst).length := by
    rw [← hws, List.length_map, List.length_map, hlength]
  have hlast : t.frames.size = (within s m hm).frame s.frames.size := by
    rw [within_frame_self, ← halike.frame_size, beside_frame_of_gt hm]
  have hsuits : (within s m hm).Suits m s.frames.size body :=
    ⟨throughout_fits_of_isRead hbody, fun hastray => absurd hastray not_astray_within⟩
  have hcode : body = (within s m hm).value body :=
    (NumberChange.value_of_isRead _ hbody).symm
  rw [enter, if_pos hlen]
  exact endAlike_of_matches rfl (Correspondence.agrees_follow
    ((within s m hm).correspondence.agrees_evaluate (fuel + 1) (depth + 1)) (depth + 1) fuel
    _ _ _ _ _ _ hwithin ⟨hlast, hcode, hm, Nat.le_refl _, hsuits⟩)

end Relocation

/-- **A `let*` is a function that is called at once.**  If no form of a `let*` asks for one of its
    names, or holds a `def!` or a `fn*`, then its forms may as well be the arguments of a function
    with its names for parameters and its body.  Under all limits that let this function be made
    both forms end alike, so without limits both go on for ever or both end alike.  The names may
    even be those of special forms. -/
theorem let_as_application {pairs : List (String × Value)} {body : Value} {e : FrameId} {s : Store}
    (hnodup : (pairs.map Prod.fst).Nodup) (hread : ∀ pair ∈ pairs, pair.2.IsRead)
    (hfree : ∀ pair ∈ pairs, ∀ name ∈ SpecialForm.define.name :: SpecialForm.lambda.name ::
      pairs.map Prod.fst, ¬ pair.2.Occurs name)
    (hbody : body.IsRead) (hs : s.IsNumbered) (he : e < s.frames.size) :
    (∀ fuel depth, EndAlike s ((evaluate (fuel + 1) (depth + 2) (.letForm pairs body) e).run s)
        ((evaluate (fuel + 1) (depth + 2) (.callForm pairs body) e).run s)) ∧
      (∀ o, Settles (fun limits => evaluate limits.fuel limits.depth (.letForm pairs body) e) s o →
        ∃ o', Settles (fun limits => evaluate limits.fuel limits.depth (.callForm pairs body) e)
          s o' ∧ EndAlike s o o') ∧
      (∀ o', Settles (fun limits => evaluate limits.fuel limits.depth (.callForm pairs body) e)
          s o' →
        ∃ o, Settles (fun limits => evaluate limits.fuel limits.depth (.letForm pairs body) e)
          s o ∧ EndAlike s o o') := by
  have halike := fun fuel depth =>
    Relocation.endAlike_letForm_callForm fuel depth hnodup hread hfree hbody hs he
  have hboth : ∀ limits : Limits, 2 ≤ limits.depth → 2 ≤ limits.fuel →
      EndAlike s ((evaluate limits.fuel limits.depth (.letForm pairs body) e).run s)
        ((evaluate limits.fuel limits.depth (.callForm pairs body) e).run s) := by
    intro limits hdepth hfuel
    obtain ⟨depth, hdepth⟩ := Nat.exists_eq_add_of_le' hdepth
    obtain ⟨fuel, hfuel⟩ := Nat.exists_eq_add_of_le' hfuel
    rw [hdepth, hfuel]
    exact halike (fuel + 1) depth
  refine ⟨halike, fun o ho => ?_, fun o' ho' => ?_⟩
  · exact Settles.beside (fun _ _ h => h.isExhausted_iff.mpr)
      (fun _ hended => evaluate_settles hended rfl) 2 hboth ho
  · exact Settles.beside (R := fun o' o => EndAlike s o o') (fun _ _ h => h.isExhausted_iff.mp)
      (fun _ hended => evaluate_settles hended rfl) 2 hboth ho'

/-- What is bound may be printed on the way, and outlive both forms in a closure. -/
theorem let_as_application_of_closure :
    let pairs := [("x", Value.list none [.sym "prn", .int 7]),
      ("y", Value.list none [.sym "list", .int 1, .int 2])]
    ∀ fuel depth, EndAlike .initial
      ((evaluate (fuel + 1) (depth + 2) (.letForm pairs (.functionForm [] (.sym "y")))
        Store.root).run .initial)
      ((evaluate (fuel + 1) (depth + 2) (.callForm pairs (.functionForm [] (.sym "y")))
        Store.root).run .initial) := by
  intro pairs
  have hprn : (Value.list none [.sym "prn", .int 7]).IsRead :=
    .list (List.forall_mem_cons.mpr ⟨.sym _, List.forall_mem_singleton.mpr (.int _)⟩)
  have hlist : (Value.list none [.sym "list", .int 1, .int 2]).IsRead :=
    .list (List.forall_mem_cons.mpr ⟨.sym _, List.forall_mem_cons.mpr
      ⟨.int _, List.forall_mem_singleton.mpr (.int _)⟩⟩)
  have hread : ∀ pair ∈ pairs, pair.2.IsRead :=
    List.forall_mem_cons.mpr ⟨hprn, List.forall_mem_singleton.mpr hlist⟩
  have hfree : ∀ pair ∈ pairs, ∀ name ∈ SpecialForm.define.name :: SpecialForm.lambda.name ::
      pairs.map Prod.fst, ¬ pair.2.Occurs name := by
    have hint : ∀ (name : String) (n : Int), ¬ (Value.int n).Occurs name := by
      rintro name n ⟨⟩
    simp [pairs, SpecialForm.name, Value.occurs_list_iff, Value.occurs_sym_iff, hint]
  exact (let_as_application (by decide) hread hfree (Value.isRead_functionForm [] (.sym "y"))
    Store.isNumbered_initial (by decide)).1

end TailLisp
