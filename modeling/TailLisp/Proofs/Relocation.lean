import TailLisp.Proofs.Independence

/-! # Relocation — runs in frames of another arrangement

    Two runs may open their frames in another order, and one of them may open a frame where the
    other goes on in the one around it.  They end alike if each frame that matters has a
    counterpart: with the same bindings, up to the numbers in values, and inside of the counterpart
    of the frame around it.  Frames without counterpart may be there if no closure leads into
    them, and what is evaluated inside of them neither makes a closure there nor asks for what
    they bind.

    * **`Relocation`** — where the frames are, and which have no counterpart.
    * **`Relocation.Alike`** — stores that differ by a relocation, with one lemma for everything
      that changes a store.
    * **`Relocation.correspondence`** — evaluations side by side. -/

namespace TailLisp

/-- Other numbers for frames and serials, in no order. -/
structure Relocation extends NumberChange where
  /-- How many frames are left alone on both sides. -/
  old : Nat
  /-- The frames without a counterpart. -/
  Absent : FrameId → Prop
  /-- The names that are in no form that is evaluated in or inside of an absent frame. -/
  Avoids : String → Prop
  frame_injective {f g : FrameId} : ¬ Absent f → ¬ Absent g → frame f = frame g → f = g
  old_le_frame {f : FrameId} : old ≤ f → ¬ Absent f → old ≤ frame f
  avoids_define : Avoids SpecialForm.define.name
  avoids_lambda : Avoids SpecialForm.lambda.name

namespace Relocation

variable (R : Relocation) {s s' t t' : Store} {e f : FrameId}

/-! ## Frames and values -/

/-- A frame is absent or inside of an absent one. -/
def Astray (s : Store) (f : FrameId) : Prop :=
  ∃ g ∈ s.chain f, R.Absent g

/-- Nothing but closures with homes that have counterparts. -/
def Fits (s : Store) : Value → Prop :=
  Value.HasHome fun home => home < s.frames.size ∧ ¬ R.Astray s home

/-- A form for a frame. -/
structure Suits (s : Store) (f : FrameId) (form : Value) : Prop where
  fits : form.Throughout (R.Fits s)
  astray : R.Astray s f → form.IsRead ∧ ∀ name, R.Avoids name → ¬ form.Occurs name

variable {R}

theorem not_absent_of_not_astray (h : ¬ R.Astray s f) : ¬ R.Absent f :=
  fun habsent => h ⟨f, s.mem_chain_self f, habsent⟩

theorem astray_of_growsInto (h : s.GrowsInto s') (hf : f < s.frames.size) :
    R.Astray s' f ↔ R.Astray s f := by
  rw [Astray, Astray, h.chain hf]

/-- A new frame is astray if the frame around it is. -/
theorem astray_addFrame (hnew : ¬ R.Absent s.frames.size) (hf : f < s.frames.size)
    (bs : Bindings) : R.Astray (s.addFrame f bs) s.frames.size ↔ R.Astray s f := by
  rw [Astray, Astray, Store.chain_addFrame_self hf]
  constructor
  · rintro ⟨g, hg, habsent⟩
    rcases List.mem_cons.mp hg with rfl | hrest
    · exact absurd habsent hnew
    · exact ⟨g, hrest, habsent⟩
  · rintro ⟨g, hg, habsent⟩
    exact ⟨g, List.mem_cons_of_mem _ hg, habsent⟩

theorem fits_mono (h : s.GrowsInto s') (v : Value) (hv : R.Fits s v) : R.Fits s' v := by
  cases v with
  | closure i params body home =>
      obtain ⟨hhome, hastray⟩ := hv
      exact ⟨Nat.lt_of_lt_of_le hhome h.grows, mt (astray_of_growsInto h hhome).mp hastray⟩
  | _ => trivial

theorem throughout_fits_of_isRead {form : Value} (h : form.IsRead) :
    form.Throughout (R.Fits s) :=
  h.throughout (fun _ => Value.hasHome_of_isAtom) fun _ => trivial

theorem suits_of_growsInto (h : s.GrowsInto s') (hf : f < s.frames.size) {form : Value}
    (hform : R.Suits s f form) : R.Suits s' f form :=
  ⟨hform.fits.mono (fits_mono h), fun hastray => hform.astray ((astray_of_growsInto h hf).mp hastray)⟩

/-- A form for a frame suits a new frame inside of it. -/
theorem Suits.addFrame {form : Value} (h : R.Suits s f form) (hnew : ¬ R.Absent s.frames.size)
    (hf : f < s.frames.size) (bs : Bindings) :
    R.Suits (s.addFrame f bs) s.frames.size form :=
  ⟨h.fits.mono (fits_mono (.addFrame s f bs)),
    fun hastray => h.astray ((astray_addFrame hnew hf bs).mp hastray)⟩

theorem Suits.nil (s : Store) (f : FrameId) : R.Suits s f .nil :=
  ⟨.atom trivial trivial, fun _ => ⟨.nil, fun _ _ hoccurs => nomatch hoccurs⟩⟩

theorem Suits.item {i : Option Serial} {items : List Value} (h : R.Suits s f (.list i items))
    {form : Value} (hmem : form ∈ items) : R.Suits s f form := by
  refine ⟨h.fits.items form hmem, fun hastray => ?_⟩
  obtain ⟨hread, havoids⟩ := h.astray hastray
  exact ⟨hread.items form hmem, fun name hname hoccurs => havoids name hname (.item hmem hoccurs)⟩

theorem Suits.not_avoids {name : String} (h : R.Suits s f (.sym name)) (hastray : R.Astray s f) :
    ¬ R.Avoids name :=
  fun hname => (h.astray hastray).2 name hname .sym

/-- What a special form that is avoided is written in. -/
theorem Suits.not_astray {i : Option Serial} {kind : SpecialForm} {args : List Value}
    (h : R.Suits s f (kind.applied i args)) (hkind : R.Avoids kind.name) : ¬ R.Astray s f :=
  fun hastray => (h.astray hastray).2 kind.name hkind (.item List.mem_cons_self .sym)

variable (R) in
/-- Other numbers are a disguise for values whose closures have homes with counterparts. -/
def guise (s : Store) : Disguise where
  value := R.value
  serial := R.serial
  Fits v := v.Throughout (R.Fits s)
  looks := R.looks
  serial_injective := R.serial_injective
  value_injective hv hw heq := R.eq_of_value_eq
    (fun _ _ hf hg => R.frame_injective (not_absent_of_not_astray hf.2)
      (not_absent_of_not_astray hg.2)) hv hw heq
  fits_atom h := .atom h (Value.hasHome_of_isAtom h)
  fits_list := ⟨fun h => h.items, fun h => .list trivial h⟩

/-! ## Stores -/

variable (R) in
/-- Two stores that differ by a relocation. -/
structure Alike (s t : Store) : Prop where
  nextFrame : ∀ k, R.frame (s.frames.size + k) = t.frames.size + k
  nextSerial : ∀ k, R.serial (s.nextSerial + k) = t.nextSerial + k
  frame_lt : ∀ f < s.frames.size, R.frame f < t.frames.size
  absent_lt : ∀ f, R.Absent f → f < s.frames.size
  bindings : ∀ f, ¬ R.Absent f → t.bindings (R.frame f) = R.bindings (s.bindings f)
  links : ∀ f, ¬ R.Absent f → t.outer? (R.frame f) = (s.outer? f).map R.frame
  link_lt : ∀ f o, s.outer? f = some o → o < s.frames.size
  /-- A link leads to an older frame on both sides or on neither. -/
  order : ∀ f o, ¬ R.Absent f → s.outer? f = some o → (R.frame o < R.frame f ↔ o < f)
  /-- An absent frame stands where the frame around it does, and binds no name that is asked for. -/
  through : ∀ f name, R.Absent f → ¬ R.Avoids name → (s.bindings f).get? name = none ∧
    ∃ o < f, s.outer? f = some o ∧ R.frame o = R.frame f
  fits : s.Holds (R.Fits s)
  older : ∀ f < R.old, t.bindings f = s.bindings f
  enough : R.old ≤ s.frames.size ∧ R.old ≤ t.frames.size
  lines : t.printed.toList.map Store.lineOf = s.printed.toList.map Store.lineOf

namespace Alike

theorem frame_size (h : R.Alike s t) : R.frame s.frames.size = t.frames.size :=
  h.nextFrame 0

/-- New frames have counterparts. -/
theorem not_absent_size (h : R.Alike s t) : ¬ R.Absent s.frames.size :=
  fun habsent => Nat.lt_irrefl _ (h.absent_lt _ habsent)

/-! ### Looking up -/

/-- **Names are found alike**, by induction on the frame: a frame is asked first and then the one
    around it; an absent one does not know and its counterpart is that of the one around it. -/
theorem lookup? (h : R.Alike s t) {name : String} (hname : R.Astray s f → ¬ R.Avoids name) :
    t.lookup? (R.frame f) name = (s.lookup? f name).map R.value := by
  induction f using Nat.strongRecOn with
  | ind f ih =>
      have houtside : ∀ {o}, s.outer? f = some o → o < f → R.Astray s o → ¬ R.Avoids name := by
        rintro o houter ho ⟨g, hg, habsent⟩
        exact hname ⟨g, Store.mem_chain_of_some houter ho hg, habsent⟩
      by_cases habsent : R.Absent f
      · obtain ⟨hnone, o, ho, houter, heq⟩ :=
          h.through f name habsent (hname ⟨f, s.mem_chain_self f, habsent⟩)
        rw [Store.lookup?_of_some houter ho, hnone, ← heq]
        exact ih o ho (houtside houter ho)
      have hinner : (t.bindings (R.frame f)).get? name =
          ((s.bindings f).get? name).map R.value := by
        rw [h.bindings f habsent]
        exact R.get?_bindings name _
      have hlink := h.links f habsent
      cases houter : s.outer? f with
      | none =>
          rw [houter] at hlink
          rw [Store.lookup?_of_chain (Store.chain_of_none houter),
            Store.lookup?_of_chain (Store.chain_of_none hlink), hinner]
      | some o =>
          rw [houter] at hlink
          -- A chain ends at a link that does not lead to an older frame, on both sides alike.
          have horder := h.order f o habsent houter
          by_cases ho : o < f
          · rw [Store.lookup?_of_some houter ho, Store.lookup?_of_some hlink (horder.mpr ho),
              hinner, ih o ho (houtside houter ho)]
            cases (s.bindings f).get? name <;> rfl
          · have hchain : s.chain f = [f] := by
              rw [Store.chain_of_some houter, if_neg ho]
            have hchain' : t.chain (R.frame f) = [R.frame f] := by
              rw [Store.chain_of_some hlink, if_neg (mt horder.mp ho)]
            rw [Store.lookup?_of_chain hchain, Store.lookup?_of_chain hchain', hinner]

/-! ### Changing -/

/-- What leaves the number of the frames and their links alone. -/
theorem of_links (h : R.Alike s t) (hsize : s'.frames.size = s.frames.size)
    (hsize' : t'.frames.size = t.frames.size) (hlinks : ∀ g, s'.outer? g = s.outer? g)
    (hlinks' : ∀ g, t'.outer? g = t.outer? g)
    (hserial : ∀ k, R.serial (s'.nextSerial + k) = t'.nextSerial + k)
    (hbindings : ∀ g, ¬ R.Absent g → t'.bindings (R.frame g) = R.bindings (s'.bindings g))
    (hunknown : ∀ g name, R.Absent g → ¬ R.Avoids name → (s'.bindings g).get? name = none)
    (hfits : s'.Holds (R.Fits s')) (holder : ∀ g < R.old, t'.bindings g = s'.bindings g)
    (hlines : t'.printed.toList.map Store.lineOf = s'.printed.toList.map Store.lineOf) :
    R.Alike s' t' where
  nextFrame := by
    rw [hsize, hsize']
    exact h.nextFrame
  nextSerial := hserial
  frame_lt := by
    rw [hsize, hsize']
    exact h.frame_lt
  absent_lt := by
    rw [hsize]
    exact h.absent_lt
  bindings := hbindings
  links g hg := by
    rw [hlinks, hlinks']
    exact h.links g hg
  link_lt g o := by
    rw [hlinks, hsize]
    exact h.link_lt g o
  order g o hg := by
    rw [hlinks]
    exact h.order g o hg
  through g name hg hname := by
    rw [hlinks]
    exact ⟨hunknown g name hg hname, (h.through g name hg hname).2⟩
  fits := hfits
  older := holder
  enough := by
    rw [hsize, hsize']
    exact h.enough
  lines := hlines

theorem define (h : R.Alike s t) (hf : f < s.frames.size) (hold : R.old ≤ f)
    (hpresent : ¬ R.Absent f) (name : String) {v : Value} (hv : v.Throughout (R.Fits s)) :
    R.Alike (s.define f name v) (t.define (R.frame f) name (R.value v)) := by
  refine h.of_links (s.size_define f name v) (t.size_define _ name _)
    (fun g => s.outer?_define f g name v) (fun g => t.outer?_define _ g name _) h.nextSerial
    (fun g hg => ?_) (fun g other hg hother => ?_)
    (h.fits.define hv (fits_mono (.define s f name v)) name) (fun g hg => ?_) h.lines
  · by_cases hfg : f = g
    · subst hfg
      rw [Store.bindings_define_self s hf, Store.bindings_define_self t (h.frame_lt f hf),
        h.bindings f hg]
      exact R.set_bindings name v _
    · rw [Store.bindings_define_of_ne s hfg,
        Store.bindings_define_of_ne t fun heq => hfg (R.frame_injective hpresent hg heq)]
      exact h.bindings g hg
  · have hfg : f ≠ g := by
      rintro rfl
      exact hpresent hg
    rw [Store.bindings_define_of_ne s hfg]
    exact (h.through g other hg hother).1
  · have hframe := R.old_le_frame hold hpresent
    rw [Store.bindings_define_of_ne s (Nat.ne_of_gt (Nat.lt_of_lt_of_le hg hold)),
      Store.bindings_define_of_ne t (Nat.ne_of_gt (Nat.lt_of_lt_of_le hg hframe))]
    exact h.older g hg

/-- What is defined in an absent frame shows nowhere. -/
theorem define_absent (h : R.Alike s t) (habsent : R.Absent f) (hold : R.old ≤ f) {name : String}
    (hname : R.Avoids name) {v : Value} (hv : v.Throughout (R.Fits s)) :
    R.Alike (s.define f name v) t := by
  refine h.of_links (s.size_define f name v) rfl (fun g => s.outer?_define f g name v)
    (fun _ => rfl) h.nextSerial (fun g hg => ?_) (fun g other hg hother => ?_)
    (h.fits.define hv (fits_mono (.define s f name v)) name) (fun g hg => ?_) h.lines
  · have hfg : f ≠ g := by
      rintro rfl
      exact hg habsent
    rw [Store.bindings_define_of_ne s hfg]
    exact h.bindings g hg
  · have hunknown := (h.through g other hg hother).1
    by_cases hfg : f = g
    · subst hfg
      have hne : name ≠ other := fun heq => hother (heq ▸ hname)
      rw [Store.bindings_define_self s (h.absent_lt f habsent), Bindings.get?_set, if_neg hne]
      exact hunknown
    · rw [Store.bindings_define_of_ne s hfg]
      exact hunknown
  · rw [Store.bindings_define_of_ne s (Nat.ne_of_gt (Nat.lt_of_lt_of_le hg hold))]
    exact h.older g hg

theorem addFrame (h : R.Alike s t) (hf : f < s.frames.size) {bs : Bindings}
    (hbs : ∀ entry ∈ bs, entry.2.Throughout (R.Fits s)) :
    R.Alike (s.addFrame f bs) (t.addFrame (R.frame f) (R.bindings bs)) := by
  have hsize := s.size_addFrame f bs
  have hsize' := t.size_addFrame (R.frame f) (R.bindings bs)
  -- The counterparts of other frames are none of the new one.
  have hother : ∀ {g}, ¬ R.Absent g → g ≠ s.frames.size → R.frame g ≠ t.frames.size :=
    fun hg hne heq => hne (R.frame_injective hg h.not_absent_size (heq.trans h.frame_size.symm))
  exact
    { nextFrame := fun k => by
        rw [hsize, hsize', Nat.add_assoc, Nat.add_assoc]
        exact h.nextFrame (1 + k)
      nextSerial := h.nextSerial
      frame_lt := fun g hg => by
        rw [hsize] at hg
        rw [hsize']
        rcases Nat.lt_succ_iff_lt_or_eq.mp hg with hlt | rfl
        · exact Nat.lt_succ_of_lt (h.frame_lt g hlt)
        · exact h.frame_size ▸ Nat.lt_succ_self _
      absent_lt := fun g hg => by
        rw [hsize]
        exact Nat.lt_succ_of_lt (h.absent_lt g hg)
      bindings := fun g hg => by
        rw [Store.bindings_addFrame, Store.bindings_addFrame]
        by_cases hgs : g = s.frames.size
        · rw [if_pos hgs, if_pos (hgs ▸ h.frame_size)]
        · rw [if_neg hgs, if_neg (hother hg hgs)]
          exact h.bindings g hg
      links := fun g hg => by
        rw [Store.outer?_addFrame, Store.outer?_addFrame]
        by_cases hgs : g = s.frames.size
        · rw [if_pos hgs, if_pos (hgs ▸ h.frame_size)]
          rfl
        · rw [if_neg hgs, if_neg (hother hg hgs)]
          exact h.links g hg
      link_lt := fun g o houter => by
        rw [Store.outer?_addFrame] at houter
        rw [hsize]
        split at houter
        · exact Option.some.inj houter ▸ Nat.lt_succ_of_lt hf
        · exact Nat.lt_succ_of_lt (h.link_lt g o houter)
      order := fun g o hg houter => by
        rw [Store.outer?_addFrame] at houter
        split at houter
        case isTrue hgs =>
          obtain rfl := Option.some.inj houter
          rw [hgs, h.frame_size]
          exact iff_of_true (h.frame_lt f hf) hf
        case isFalse => exact h.order g o hg houter
      through := fun g name hg hname => by
        have hgs := Nat.ne_of_lt (h.absent_lt g hg)
        rw [Store.bindings_addFrame, if_neg hgs, Store.outer?_addFrame, if_neg hgs]
        exact h.through g name hg hname
      fits := h.fits.addFrame hbs (fits_mono (.addFrame s f bs))
      older := fun g hg => by
        obtain ⟨hs, ht⟩ := h.enough
        rw [s.bindings_addFrame_of_lt (Nat.lt_of_lt_of_le hg hs),
          t.bindings_addFrame_of_lt (Nat.lt_of_lt_of_le hg ht)]
        exact h.older g hg
      enough := by
        rw [hsize, hsize']
        exact ⟨Nat.le_succ_of_le h.enough.1, Nat.le_succ_of_le h.enough.2⟩
      lines := h.lines }

/-- What leaves the frames alone. -/
theorem of_frames_eq (h : R.Alike s t) (hs : s'.frames = s.frames) (ht : t'.frames = t.frames)
    (hserial : ∀ k, R.serial (s'.nextSerial + k) = t'.nextSerial + k)
    (hlines : t'.printed.toList.map Store.lineOf = s'.printed.toList.map Store.lineOf) :
    R.Alike s' t' := by
  have hbindings : ∀ g, s'.bindings g = s.bindings g := fun g => by
    rw [Store.bindings, Store.bindings, hs]
  have hbindings' : ∀ g, t'.bindings g = t.bindings g := fun g => by
    rw [Store.bindings, Store.bindings, ht]
  refine h.of_links (congrArg _ hs) (congrArg _ ht) (fun g => ?_) (fun g => ?_) hserial
    (fun g hg => ?_) (fun g name hg hname => ?_) (h.fits.of_frames_eq hs
      (fits_mono (.of_frames_eq hs))) (fun g hg => ?_) hlines
  · rw [Store.outer?, Store.outer?, hs]
  · rw [Store.outer?, Store.outer?, ht]
  · rw [hbindings, hbindings']
    exact h.bindings g hg
  · rw [hbindings]
    exact (h.through g name hg hname).1
  · rw [hbindings, hbindings']
    exact h.older g hg

theorem countSerial (h : R.Alike s t) :
    R.Alike { s with nextSerial := s.nextSerial + 1 }
      { t with nextSerial := t.nextSerial + 1 } := by
  refine h.of_frames_eq rfl rfl (fun k => ?_) h.lines
  rw [Nat.add_assoc, Nat.add_assoc]
  exact h.nextSerial (1 + k)

theorem record (h : R.Alike s t) (v : Value) :
    R.Alike (s.record v) (t.record (R.value v)) := by
  refine h.of_frames_eq rfl rfl h.nextSerial ?_
  rw [Store.record, Store.record, Array.toList_push, Array.toList_push, List.map_append,
    List.map_append, h.lines, List.map_singleton, List.map_singleton, R.lineOf_value]

end Alike

/-! ## Evaluations -/

variable (R) in
/-- What is alike: stores that differ by a relocation, and forms with other numbers. -/
def likeness : Likeness where
  guise := R.guise
  Stores := R.Alike
  Takes s e form e' form' := e' = R.frame e ∧ form' = R.value form ∧ e < s.frames.size ∧
    R.old ≤ e ∧ R.Suits s e form
  Binds s e name e' name' := e' = R.frame e ∧ name' = name ∧ e < s.frames.size ∧ R.old ≤ e ∧
    ¬ R.Absent e
  Fails fault fault' := fault' = fault

theorem reads (h : R.Alike s t) (he : e < s.frames.size) (hold : R.old ≤ e) :
    R.likeness.Reads R.respelling s t e (R.frame e) (R.Suits s e) where
  takes hform := ⟨rfl, rfl, he, hold, hform⟩
  nil := ⟨rfl, rfl, he, hold, .nil s e⟩
  binds hform :=
    ⟨rfl, rfl, he, hold, not_absent_of_not_astray (hform.not_astray R.avoids_define)⟩
  self hform _ := ⟨hform.fits, rfl⟩
  found hname hv := by
    have hlookup := h.lookup? hname.not_avoids
    rw [hv] at hlookup
    exact ⟨_, hlookup, h.fits.of_lookup? hv, rfl⟩
  unbound hname hnone := by
    have hlookup := h.lookup? hname.not_avoids
    rw [hnone] at hlookup
    exact ⟨hlookup, rfl⟩
  refused cause := by
    cases cause with
    | malformed kind defect => cases defect <;> rfl
    | _ => rfl
  head hform _ := hform.item List.mem_cons_self
  args hform _ hmem := hform.item (List.mem_cons_of_mem _ hmem)
  opened {i j bindings body} hform heven := by
    have hnew := h.not_absent_size
    have hlt := s.lt_size_addFrame e []
    have hbindings : R.Suits s e (.list j bindings) := hform.item (by simp)
    have hbody : R.Suits s e body := hform.item (by simp)
    refine ⟨h.addFrame he (List.forall_mem_nil _), ?_, h.frame_size.symm, rfl, hlt, h.enough.1,
      hbody.addFrame hnew he []⟩
    rw [← h.frame_size]
    refine Likeness.pairs_of_forall (M := R.respelling) heven (fun form hmem => ?_) fun _ _ => ?_
    · exact ⟨rfl, rfl, hlt, h.enough.1, (hbindings.item hmem).addFrame hnew he []⟩
    · exact ⟨rfl, rfl, hlt, h.enough.1, hnew⟩
  made {i j names body} hform := by
    -- A closure is not made in an absent frame, where there would be no home for its counterpart.
    have hbody : R.Suits s e body := hform.item (by simp)
    refine ⟨.closure ⟨he, hform.not_astray R.avoids_lambda⟩ hbody.fits, ?_⟩
    show Value.closure _ (names.map id) _ _ = .closure (R.serial s.nextSerial) names _ _
    rw [show R.serial s.nextSerial = t.nextSerial from h.nextSerial 0, List.map_id]
    rfl

variable (R) in
/-- **Evaluations go on side by side** in frames of another arrangement. -/
def correspondence : Correspondence where
  toLikeness := R.likeness
  fails_refl _ := rfl
  guise_mono h hv := ⟨hv.mono (fits_mono h), rfl⟩
  takes_mono := by
    rintro s s' e form _ _ h ⟨rfl, rfl, he, hold, hform⟩
    exact ⟨rfl, rfl, Nat.lt_of_lt_of_le he h.grows, hold, suits_of_growsInto h he hform⟩
  binds_mono := by
    rintro s s' e name _ _ h ⟨rfl, rfl, he, hold, hpresent⟩
    exact ⟨rfl, rfl, Nat.lt_of_lt_of_le he h.grows, hold, hpresent⟩
  twin := by
    rintro s t e form _ _ h ⟨rfl, rfl, he, hold, hform⟩
    exact (reads h he hold).twin hform
  defined := by
    rintro s t e name _ _ v _ h ⟨rfl, rfl, he, hold, hpresent⟩ ⟨hv, rfl⟩
    exact h.define he hold hpresent _ hv
  counted h := ⟨h.nextSerial 0, h.countSerial⟩
  recorded := by
    rintro s t v _ h ⟨-, rfl⟩
    exact h.record v
  entered := by
    rintro s t i params body home i' params' body' home' vs _ h ⟨hfn, heq⟩ ⟨hvs, rfl⟩
    obtain ⟨-, rfl, rfl, rfl⟩ := Value.closure.inj heq
    obtain ⟨hhome, hastray⟩ := hfn.self
    refine ⟨rfl, fun _ => ?_⟩
    have hbound : ∀ entry ∈ Bindings.ofList (params'.zip vs), entry.2.Throughout (R.Fits s) :=
      Bindings.forall_ofList_zip hvs
    have hentered := Alike.addFrame h hhome hbound
    rw [← R.ofList_zip] at hentered
    have hbody : R.Suits s home body := ⟨hfn.body, fun h => absurd h hastray⟩
    exact ⟨hentered, h.frame_size.symm, rfl, s.lt_size_addFrame _ _, h.enough.1,
      hbody.addFrame h.not_absent_size hhome _⟩

end Relocation

end TailLisp
