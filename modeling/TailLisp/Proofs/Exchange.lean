import Mathlib.Logic.Equiv.Basic
import TailLisp.Proofs.Numbering
import TailLisp.Proofs.PrintedOutput
import TailLisp.Proofs.Respelling
import TailLisp.Proofs.Scoping

/-! # Exchange — two names exchanged inside of a call

    Beside a call of a closure, another call may go on in which two names are exchanged: in
    the new frame and all frames inside it the forms are written with the one name for the
    other, and what the frames bind is bound under the other names.  In all other frames
    nothing is different.  Closures that are made inside differ in the same way, so it does no
    harm when they escape.

    * **`Value.withNames`** — a form with other symbols.
    * **`Exchange`** — the two names, and the store in which the call is made; everything else
      depends on whether a frame is inside the one of the call.
    * **`Exchange.Alike`** — stores that differ by the exchange, with one lemma for everything
      that changes a store.
    * **`Exchange.correspondence`** — evaluations side by side. -/

namespace TailLisp

/-! ## Forms with other symbols -/

namespace Value

mutual

/-- A form with other symbols. -/
def withNames (σ : String → String) : Value → Value
  | .sym x => .sym (σ x)
  | .list i items => .list i (withNamesAll σ items)
  | v => v

/-- Forms with other symbols. -/
def withNamesAll (σ : String → String) : List Value → List Value
  | [] => []
  | v :: rest => withNames σ v :: withNamesAll σ rest

end

variable {σ τ : String → String}

@[simp] theorem withNamesAll_eq_map (σ : String → String) (vs : List Value) :
    withNamesAll σ vs = vs.map (withNames σ) := by
  induction vs with
  | nil => rfl
  | cons v rest ih => rw [withNamesAll, ih, List.map_cons]

theorem withNames_list (σ : String → String) (i : Option Serial) (items : List Value) :
    withNames σ (.list i items) = .list i (items.map (withNames σ)) := by
  rw [withNames, withNamesAll_eq_map]

/-- Only the symbols that occur in a form matter. -/
theorem withNames_congr {v : Value} (h : ∀ x, v.Occurs x → σ x = τ x) :
    v.withNames σ = v.withNames τ := by
  induction v using Value.induct with
  | sym x => exact congrArg Value.sym (h x .sym)
  | list i items ih =>
      rw [withNames_list, withNames_list]
      congr 1
      exact List.map_congr_left fun v hv => ih v hv fun x hx => h x (.item hv hx)
  | _ => rfl

theorem withNames_id (v : Value) : v.withNames id = v := by
  induction v using Value.induct with
  | list i items ih =>
      rw [withNames_list, List.map_congr_left ih, List.map_id']
  | _ => rfl

theorem withNames_withNames (σ τ : String → String) (v : Value) :
    (v.withNames σ).withNames τ = v.withNames (τ ∘ σ) := by
  induction v using Value.induct with
  | list i items ih =>
      rw [withNames_list, withNames_list, withNames_list, List.map_map]
      congr 1
      exact List.map_congr_left ih
  | _ => rfl

theorem withNames_involutive (hσ : Function.Involutive σ) :
    Function.Involutive (withNames σ) := by
  intro v
  rw [withNames_withNames, hσ.comp_self, withNames_id]

end Value

/-- Other symbols are another way to write forms, if those of special forms stay. -/
def Respelling.ofNames (σ : String → String) (hσ : Function.Injective σ)
    (hspecial : ∀ kind : SpecialForm, σ kind.name = kind.name) : Respelling where
  value := Value.withNames σ
  name := σ
  respelt v := by
    cases v with
    | sym x => exact .sym x
    | list i items =>
        rw [Value.withNames_list]
        exact .list i i items
    | _ => exact .other nofun nofun nofun nofun
  name_injective := hσ
  special := hspecial

/-! ## The exchange of two names -/

/-- Two names that are exchanged inside of one call, and the store in which the call is made. -/
structure Exchange where
  p : String
  q : String
  special (kind : SpecialForm) : p ≠ kind.name ∧ q ≠ kind.name
  start : Store

namespace Exchange

variable (X : Exchange) {s s' t : Store} {e f : FrameId}

/-- The frame of the call. -/
def call : FrameId := X.start.frames.size

/-- A frame is the one of the call or inside of it. -/
def Inside (s : Store) (f : FrameId) : Prop :=
  X.call ∈ s.chain f

instance (s : Store) (f : FrameId) : Decidable (X.Inside s f) :=
  inferInstanceAs (Decidable (_ ∈ _))

/-- The names as they are in a frame: exchanged inside of the call. -/
def names (s : Store) (f : FrameId) : String → String :=
  if X.Inside s f then Equiv.swap X.p X.q else id

theorem names_of_inside (h : X.Inside s f) : X.names s f = Equiv.swap X.p X.q := if_pos h

theorem names_of_outside (h : ¬ X.Inside s f) : X.names s f = id := if_neg h

theorem names_involutive (s : Store) (f : FrameId) : Function.Involutive (X.names s f) := by
  by_cases h : X.Inside s f
  · rw [X.names_of_inside h]
    exact Equiv.swap_apply_self X.p X.q
  · rw [X.names_of_outside h]
    exact fun _ => rfl

theorem names_special (s : Store) (f : FrameId) (kind : SpecialForm) :
    X.names s f kind.name = kind.name := by
  by_cases h : X.Inside s f
  · obtain ⟨hp, hq⟩ := X.special kind
    rw [X.names_of_inside h]
    exact Equiv.swap_apply_of_ne_of_ne hp.symm hq.symm
  · rw [X.names_of_outside h]
    rfl

/-- Forms as they are written in a frame. -/
def respelling (s : Store) (f : FrameId) : Respelling :=
  .ofNames (X.names s f) (X.names_involutive s f).injective (X.names_special s f)

/-- No older frame is inside of the call. -/
theorem le_of_inside (h : X.Inside s f) : X.call ≤ f := Store.le_of_mem_chain h

theorem inside_of_growsInto (h : s.GrowsInto s') (hf : f < s.frames.size) :
    X.Inside s' f ↔ X.Inside s f := by
  rw [Inside, Inside, h.chain hf]

theorem names_of_growsInto (h : s.GrowsInto s') (hf : f < s.frames.size) :
    X.names s' f = X.names s f := by
  by_cases hinside : X.Inside s f
  · rw [X.names_of_inside hinside, X.names_of_inside ((X.inside_of_growsInto h hf).mpr hinside)]
  · rw [X.names_of_outside hinside,
      X.names_of_outside (mt (X.inside_of_growsInto h hf).mp hinside)]

/-- A new frame is inside of the call if the frame around it is. -/
theorem inside_addFrame (hcall : X.call < s.frames.size) (hf : f < s.frames.size)
    (bs : Bindings) : X.Inside (s.addFrame f bs) s.frames.size ↔ X.Inside s f := by
  rw [Inside, Inside, Store.chain_addFrame_self hf, List.mem_cons]
  exact or_iff_right (Nat.ne_of_lt hcall)

theorem names_addFrame (hcall : X.call < s.frames.size) (hf : f < s.frames.size)
    (bs : Bindings) : X.names (s.addFrame f bs) s.frames.size = X.names s f := by
  have hiff := X.inside_addFrame hcall hf bs
  by_cases hinside : X.Inside s f
  · rw [X.names_of_inside hinside, X.names_of_inside (hiff.mpr hinside)]
  · rw [X.names_of_outside hinside, X.names_of_outside (mt hiff.mp hinside)]

/-! ### Values -/

mutual

/-- A value with the other names in the closures that were made inside of the call. -/
def value (s : Store) : Value → Value
  | .list i items => .list i (values s items)
  | .closure i params body home =>
    .closure i (params.map (X.names s home)) (body.withNames (X.names s home)) home
  | v => v

/-- Values with the other names. -/
def values (s : Store) : List Value → List Value
  | [] => []
  | v :: rest => value s v :: values s rest

end

@[simp] theorem values_eq_map (s : Store) (vs : List Value) :
    X.values s vs = vs.map (X.value s) := by
  induction vs with
  | nil => rfl
  | cons v rest ih => rw [values, ih, List.map_cons]

theorem value_list (s : Store) (i : Option Serial) (items : List Value) :
    X.value s (.list i items) = .list i (items.map (X.value s)) := by
  rw [value, values_eq_map]

theorem value_involutive (s : Store) : Function.Involutive (X.value s) := by
  intro v
  induction v using Value.induct with
  | list i items ih =>
      rw [value_list, value_list, List.map_map]
      congr 1
      exact (List.map_congr_left ih).trans (List.map_id' items)
  | closure i params body home =>
      have hnames := X.names_involutive s home
      rw [value, value, List.map_map, hnames.comp_self, List.map_id,
        Value.withNames_involutive hnames]
  | _ => rfl

/-- A form for a frame: inside of the call it was read and is without the new name; elsewhere all
    its numbers are older than the call. -/
structure Suits (s : Store) (f : FrameId) (form : Value) : Prop where
  inside : X.Inside s f → form.IsRead ∧ ¬ form.Occurs X.q
  outside : ¬ X.Inside s f → form.IsNumbered X.start

/-- A closure whose body is a form for its frame, and whose parameters are. -/
def Fits (s : Store) : Value → Prop
  | .closure _ params body home =>
    home < s.frames.size ∧ X.Suits s home body ∧ (X.Inside s home → X.q ∉ params)
  | _ => True

theorem fits_of_isAtom {v : Value} (h : v.IsAtom) (s : Store) : X.Fits s v := by
  cases v with
  | closure => exact h.elim
  | _ => trivial

/-- Closures that are older than the call are as they were. -/
theorem outside_of_hasNumbers {i : Serial} {params : List String} {body : Value} {home : FrameId}
    (h : Value.HasNumbers X.start (.closure i params body home)) (s : Store) :
    ¬ X.Inside s home :=
  fun hinside => Nat.not_lt.mpr (X.le_of_inside hinside) h.2

theorem throughout_fits_of_isNumbered (hsize : X.call ≤ s.frames.size) {v : Value}
    (h : v.IsNumbered X.start) : v.Throughout (X.Fits s) := by
  induction v using Value.induct with
  | list i items ih => exact .list trivial fun v hv => ih v hv (h.items v hv)
  | closure i params body home ih =>
      have houtside := X.outside_of_hasNumbers h.self s
      refine .closure ⟨Nat.lt_of_lt_of_le h.self.2 hsize, ⟨?_, fun _ => h.body⟩, ?_⟩ (ih h.body)
      · exact fun hinside => absurd hinside houtside
      · exact fun hinside => absurd hinside houtside
  | _ => exact .atom trivial trivial

theorem value_of_isNumbered (s : Store) {v : Value} (h : v.IsNumbered X.start) :
    X.value s v = v := by
  induction v using Value.induct with
  | list i items ih =>
      have hitems := List.map_congr_left fun item hmem => ih item hmem (h.items item hmem)
      rw [value_list, hitems, List.map_id']
  | closure i params body home =>
      rw [value, X.names_of_outside (X.outside_of_hasNumbers h.self s), List.map_id,
        Value.withNames_id]
  | _ => rfl

/-- There is nothing to exchange in a value without functions. -/
theorem value_of_isFunctionFree (s : Store) {v : Value} (h : v.IsFunctionFree) :
    X.value s v = v := by
  induction v using Value.induct with
  | list i items ih =>
      have hitems := List.map_congr_left fun item hmem => ih item hmem (h.items item hmem)
      rw [value_list, hitems, List.map_id']
  | closure => exact absurd trivial h.self
  | _ => rfl

theorem Suits.throughout_fits {X : Exchange} {form : Value} (h : X.Suits s f form)
    (hsize : X.call ≤ s.frames.size) : form.Throughout (X.Fits s) := by
  by_cases hinside : X.Inside s f
  · exact (h.inside hinside).1.throughout (fun v hv => X.fits_of_isAtom hv s) fun _ => trivial
  · exact X.throughout_fits_of_isNumbered hsize (h.outside hinside)

theorem suits_congr {X : Exchange} {form : Value} (h : X.Inside s' e ↔ X.Inside s f) :
    X.Suits s' e form ↔ X.Suits s f form :=
  ⟨fun hs => ⟨fun hf => hs.inside (h.mpr hf), fun hf => hs.outside (mt h.mp hf)⟩,
    fun hs => ⟨fun he => hs.inside (h.mp he), fun he => hs.outside (mt h.mpr he)⟩⟩

theorem fits_mono (h : s.GrowsInto s') {v : Value} (hv : X.Fits s v) : X.Fits s' v := by
  cases v with
  | closure i params body home =>
      obtain ⟨hhome, hbody, hparams⟩ := hv
      have hinside := X.inside_of_growsInto h hhome
      exact ⟨Nat.lt_of_lt_of_le hhome h.grows, (suits_congr hinside).mpr hbody,
        fun hnow => hparams (hinside.mp hnow)⟩
  | _ => trivial

theorem value_of_growsInto (h : s.GrowsInto s') {v : Value} (hv : v.Throughout (X.Fits s)) :
    X.value s' v = X.value s v := by
  induction v using Value.induct with
  | list i items ih =>
      rw [value_list, value_list]
      congr 1
      exact List.map_congr_left fun v hmem => ih v hmem (hv.items v hmem)
  | closure i params body home =>
      rw [value, value, X.names_of_growsInto h hv.self.1]
  | _ => rfl

/-- The other names are a disguise for closures. -/
def guise (s : Store) : Disguise where
  value := X.value s
  serial := id
  Fits v := v.Throughout (X.Fits s)
  looks v := by
    cases v with
    | list i items =>
        have hlist : X.value s (.list i items) = .list (i.map id) (items.map (X.value s)) := by
          rw [value_list, Option.map_id, id]
        rw [hlist]
        exact .list i items
    | closure i params body home => exact .closure i
    | _ => exact .atom trivial
  serial_injective := Function.injective_id
  value_injective _ _ h := (X.value_involutive s).injective h
  fits_atom h := .atom h (X.fits_of_isAtom h s)
  fits_list := ⟨fun h => h.items, fun h => .list trivial h⟩

/-! ### Stores -/

/-- The bindings of a frame, as they are with the other names. -/
def bindings (s : Store) (f : FrameId) : Bindings → Bindings :=
  Bindings.recast (X.names s f) (X.value s)

theorem bindings_of_growsInto (h : s.GrowsInto s') (hf : f < s.frames.size) {bs : Bindings}
    (hbs : ∀ entry ∈ bs, entry.2.Throughout (X.Fits s)) : X.bindings s' f bs = X.bindings s f bs := by
  rw [bindings, bindings, X.names_of_growsInto h hf]
  exact Bindings.recast_congr fun entry hentry => X.value_of_growsInto h (hbs entry hentry)

/-- Two stores that differ by the exchange of the names inside of the call. -/
structure Alike (s t : Store) : Prop where
  call : X.call < s.frames.size
  size : t.frames.size = s.frames.size
  serial : t.nextSerial = s.nextSerial
  links : ∀ f, t.outer? f = s.outer? f
  bindings : ∀ f, t.bindings f = X.bindings s f (s.bindings f)
  fits : s.Holds (X.Fits s)
  /-- The new name is bound nowhere inside of the call, -/
  fresh : ∀ f, X.Inside s f → ∀ entry ∈ s.bindings f, entry.1 ≠ X.q
  /-- and the old one is a parameter. -/
  bound : s.binds X.p X.call = true
  lines : t.printed.toList.map Store.lineOf = s.printed.toList.map Store.lineOf

namespace Alike

variable {X}

/-- All links and counts the same, and the bindings those that were there. -/
theorem bindings_of_eq (h : X.Alike s t) (hgrows : s.GrowsInto s')
    (hbindings : s'.bindings f = s.bindings f) :
    t.bindings f = X.bindings s' f (s'.bindings f) := by
  rw [h.bindings f, hbindings]
  rcases Nat.lt_or_ge f s.frames.size with hf | hf
  · exact (X.bindings_of_growsInto hgrows hf (h.fits f)).symm
  · rw [s.bindings_of_size_le hf]
    rfl

/-! #### Looking up -/

/-- What is no parameter of the call and not new is written in one way. -/
theorem names_of_unbound (h : X.Alike s t) {name : String}
    (hname : X.Inside s e → name ≠ X.q) (hnone : s.lookup? e name = none) :
    X.names s e name = name := by
  by_cases hinside : X.Inside s e
  · have hp : name ≠ X.p := by
      rintro rfl
      have hsees := Store.isSome_lookup?_of_sees ⟨X.call, hinside, h.bound⟩
      rw [hnone] at hsees
      cases hsees
    rw [X.names_of_inside hinside]
    exact Equiv.swap_apply_of_ne_of_ne hp (hname hinside)
  · rw [X.names_of_outside hinside]
    rfl

/-- **Names are found alike**, by induction on the frame.  Where the chain leaves the call, the old
    name has been found and the new one is not sought. -/
theorem lookup? (h : X.Alike s t) {name : String} (hname : X.Inside s e → name ≠ X.q) :
    t.lookup? e (X.names s e name) = (s.lookup? e name).map (X.value s) := by
  induction e using Nat.strongRecOn with
  | ind e ih =>
      have hinner : (t.bindings e).get? (X.names s e name) =
          ((s.bindings e).get? name).map (X.value s) := by
        rw [h.bindings e]
        exact Bindings.get?_recast (X.names_involutive s e).injective name _
      by_cases houter : ∃ o, s.outer? e = some o ∧ o < e
      · obtain ⟨o, ho, hlt⟩ := houter
        rw [Store.lookup?_of_some ho hlt, Store.lookup?_of_some ((h.links e).trans ho) hlt, hinner]
        cases hget : (s.bindings e).get? name with
        | some v => rfl
        | none =>
            show t.lookup? o (X.names s e name) = (s.lookup? o name).map (X.value s)
            have hchain : s.chain e = e :: s.chain o := by
              rw [Store.chain, ho]
              exact if_pos hlt
            by_cases hcall : e = X.call
            · have hinside : X.Inside s e := hcall ▸ Store.mem_chain_self s e
              have hout : ¬ X.Inside s o :=
                fun ho => Nat.not_lt.mpr (X.le_of_inside ho) (hcall ▸ hlt)
              have hp : name ≠ X.p := by
                rintro rfl
                have hbound := h.bound
                rw [Store.binds, ← hcall, hget] at hbound
                cases hbound
              have hself : X.names s e name = X.names s o name := by
                rw [X.names_of_inside hinside, X.names_of_outside hout]
                exact Equiv.swap_apply_of_ne_of_ne hp (hname hinside)
              rw [hself]
              exact ih o hlt fun ho => absurd ho hout
            · have hiff : X.Inside s e ↔ X.Inside s o := by
                rw [Inside, Inside, hchain, List.mem_cons]
                exact or_iff_right (Ne.symm hcall)
              have hnames : X.names s e = X.names s o := by
                rw [names, names]
                simp only [hiff]
              rw [hnames]
              exact ih o hlt fun ho => hname (hiff.mpr ho)
      · have hchain : ∀ st : Store, st.outer? e = s.outer? e → st.chain e = [e] := by
          intro st heq
          rw [Store.chain, heq]
          split
          · rename_i o ho
            exact if_neg fun hlt => houter ⟨o, ho, hlt⟩
          · rfl
        rw [Store.lookup?_of_chain (hchain s rfl), Store.lookup?_of_chain (hchain t (h.links e)),
          hinner]

/-! #### Changing -/

theorem define (h : X.Alike s t) (he : e < s.frames.size) {name : String}
    (hname : X.Inside s e → name ≠ X.q) {v : Value} (hv : v.Throughout (X.Fits s)) :
    X.Alike (s.define e name v) (t.define e (X.names s e name) (X.value s v)) := by
  have hgrows := Store.GrowsInto.define s e name v
  refine ⟨?_, ?_, h.serial, fun f => ?_, fun f => ?_, ?_, fun f hf entry hentry => ?_,
    Store.binds_define h.bound, h.lines⟩
  · rw [Store.size_define]
    exact h.call
  · rw [Store.size_define, Store.size_define]
    exact h.size
  · rw [Store.outer?_define, Store.outer?_define]
    exact h.links f
  · by_cases hf : e = f
    · subst hf
      have het : e < t.frames.size := h.size.symm ▸ he
      rw [Store.bindings_define_self t het, Store.bindings_define_self s he, h.bindings e]
      have hset : ∀ entry ∈ (s.bindings e).set name v, entry.2.Throughout (X.Fits s) := by
        intro entry hentry
        rcases Bindings.mem_set hentry with rfl | hold
        · exact hv
        · exact h.fits e entry hold
      rw [X.bindings_of_growsInto hgrows he hset]
      exact Bindings.set_recast (X.names_involutive s e).injective name v _
    · rw [Store.bindings_define_of_ne t hf]
      exact h.bindings_of_eq hgrows (Store.bindings_define_of_ne s hf name v)
  · exact h.fits.define hv (fun _ => X.fits_mono hgrows) name
  · by_cases hef : e = f
    · subst hef
      rw [Store.bindings_define_self s he] at hentry
      rcases Bindings.mem_set hentry with rfl | hold
      · exact hname ((X.inside_of_growsInto hgrows he).mp hf)
      · exact h.fresh e ((X.inside_of_growsInto hgrows he).mp hf) entry hold
    · rw [Store.bindings_define_of_ne s hef] at hentry
      rcases Nat.lt_or_ge f s.frames.size with hold | hnone
      · exact h.fresh f ((X.inside_of_growsInto hgrows hold).mp hf) entry hentry
      · rw [s.bindings_of_size_le hnone] at hentry
        exact nomatch hentry

theorem addFrame (h : X.Alike s t) (he : e < s.frames.size) {bs : Bindings}
    (hbs : ∀ entry ∈ bs, entry.2.Throughout (X.Fits s))
    (hfresh : X.Inside s e → ∀ entry ∈ bs, entry.1 ≠ X.q) :
    X.Alike (s.addFrame e bs) (t.addFrame e (X.bindings s e bs)) := by
  have hgrows := Store.GrowsInto.addFrame s e bs
  refine ⟨?_, ?_, h.serial, fun f => ?_, fun f => ?_, ?_, fun f hf => ?_, ?_, h.lines⟩
  · exact Nat.lt_trans h.call (s.lt_size_addFrame e bs)
  · rw [Store.size_addFrame, Store.size_addFrame, h.size]
  · rw [Store.outer?_addFrame, Store.outer?_addFrame, h.size, h.links f]
  · by_cases hf : f = s.frames.size
    · subst hf
      rw [Store.bindings_addFrame, if_pos h.size.symm, Store.bindings_addFrame_self,
        Exchange.bindings, Exchange.bindings, X.names_addFrame h.call he bs]
      exact Bindings.recast_congr fun entry hentry =>
        (X.value_of_growsInto hgrows (hbs entry hentry)).symm
    · have hf' : f ≠ t.frames.size := fun heq => hf (heq.trans h.size)
      rw [Store.bindings_addFrame, if_neg hf']
      exact h.bindings_of_eq hgrows ((s.bindings_addFrame e f bs).trans (if_neg hf))
  · exact h.fits.addFrame hbs fun _ => X.fits_mono hgrows
  · rw [Store.bindings_addFrame]
    split
    case isTrue hnew =>
      subst hnew
      exact hfresh ((X.inside_addFrame h.call he bs).mp hf)
    case isFalse hold =>
      rcases Nat.lt_or_ge f s.frames.size with hlt | hnone
      · exact h.fresh f ((X.inside_of_growsInto hgrows hlt).mp hf)
      · rw [s.bindings_of_size_le hnone]
        exact List.forall_mem_nil _
  · rw [Store.binds, s.bindings_addFrame_of_lt h.call]
    exact h.bound

/-- What leaves the frames alone. -/
theorem of_frames_eq (h : X.Alike s t) {t' : Store} (hs : s'.frames = s.frames)
    (ht : t'.frames = t.frames) (hserial : t'.nextSerial = s'.nextSerial)
    (hlines : t'.printed.toList.map Store.lineOf = s'.printed.toList.map Store.lineOf) :
    X.Alike s' t' := by
  have hgrows := Store.GrowsInto.of_frames_eq hs
  have hinside : ∀ f, X.Inside s' f ↔ X.Inside s f := by
    intro f
    have hchain : s'.chain f = s.chain f :=
      Store.chain_congr fun g _ => by rw [Store.outer?, Store.outer?, hs]
    rw [Inside, Inside, hchain]
  have hbindings : ∀ f, s'.bindings f = s.bindings f := fun f => by
    rw [Store.bindings, Store.bindings, hs]
  refine ⟨hs ▸ h.call, by rw [hs, ht, h.size], hserial, fun f => ?_, fun f => ?_, ?_,
    fun f hf => ?_, ?_, hlines⟩
  · rw [Store.outer?, Store.outer?, hs, ht]
    exact h.links f
  · have ht' : t'.bindings f = t.bindings f := by rw [Store.bindings, Store.bindings, ht]
    exact ht'.trans (h.bindings_of_eq hgrows (hbindings f))
  · exact h.fits.of_frames_eq hs fun _ => X.fits_mono hgrows
  · rw [hbindings f]
    exact h.fresh f ((hinside f).mp hf)
  · rw [Store.binds, hbindings X.call]
    exact h.bound

theorem record (h : X.Alike s t) (v : Value) :
    X.Alike (s.record v) (t.record (X.value s v)) := by
  have hline : Store.lineOf (X.value s v) = Store.lineOf v := by
    rw [Store.lineOf, Store.lineOf, show X.value s v = (X.guise s).value v from rfl,
      (X.guise s).text_value]
  refine h.of_frames_eq rfl rfl h.serial ?_
  rw [Store.record, Store.record, Array.toList_push, Array.toList_push, List.map_append,
    List.map_append, h.lines, List.map_singleton, List.map_singleton, hline]

end Alike

/-! ### Evaluations -/

end Exchange

/-- Faults of one class: the same, or refusals that tell of another duplicate parameter. -/
inductive Fault.Alike : Fault → Fault → Prop where
  | refl (fault : Fault) : Alike fault fault
  | duplicate (kind : SpecialForm) (x y : String) :
      Alike (.error (.malformed kind (.duplicateParameter x)))
        (.error (.malformed kind (.duplicateParameter y)))

theorem Fault.Alike.refusal (M : Respelling) (cause : LispError) :
    Alike (.error cause) (.error (M.refusal cause)) := by
  cases cause with
  | malformed kind defect =>
      cases defect with
      | duplicateParameter x => exact .duplicate kind x (M.name x)
      | _ => exact .refl _
  | _ => exact .refl _

namespace Exchange

variable (X : Exchange) {s t : Store} {e : FrameId}

/-- What is alike: stores that differ by the exchange, and in each frame forms as they are
    written there. -/
def likeness : Likeness where
  guise := X.guise
  Stores := X.Alike
  Takes s e form e' form' := e' = e ∧ e < s.frames.size ∧ X.Suits s e form ∧
    form' = form.withNames (X.names s e)
  Binds s e name e' name' := e' = e ∧ e < s.frames.size ∧ (X.Inside s e → name ≠ X.q) ∧
    name' = X.names s e name
  Fails := Fault.Alike

variable {X}

theorem Suits.nil (s : Store) (e : FrameId) : X.Suits s e .nil :=
  ⟨fun _ => ⟨.nil, nofun⟩, fun _ => .atom trivial trivial⟩

theorem Suits.item {i : Option Serial} {items : List Value} (h : X.Suits s e (.list i items))
    {form : Value} (hmem : form ∈ items) : X.Suits s e form := by
  refine ⟨fun hin => ?_, fun hout => (h.outside hout).items form hmem⟩
  obtain ⟨hread, hfree⟩ := h.inside hin
  exact ⟨hread.items form hmem, fun hoccurs => hfree (.item hmem hoccurs)⟩

theorem Suits.ne_new {name : String} (h : X.Suits s e (.sym name)) (hin : X.Inside s e) :
    name ≠ X.q := by
  rintro rfl
  exact (h.inside hin).2 .sym

/-- A form that is its own value is written as the value looks. -/
theorem Suits.self {form : Value} (h : X.Suits s e form) (hself : form.IsSelfEvaluating) :
    form.withNames (X.names s e) = X.value s form := by
  by_cases hin : X.Inside s e
  · obtain ⟨hread, -⟩ := h.inside hin
    cases hread with
    | sym => exact hself.elim
    | @list items _ =>
        cases items with
        | nil => rfl
        | cons => exact hself.elim
    | _ => rfl
  · rw [X.names_of_outside hin, Value.withNames_id, X.value_of_isNumbered s (h.outside hin)]

theorem reads (h : X.Alike s t) (he : e < s.frames.size) :
    X.likeness.Reads (X.respelling s e) s t e e (X.Suits s e) where
  takes hform := ⟨rfl, he, hform, rfl⟩
  nil := ⟨rfl, he, .nil s e, rfl⟩
  binds {i name expr} hform := by
    have hname : X.Suits s e (.sym name) := hform.item (by simp)
    exact ⟨rfl, he, hname.ne_new, rfl⟩
  self hform hself := ⟨hform.throughout_fits (Nat.le_of_lt h.call), hform.self hself⟩
  found hname hv := by
    have hlookup := h.lookup? hname.ne_new
    rw [hv] at hlookup
    exact ⟨_, hlookup, h.fits.of_lookup? hv, rfl⟩
  unbound {name} hname hnone := by
    have hlookup := h.lookup? hname.ne_new
    rw [hnone] at hlookup
    have hsame : (X.respelling s e).name name = name := h.names_of_unbound hname.ne_new hnone
    rw [hsame]
    rw [h.names_of_unbound hname.ne_new hnone] at hlookup
    exact ⟨hlookup, .refl _⟩
  refused := Fault.Alike.refusal _
  head hform _ := hform.item List.mem_cons_self
  args hform _ hmem := hform.item (List.mem_cons_of_mem _ hmem)
  opened {i j bindings body} hform heven := by
    have hin := X.inside_addFrame h.call he []
    have hnames := X.names_addFrame h.call he []
    have hlt := s.lt_size_addFrame e []
    have hbindings : X.Suits s e (.list j bindings) := hform.item (by simp)
    refine ⟨h.addFrame he (List.forall_mem_nil _) fun _ => List.forall_mem_nil _, ?_, h.size, hlt,
      (suits_congr hin).mpr (hform.item (by simp)), ?_⟩
    · rw [h.size]
      refine Likeness.pairs_of_forall heven (fun form hmem => ?_) fun name hmem => ?_
      · refine ⟨rfl, hlt, (suits_congr hin).mpr (hbindings.item hmem), ?_⟩
        rw [hnames]
        rfl
      · refine ⟨rfl, hlt, fun hnew => (hbindings.item hmem).ne_new (hin.mp hnew), ?_⟩
        rw [hnames]
        rfl
    · rw [hnames]
      rfl
  made {i j names body} hform := by
    have hbody : X.Suits s e body := hform.item (by simp)
    have hparams : X.Inside s e → X.q ∉ names := by
      intro hin hmem
      have hlist : X.Suits s e (.list j (names.map .sym)) := hform.item (by simp)
      exact (hlist.item (List.mem_map_of_mem hmem)).ne_new hin rfl
    refine ⟨.closure ⟨he, hbody, hparams⟩ (hbody.throughout_fits (Nat.le_of_lt h.call)), ?_⟩
    rw [h.serial]
    rfl

variable (X) in
/-- **Evaluations go on side by side** with two names exchanged inside of a call. -/
def correspondence : Correspondence where
  toLikeness := X.likeness
  fails_refl := .refl
  guise_mono h hv := ⟨hv.mono fun _ => X.fits_mono h, X.value_of_growsInto h hv⟩
  takes_mono := by
    rintro s s' e form _ _ h ⟨rfl, he, hform, rfl⟩
    refine ⟨rfl, Nat.lt_of_lt_of_le he h.grows, ?_, ?_⟩
    · exact (suits_congr (X.inside_of_growsInto h he)).mpr hform
    · rw [X.names_of_growsInto h he]
  binds_mono := by
    rintro s s' e name _ _ h ⟨rfl, he, hname, rfl⟩
    refine ⟨rfl, Nat.lt_of_lt_of_le he h.grows, ?_, ?_⟩
    · exact fun hin => hname ((X.inside_of_growsInto h he).mp hin)
    · rw [X.names_of_growsInto h he]
  twin := by
    rintro s t e form _ _ h ⟨rfl, he, hform, rfl⟩
    exact (reads h he).twin hform
  defined := by
    rintro s t e name _ _ v _ h ⟨rfl, he, hname, rfl⟩ ⟨hv, rfl⟩
    exact h.define he hname hv
  counted h := ⟨h.serial.symm,
    Alike.of_frames_eq h rfl rfl (congrArg (· + 1) h.serial) h.lines⟩
  recorded := by
    rintro s t v _ h ⟨-, rfl⟩
    exact h.record v
  entered := by
    rintro s t i params body home i' params' body' home' vs _ h ⟨hfn, heq⟩ ⟨hvs, rfl⟩
    obtain ⟨-, rfl, rfl, rfl⟩ := Value.closure.inj heq
    obtain ⟨hhome, hbody, hparams⟩ := hfn.self
    refine ⟨List.length_map .., fun _ => ?_⟩
    have hbound : ∀ entry ∈ Bindings.ofList (params.zip vs), entry.2.Throughout (X.Fits s) :=
      Bindings.forall_ofList_zip hvs
    have hfresh : X.Inside s home' →
        ∀ entry ∈ Bindings.ofList (params.zip vs), entry.1 ≠ X.q := by
      rintro hin entry hentry heq
      have hmem := (List.of_mem_zip (Bindings.mem_ofList hentry)).1
      exact hparams hin (heq ▸ hmem)
    have hrecast : Bindings.ofList ((params.map (X.names s home')).zip (vs.map (X.value s))) =
        X.bindings s home' (Bindings.ofList (params.zip vs)) :=
      Bindings.ofList_zip_recast (X.names_involutive s home').injective params vs
    have hentered := Alike.addFrame h hhome hbound hfresh
    rw [← hrecast] at hentered
    refine ⟨hentered, h.size, s.lt_size_addFrame _ _, ?_, ?_⟩
    · exact (suits_congr (X.inside_addFrame h.call hhome _)).mpr hbody
    · rw [X.names_addFrame h.call hhome]

end Exchange

end TailLisp
