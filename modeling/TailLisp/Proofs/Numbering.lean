import TailLisp.Proofs.Discipline
import TailLisp.Proofs.Parts

/-! # Numbering — no number is used before it was given out

    The frames that a store has and the serial numbers that it has given out are those below
    its two counts.  No closure, no list and no link names a number that is still to come,
    in any store that a session reaches.

    * **`Store.IsNumbered`** — the invariant.
    * **`numbering`** — the discipline: every run keeps it.
    * **`Session.isNumbered_start`** and **`Session.isNumbered_answerAll`** — so it holds
      in a session at all times. -/

namespace TailLisp

/-- A value whose own numbers are below the counts of a store. -/
def Value.HasNumbers (s : Store) : Value → Prop
  | .list (some serial) _ => serial < s.nextSerial
  | .closure serial _ _ home => serial < s.nextSerial ∧ home < s.frames.size
  | _ => True

/-- All numbers in a value are below the counts. -/
abbrev Value.IsNumbered (s : Store) (v : Value) : Prop :=
  v.Throughout (HasNumbers s)

/-- All numbers in a store are below its counts. -/
structure Store.IsNumbered (s : Store) : Prop where
  root : Store.root < s.frames.size
  links : ∀ f o, s.outer? f = some o → o < s.frames.size
  values : s.Holds (Value.HasNumbers s)

namespace Value

variable {s s' : Store}

theorem HasNumbers.mono (hframes : s.frames.size ≤ s'.frames.size)
    (hserials : s.nextSerial ≤ s'.nextSerial) (v : Value) (h : v.HasNumbers s) :
    v.HasNumbers s' := by
  cases v with
  | list serial items =>
      cases serial with
      | none => trivial
      | some serial => exact Nat.lt_of_lt_of_le h hserials
  | closure serial params body home =>
      exact ⟨Nat.lt_of_lt_of_le h.1 hserials, Nat.lt_of_lt_of_le h.2 hframes⟩
  | _ => trivial

theorem IsAtom.hasNumbers {v : Value} (h : v.IsAtom) (s : Store) : v.HasNumbers s := by
  cases v with
  | list => exact h.elim
  | closure => exact h.elim
  | _ => trivial

/-- What was read has no numbers in it. -/
theorem IsRead.isNumbered {form : Value} (h : form.IsRead) (s : Store) : form.IsNumbered s := by
  induction h with
  | nil | bool | int | str | sym => exact .atom trivial trivial
  | list _ ih => exact .list trivial ih

end Value

/-- A store that has counted on and is numbered if it was. -/
structure Store.Counts (s s' : Store) : Prop where
  frames : s.frames.size ≤ s'.frames.size
  serials : s.nextSerial ≤ s'.nextSerial
  keeps : s.IsNumbered → s'.IsNumbered

namespace Store.Counts

variable {s s₁ s₂ : Store} {f : FrameId} {v : Value}

theorem mono (h : s.Counts s₁) (hv : v.IsNumbered s) : v.IsNumbered s₁ :=
  Value.Throughout.mono (Value.HasNumbers.mono h.frames h.serials) hv

theorem trans (h : s.Counts s₁) (h' : s₁.Counts s₂) : s.Counts s₂ :=
  ⟨Nat.le_trans h.frames h'.frames, Nat.le_trans h.serials h'.serials,
    fun hs => h'.keeps (h.keeps hs)⟩

/-- What leaves the frames alone. -/
theorem of_frames_eq (hframes : s₁.frames = s.frames) (hserials : s.nextSerial ≤ s₁.nextSerial) :
    s.Counts s₁ := by
  have hsize := Nat.le_of_eq (congrArg Array.size hframes.symm)
  refine ⟨hsize, hserials, fun hs => ⟨Nat.lt_of_lt_of_le hs.root hsize, ?_, ?_⟩⟩
  · intro g o houter
    rw [outer?, hframes] at houter
    exact Nat.lt_of_lt_of_le (hs.links g o houter) hsize
  · exact hs.values.of_frames_eq hframes (Value.HasNumbers.mono hsize hserials)

theorem define (hv : v.IsNumbered s) (name : String) : s.Counts (s.define f name v) := by
  have hsize := Nat.le_of_eq (s.size_define f name v).symm
  refine ⟨hsize, Nat.le_refl _, fun hs => ⟨Nat.lt_of_lt_of_le hs.root hsize, ?_, ?_⟩⟩
  · intro g o houter
    rw [outer?_define] at houter
    exact Nat.lt_of_lt_of_le (hs.links g o houter) hsize
  · exact hs.values.define hv (Value.HasNumbers.mono hsize (Nat.le_refl _)) name

theorem addFrame (hf : f < s.frames.size) {bindings : Bindings}
    (h : ∀ entry ∈ bindings, entry.2.IsNumbered s) : s.Counts (s.addFrame f bindings) := by
  have hsize := Nat.le_of_lt (s.lt_size_addFrame f bindings)
  refine ⟨hsize, Nat.le_refl _, fun hs => ⟨Nat.lt_of_lt_of_le hs.root hsize, ?_, ?_⟩⟩
  · intro g o houter
    refine Nat.lt_of_lt_of_le ?_ hsize
    -- The link of the new frame leads to an old one, and frames that are not there have none.
    rcases Nat.lt_trichotomy g s.frames.size with hold | rfl | hnew
    · rw [outer?_addFrame_of_lt s hold] at houter
      exact hs.links g o houter
    · rw [outer?_addFrame_self] at houter
      exact Option.some.inj houter ▸ hf
    · have hnone : (s.addFrame f bindings).frames[g]? = none := by
        refine Array.getElem?_eq_none ?_
        rw [size_addFrame]
        exact hnew
      rw [outer?, hnone] at houter
      cases houter
  · exact hs.values.addFrame h (Value.HasNumbers.mono hsize (Nat.le_refl _))

end Store.Counts

/-- The discipline of numbered stores. -/
def numbering : Discipline where
  Takes s e form := s.IsNumbered ∧ e < s.frames.size ∧ form.IsNumbered s
  Prepares s e bindings body := s.IsNumbered ∧ e < s.frames.size ∧
    (∀ form ∈ bindings, form.IsNumbered s) ∧ body.IsNumbered s
  Gives s v := v.IsNumbered s
  Changes _ s _ s' := s.Counts s'
  Fails _ := True
  grows h := h.frames
  refl := .of_frames_eq rfl (Nat.le_refl _)
  trans h h' := h.trans h'
  inside h _ h' := h.trans h'
  takes_mono h htakes := by
    obtain ⟨hs, he, hform⟩ := htakes
    exact ⟨h.keeps hs, Nat.lt_of_lt_of_le he h.frames, h.mono hform⟩
  prepares_mono h hprepares := by
    obtain ⟨hs, he, hforms, hbody⟩ := hprepares
    exact ⟨h.keeps hs, Nat.lt_of_lt_of_le he h.frames, fun form hmem => h.mono (hforms form hmem),
      h.mono hbody⟩
  gives_mono h hv := h.mono hv
  taken _ := .of_frames_eq rfl (Nat.le_refl _)
  nil h := ⟨h.1, h.2.1, .atom trivial trivial⟩
  self h _ := h.2.2
  found h hname := h.1.values.of_lookup? hname
  unbound _ _ := trivial
  misused _ _ := trivial
  definiens h := ⟨h.1, h.2.1, h.2.2.items _ (by simp)⟩
  defined _ hv := .define hv _
  opened {s e i j body bindings} h _ := by
    obtain ⟨hs, he, hform⟩ := h
    have hadd : s.Counts (s.addFrame e []) := .addFrame he (List.forall_mem_nil _)
    have hbindings := hform.items (.list j bindings) (by simp)
    exact ⟨hadd, hadd.keeps hs, s.lt_size_addFrame e [],
      fun form hmem => hadd.mono (hbindings.items form hmem),
      hadd.mono (hform.items body (by simp))⟩
  binding h := ⟨h.1, h.2.1, h.2.2.1 _ (by simp)⟩
  bound {s e name form rest body v} h hv := by
    obtain ⟨hs, he, hforms, hbody⟩ := h
    have hdefine : s.Counts (s.define e name v) := .define hv name
    refine ⟨hdefine, hdefine.keeps hs, Nat.lt_of_lt_of_le he hdefine.frames, ?_,
      hdefine.mono hbody⟩
    exact fun form hmem =>
      hdefine.mono (hforms form (List.mem_cons_of_mem _ (List.mem_cons_of_mem _ hmem)))
  dangling _ := trivial
  misnamed _ _ _ := trivial
  prepared h := ⟨h.1, h.2.1, h.2.2.2⟩
  branch {s e i cond yes no} h := by
    obtain ⟨hs, he, hform⟩ := h
    refine ⟨⟨hs, he, hform.items cond (by simp)⟩, ⟨hs, he, hform.items yes (by simp)⟩, hs, he, ?_⟩
    cases no with
    | none => exact .atom trivial trivial
    | some no => exact hform.items no (by simp)
  sequence h form hmem := ⟨h.1, h.2.1, h.2.2.items form (List.mem_cons_of_mem _ hmem)⟩
  lambda {s e i j body names} h _ := by
    obtain ⟨-, he, hform⟩ := h
    have hcount : s.Counts { s with nextSerial := s.nextSerial + 1 } :=
      .of_frames_eq rfl (Nat.le_succ _)
    exact ⟨hcount, .closure ⟨Nat.lt_succ_self _, he⟩ (hcount.mono (hform.items body (by simp)))⟩
  application h _ := by
    obtain ⟨hs, he, hform⟩ := h
    refine ⟨⟨hs, he, hform.items _ List.mem_cons_self⟩, ?_⟩
    exact fun arg hmem => ⟨hs, he, hform.items arg (List.mem_cons_of_mem _ hmem)⟩
  called {s e form b vs} room _ _ hvs := by
    have hcomes := b.call_comes room vs s
    generalize hrun : (b.call room vs).run s = o at hcomes
    cases hcomes with
    | plain hv =>
        exact .of_run_ok hrun (.of_frames_eq rfl (Nat.le_refl _))
          (.atom hv.isAtom (hv.isAtom.hasNumbers s))
    | listed =>
        have hcount : s.Counts { s with nextSerial := s.nextSerial + 1 } :=
          .of_frames_eq rfl (Nat.le_succ _)
        exact .of_run_ok hrun hcount
          (.list (Nat.lt_succ_self s.nextSerial) fun v hv => hcount.mono (hvs v hv))
    | printed =>
        exact .of_run_ok hrun (.of_frames_eq rfl (Nat.le_refl _)) (.atom trivial trivial)
    | failed => exact .of_run_error hrun (.of_frames_eq rfl (Nat.le_refl _)) trivial
  entered {s e form i params body home vs} h hfn hvs _ := by
    have hadd : s.Counts (s.addFrame home (Bindings.ofList (params.zip vs))) :=
      .addFrame hfn.self.2 (Bindings.forall_ofList_zip hvs)
    exact ⟨hadd, hadd.keeps h.1, s.lt_size_addFrame home _, hadd.mono hfn.body⟩
  miscounted _ _ := trivial
  uncallable room _ _ := Discipline.uncallable_of_all _ room
  stackOverflow := trivial
  outOfFuel := trivial

/-! ## Sessions -/

theorem Store.isNumbered_initial : Store.initial.IsNumbered := by
  have hsize : Store.initial.frames.size = 1 := rfl
  refine ⟨by decide, ?_, ?_⟩
  · intro f o houter
    by_cases hf : f = Store.root
    · subst hf
      cases houter
    · have hnone : Store.initial.frames[f]? = none :=
        Array.getElem?_eq_none (hsize ▸ Nat.one_le_iff_ne_zero.mpr hf)
      rw [outer?, hnone] at houter
      cases houter
  · intro f entry hentry
    obtain ⟨b, -, rfl⟩ := mem_bindings_initial hentry
    exact .atom trivial trivial

/-- Numbered stores host any text. -/
theorem hosts_numbering (limits : Limits) : numbering.Hosts limits Store.IsNumbered where
  takes {s tokens form rest} hs hread := by
    have hform := Value.ordinaryOr_readForm limits.depth tokens
    rw [hread] at hform
    exact ⟨hs, hs.root, (hform form rfl).isNumbered s⟩
  fails _ := trivial
  mono hs hchange := hchange.keeps hs

namespace Session

open Discipline Traced

variable (limits : Limits) {s : Session}

/-- Whatever is made of the values of a text, the store counts on. -/
theorem counts_fold {α : Type} {st : Store} (hs : st.IsNumbered) (visit : α → Value → Eval α)
    (hvisit : ∀ a v st, numbering.Follows Store.root (quiet (visit a v)) st fun _ _ => True)
    (start : α) (source : String) :
    st.Counts ((Program.fold limits visit start (Token.lex source)).after st) := by
  have hfollows := follows_fold (hosts_numbering limits) visit (Q := fun _ _ => True)
    (fun a v st _ => hvisit a v st) hs start trivial (Token.lex source)
  have hleaves := hfollows.leaves
  rw [eval_fold] at hleaves
  exact hleaves

theorem isNumbered_start (prelude : Option String) : (start limits prelude).store.IsNumbered := by
  cases prelude with
  | none => exact Store.isNumbered_initial
  | some source =>
      have hcounts := counts_fold limits Store.isNumbered_initial (fun _ _ => return ())
        (fun _ _ _ => follows_pure trivial) () source
      exact hcounts.keeps Store.isNumbered_initial

theorem counts_rep (hs : s.store.IsNumbered) (source : String) :
    s.store.Counts (s.answer limits (.rep source)).2.store := by
  rw [answer, store_carryOut]
  exact counts_fold limits hs _ (fun _ v _ => follows_print limits.depth v fun _ _ => trivial)
    none source

/-- A session in which texts are evaluated and shown. -/
theorem isNumbered_answerAll (hs : s.store.IsNumbered) (sources : List String) :
    (s.answerAll limits (sources.map .rep)).2.store.IsNumbered := by
  induction sources generalizing s with
  | nil => exact hs
  | cons source rest ih => exact ih ((counts_rep limits hs source).keeps hs)

end Session

end TailLisp
