import TailLisp.Proofs.FrameEffect
import TailLisp.Proofs.Parts

/-! # Domestic stores — nothing from outside the language

    A value from outside cannot be printed.  No program makes one, so a store in which none is
    bound never comes to hold one, and no evaluation in it fails for want of a text.  Nothing
    else is asked of the store: it may bind an interruption, and its frames may lie anyhow.

    * **`Store.IsDomestic`** and **`Fault.IsDomestic`** — such stores, and how evaluations in
      them may fail.
    * **`seclusion`** — the discipline: every run keeps it.
    * **`Program.rep_domestic`** — so it holds of a text that is evaluated and shown. -/

namespace TailLisp

/-! ## Domestic values -/

/-- A value that is not from outside. -/
def Value.IsNative : Value → Prop
  | .foreign _ => False
  | _ => True

/-- Nothing in a value is from outside. -/
abbrev Value.IsDomestic (v : Value) : Prop :=
  v.Throughout IsNative

/-- Nothing that is bound is from outside. -/
abbrev Store.IsDomestic (s : Store) : Prop :=
  s.Holds Value.IsNative

/-- The faults that need no value from outside, and no flaw of the evaluator. -/
def Fault.IsDomestic : Fault → Prop
  | .foreign _ | .outOfRange => False
  | _ => True

theorem Fault.IsOrdinary.isDomestic {fault : Fault} (h : fault.IsOrdinary) : fault.IsDomestic := by
  cases fault with
  | foreign => exact h
  | outOfRange => exact h
  | _ => trivial

namespace Value

/-- Nothing that was read is from outside. -/
theorem IsRead.isDomestic {form : Value} (h : form.IsRead) : form.IsDomestic := by
  induction h with
  | nil | bool | int | str | sym => exact .atom trivial trivial
  | list _ ih => exact .list trivial ih

/-- Only its depth or its digits can keep such a value from being printed. -/
theorem IsDomestic.isDomestic_of_checkText {v : Value} (hv : v.IsDomestic) {room : Nat}
    {fault : Fault} (h : v.checkText room = .error fault) : fault.IsDomestic := by
  cases unprintable_of_checkText h with
  | depth | digits => trivial
  | foreign hpart => exact (hv _ hpart).elim

theorem IsDomestic.isDomestic_of_print {v : Value} (hv : v.IsDomestic) {room : Nat}
    {fault : Fault} (h : v.print room = .error fault) : fault.IsDomestic :=
  hv.isDomestic_of_checkText (checkText_eq_error_of_print h)

end Value

/-- Domestic values suit the builtins, an interruption included. -/
theorem Builtin.suits_isDomestic : Suits Value.IsDomestic Fault.IsDomestic where
  nil := .atom trivial trivial
  bool _ := .atom trivial trivial
  int _ := .atom trivial trivial
  list _ := .list trivial
  unprinted hv h := hv.isDomestic_of_checkText h
  refused _ := trivial
  stackOverflow := trivial

/-- The store of a fresh interpreter. -/
theorem Store.isDomestic_initial : Store.initial.IsDomestic := by
  intro f entry hentry
  obtain ⟨b, -, rfl⟩ := mem_bindings_initial hentry
  exact .atom trivial trivial

/-! ## The discipline -/

/-- A store that has no fewer frames and is domestic if it was. -/
structure Store.Secludes (s s' : Store) : Prop where
  grows : s.frames.size ≤ s'.frames.size
  keeps : s.IsDomestic → s'.IsDomestic

namespace Store.Secludes

variable {s s₁ s₂ : Store} {f : FrameId}

theorem trans (h : s.Secludes s₁) (h' : s₁.Secludes s₂) : s.Secludes s₂ :=
  ⟨Nat.le_trans h.grows h'.grows, fun hs => h'.keeps (h.keeps hs)⟩

theorem of_frames_eq (hframes : s₁.frames = s.frames) : s.Secludes s₁ :=
  ⟨Nat.le_of_eq (congrArg Array.size hframes.symm), fun hs => hs.of_frames_eq hframes fun _ => id⟩

theorem define {v : Value} (hv : v.IsDomestic) (name : String) :
    s.Secludes (s.define f name v) :=
  ⟨Nat.le_of_eq (s.size_define f name v).symm, fun hs => hs.define hv (fun _ => id) name⟩

theorem addFrame {bindings : Bindings} (h : ∀ entry ∈ bindings, entry.2.IsDomestic) :
    s.Secludes (s.addFrame f bindings) :=
  ⟨Nat.le_of_lt (s.lt_size_addFrame f bindings), fun hs => hs.addFrame h fun _ => id⟩

end Store.Secludes

/-- The discipline of domestic stores. -/
def seclusion : Discipline where
  Takes s _ form := s.IsDomestic ∧ form.IsDomestic
  Prepares s _ bindings body := s.IsDomestic ∧ bindings.length % 2 = 0 ∧
    (∀ form ∈ bindings, form.IsDomestic) ∧ body.IsDomestic
  Gives _ v := v.IsDomestic
  Changes _ s _ s' := s.Secludes s'
  Fails := Fault.IsDomestic
  grows h := h.grows
  refl := .of_frames_eq rfl
  trans h h' := h.trans h'
  inside h _ h' := h.trans h'
  takes_mono h htakes := ⟨h.keeps htakes.1, htakes.2⟩
  prepares_mono h hprepares := ⟨h.keeps hprepares.1, hprepares.2⟩
  gives_mono _ hv := hv
  taken _ := .of_frames_eq rfl
  nil h := ⟨h.1, .atom trivial trivial⟩
  self h _ := h.2
  found h hname := h.1.of_lookup? hname
  unbound _ _ := trivial
  misused _ _ := trivial
  definiens h := ⟨h.1, h.2.items _ (by simp)⟩
  defined _ hv := .define hv _
  opened {s e i j body bindings} h heven := by
    obtain ⟨hs, hform⟩ := h
    have hadd : s.Secludes (s.addFrame e []) := .addFrame (List.forall_mem_nil _)
    have hbindings := hform.items (.list j bindings) (by simp)
    exact ⟨hadd, hadd.keeps hs, heven, hbindings.items, hform.items body (by simp)⟩
  binding h := ⟨h.1, h.2.2.1 _ (by simp)⟩
  bound {s e name form rest body v} h hv := by
    obtain ⟨hs, heven, hforms, hbody⟩ := h
    have hdefine : s.Secludes (s.define e name v) := .define hv name
    refine ⟨hdefine, hdefine.keeps hs, Eval.even_of_pair heven, ?_, hbody⟩
    exact fun form hmem => hforms form (List.mem_cons_of_mem _ (List.mem_cons_of_mem _ hmem))
  -- Names and forms are taken off in pairs, so an even number never comes down to one.
  dangling h := absurd h.2.1 (by simp)
  misnamed _ _ _ := trivial
  prepared h := ⟨h.1, h.2.2.2⟩
  branch {s e i cond yes no} h := by
    obtain ⟨hs, hform⟩ := h
    refine ⟨⟨hs, hform.items cond (by simp)⟩, ⟨hs, hform.items yes (by simp)⟩, hs, ?_⟩
    cases no with
    | none => exact .atom trivial trivial
    | some no => exact hform.items no (by simp)
  sequence h form hmem := ⟨h.1, h.2.items form (List.mem_cons_of_mem _ hmem)⟩
  lambda h _ := ⟨.of_frames_eq rfl, .closure trivial (h.2.items _ (by simp))⟩
  application h _ :=
    ⟨⟨h.1, h.2.items _ List.mem_cons_self⟩,
      fun arg hmem => ⟨h.1, h.2.items arg (List.mem_cons_of_mem _ hmem)⟩⟩
  called {s e form b vs} room _ _ hvs := by
    have hsafe : (b.call room vs).IsSafe Value.IsDomestic Fault.IsDomestic :=
      Builtin.suits_isDomestic.isSafe_call room (fun _ => trivial) hvs
    exact ⟨.of_frames_eq (Builtin.keepsFrames_call room b vs s), hsafe.result s, hsafe.fault s⟩
  entered {s e form i params body home vs} h hfn hvs _ := by
    have hadd : s.Secludes (s.addFrame home (Bindings.ofList (params.zip vs))) :=
      .addFrame (Bindings.forall_ofList_zip hvs)
    exact ⟨hadd, hadd.keeps h.1, hfn.body⟩
  miscounted _ _ := trivial
  uncallable {s fn} room hfn _ := by
    cases hprint : fn.print room with
    | ok shown => trivial
    | error fault => exact hfn.isDomestic_of_print hprint
  stackOverflow := trivial
  outOfFuel := trivial

/-! ## Programs -/

/-- Domestic stores host any text. -/
theorem hosts_seclusion (limits : Limits) : seclusion.Hosts limits Store.IsDomestic where
  takes {s tokens form rest} hs hread := by
    have hform := Value.ordinaryOr_readForm limits.depth tokens
    rw [hread] at hform
    exact ⟨hs, (hform form rfl).isDomestic⟩
  fails {tokens fault rest} hread := by
    have hfault := Value.ordinaryOr_readForm limits.depth tokens
    rw [hread] at hfault
    exact Fault.IsOrdinary.isDomestic hfault
  mono hs hchange := hchange.keeps hs

open Discipline Traced in
/-- A text that is evaluated and shown leaves a domestic store domestic, and fails only in
    domestic ways. -/
theorem Program.rep_domestic (limits : Limits) {s : Store} (hs : s.IsDomestic) (source : String) :
    ((rep limits source).after s).IsDomestic ∧
      ∀ fault s', (rep limits source).run s = .error fault s' → fault.IsDomestic := by
  have hfollows := follows_fold (hosts_seclusion limits)
    (fun _ value => do return some (← value.print limits.depth))
    (fun _ v _ hv => follows_print limits.depth v fun _ => hv.isDomestic_of_print) hs none
    trivial (Token.lex source)
  obtain ⟨hleaves, -, hfault⟩ := hfollows
  rw [eval_fold] at hleaves hfault
  exact ⟨hleaves.keeps hs, hfault⟩

end TailLisp
