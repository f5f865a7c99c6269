import TailLisp.Proofs.Mirroring
import TailLisp.Proofs.Numbering
import TailLisp.Proofs.ReadBack

/-! # Independence — texts without definitions leave no trace in a session

    In the root frame only what stands in a text is evaluated.  A closure that it calls runs
    in a frame of its own and may define there what it likes.  So a text without a `def!`
    changes no frame that was there before it, and what is left of it are frames that nothing
    leads to and numbers that were given out.  Later texts cannot tell: to them the
    store is the one before with other numbers.

    * **`sealing`** — the discipline: nothing is defined in old frames unless a form that
      is evaluated there has a `def!` in it.
    * **`Renumbering.shift`** — the renumbering that leads past what was added, which
      changes nothing in a numbered store.
    * **`Session.rep_without_define`** — a text without a `def!` changes neither the
      bindings of the root frame nor any other answer of its session. -/

namespace TailLisp

/-! ## Forms without definitions -/

/-- A symbol that is no token is in no form. -/
theorem Token.ordinaryOr_role_of_ne {name : String} {token : Token}
    (h : token ≠ ⟨.symbol, name⟩) :
    OrdinaryOr (Token.Role.Holds fun v => ¬ v.Occurs name) token.role := by
  obtain ⟨kind, text⟩ := token
  cases kind with
  | opening | closing | other => trivial
  | symbol =>
      refine (ordinaryOr_readWord text).map fun v hv hoccurs => ?_
      cases hv with
      | nil | bool | int => exact nomatch hoccurs
      | sym =>
          cases hoccurs
          exact h rfl
  | string =>
      refine (ordinaryOr_readString text).map ?_
      rintro v ⟨shown, rfl⟩ hoccurs
      exact nomatch hoccurs

theorem Value.not_occurs_of_readForm {name : String} {limit : Nat} {tokens rest : List Token}
    {form : Value} (h : ⟨.symbol, name⟩ ∉ tokens)
    (hread : readForm limit tokens = (.ok (some form), rest)) : ¬ form.Occurs name := by
  have hall := ordinaryOr_readFrom (P := fun v => ¬ v.Occurs name) ?_ limit [] tokens
    (fun token hmem => token.ordinaryOr_role_of_ne fun heq => h (heq ▸ hmem))
    (List.forall_mem_nil _)
  · rw [show readFrom limit [] tokens = _ from hread] at hall
    exact hall form rfl
  · rintro items hitems (_ | ⟨hmem, hoccurs⟩)
    exact hitems _ hmem hoccurs

/-! ## Sealed frames -/

/-- A store whose first `n` frames, if there were as many, are as they were. -/
structure Store.Spares (n : Nat) (s s' : Store) : Prop where
  grows : s.frames.size ≤ s'.frames.size
  frame : n ≤ s.frames.size → ∀ f < n, s'.frames[f]? = s.frames[f]?

namespace Store.Spares

variable {n : Nat} {e : FrameId} {s s₁ s₂ : Store}

theorem of_frames_eq (h : s₁.frames = s.frames) : s.Spares n s₁ :=
  ⟨h ▸ Nat.le_refl _, fun _ _ _ => h ▸ rfl⟩

theorem trans (h : s.Spares n s₁) (h' : s₁.Spares n s₂) : s.Spares n s₂ := by
  refine ⟨Nat.le_trans h.grows h'.grows, fun hn f hf => ?_⟩
  rw [h'.frame (Nat.le_trans hn h.grows) f hf, h.frame hn f hf]

/-- A definition in a frame that is new. -/
theorem define (hnew : n ≤ e) (name : String) (v : Value) : s.Spares n (s.define e name v) := by
  refine ⟨Nat.le_of_eq (s.size_define e name v).symm, fun _ f hf => ?_⟩
  rw [Store.define, Array.getElem?_modify, if_neg (Nat.ne_of_gt (Nat.lt_of_lt_of_le hf hnew))]

theorem addFrame (outer : FrameId) (bindings : Bindings) :
    s.Spares n (s.addFrame outer bindings) := by
  have hgrows := Nat.le_of_lt (s.lt_size_addFrame outer bindings)
  exact ⟨hgrows, fun hn f hf =>
    s.frame_addFrame_of_lt (Nat.lt_of_lt_of_le hf hn) outer bindings⟩

end Store.Spares

/-- A form whose evaluation in frame `e` leaves the first `n` frames alone: in one of these it
    must not have a definition in it. -/
structure Value.Seals (n : Nat) (s : Store) (e : FrameId) (form : Value) : Prop where
  size : n ≤ s.frames.size
  without : e < n → ¬ form.Occurs SpecialForm.define.name

namespace Value.Seals

variable {n : Nat} {s : Store} {e : FrameId} {form : Value}

theorem of_new (hsize : n ≤ s.frames.size) (hnew : n ≤ e) : form.Seals n s e :=
  ⟨hsize, fun hold => absurd hold (Nat.not_lt.mpr hnew)⟩

theorem items {i : Option Serial} {forms : List Value} (h : Seals n s e (.list i forms)) :
    ∀ form ∈ forms, form.Seals n s e :=
  fun _ hmem => ⟨h.size, fun hold hoccurs => h.without hold (.item hmem hoccurs)⟩

/-- Definitions are evaluated in new frames only. -/
theorem new_of_define {i : Option Serial} {args : List Value}
    (h : Seals n s e (SpecialForm.define.applied i args)) : n ≤ e :=
  Nat.not_lt.mp fun hold => h.without hold (.item List.mem_cons_self .sym)

end Value.Seals

/-- The discipline that seals the first `n` frames. -/
def sealing (n : Nat) : Discipline where
  Takes s e form := form.Seals n s e
  Prepares s e _ _ := n ≤ s.frames.size ∧ n ≤ e
  Gives _ _ := True
  Changes _ s _ s' := s.Spares n s'
  Fails _ := True
  grows h := h.grows
  refl := .of_frames_eq rfl
  trans h h' := h.trans h'
  inside h _ h' := h.trans h'
  takes_mono h htakes := ⟨Nat.le_trans htakes.size h.grows, htakes.without⟩
  prepares_mono h hprepares := ⟨Nat.le_trans hprepares.1 h.grows, hprepares.2⟩
  gives_mono _ _ := trivial
  taken _ := .of_frames_eq rfl
  nil h := ⟨h.size, fun _ hoccurs => nomatch hoccurs⟩
  self _ _ := trivial
  found _ _ := trivial
  unbound _ _ := trivial
  misused _ _ := trivial
  definiens h := h.items _ (by simp)
  defined h _ := .define h.new_of_define _ _
  opened {s e i j body bindings} h _ := by
    have hsize := Nat.le_of_lt (s.lt_size_addFrame e [])
    exact ⟨.addFrame _ _, Nat.le_trans h.size hsize, h.size⟩
  binding h := .of_new h.1 h.2
  bound h _ := by
    refine ⟨.define h.2 _ _, ?_, h.2⟩
    rw [Store.size_define]
    exact h.1
  dangling _ := trivial
  misnamed _ _ _ := trivial
  prepared h := .of_new h.1 h.2
  branch {s e i cond yes no} h := by
    refine ⟨h.items cond (by simp), h.items yes (by simp), ?_⟩
    cases no with
    | none => exact ⟨h.size, fun _ hoccurs => nomatch hoccurs⟩
    | some no => exact h.items no (by simp)
  sequence h form hmem := h.items form (List.mem_cons_of_mem _ hmem)
  lambda _ _ := ⟨.of_frames_eq rfl, trivial⟩
  application h _ :=
    ⟨h.items _ List.mem_cons_self, fun arg hmem => h.items arg (List.mem_cons_of_mem _ hmem)⟩
  called {s e form b vs} room _ _ _ := by
    refine ⟨?_, fun _ _ _ => trivial, fun _ _ _ => trivial⟩
    rw [Traced.eval_quiet, Eval.after]
    have hcomes := b.call_comes room vs s
    generalize (b.call room vs).run s = o at hcomes
    cases hcomes <;> exact .of_frames_eq rfl
  entered {s e form i params body home vs} h _ _ _ := by
    have hsize := Nat.le_of_lt (s.lt_size_addFrame home (Bindings.ofList (params.zip vs)))
    exact ⟨.addFrame _ _, .of_new (Nat.le_trans h.size hsize) h.size⟩
  miscounted _ _ := trivial
  uncallable room _ _ := Discipline.uncallable_of_all _ room
  stackOverflow := trivial
  outOfFuel := trivial

/-! ## Numbers that lead past what was added -/

/-- The numbers below `n` stay and those from `n` on go up by `i`. -/
def skip (n i k : Nat) : Nat :=
  if k < n then k else k + i

theorem skip_of_lt {n k : Nat} (h : k < n) (i : Nat) : skip n i k = k := if_pos h

theorem skip_of_le {n k : Nat} (h : n ≤ k) (i : Nat) : skip n i k = k + i :=
  if_neg (Nat.not_lt.mpr h)

theorem skip_strictMono (n i : Nat) : StrictMono (skip n i) := by
  intro j k hjk
  unfold skip
  split <;> split <;> omega

/-- From the `n`th frame on there are `i` frames more in between, and from the `m`th serial
    number on `j` numbers more. -/
def Renumbering.shift (n i m j : Nat) (hn : Store.root < n) : Renumbering where
  frame := skip n i
  serial := skip m j
  frame_strictMono := skip_strictMono n i
  serial_injective := (skip_strictMono m j).injective
  frame_root := skip_of_lt hn i

namespace Renumbering

variable {s : Store} {i j : Nat}

/-- Numbers below the counts stay as they are. -/
theorem keeps_shift (hroot : Store.root < s.frames.size) {v : Value} (h : v.HasNumbers s) :
    (shift s.frames.size i s.nextSerial j hroot).Keeps v := by
  cases v with
  | list serial items =>
      cases serial with
      | none => rfl
      | some serial => exact congrArg some (skip_of_lt h j)
  | closure serial params body home => exact ⟨skip_of_lt h.1 j, skip_of_lt h.2 i⟩
  | _ => trivial

theorem shift_scope (hs : s.IsNumbered) {f : FrameId} {frame : Frame}
    (hframe : s.frames[f]? = some frame) :
    (shift s.frames.size i s.nextSerial j hs.root).scope frame = frame := by
  obtain ⟨outer, bs⟩ := frame
  have houter : outer.map (skip s.frames.size i) = outer := by
    cases outer with
    | none => rfl
    | some o =>
        have hlink : s.outer? f = some o := by
          rw [Store.outer?, hframe]
          rfl
        exact congrArg some (skip_of_lt (hs.links f o hlink) i)
  have hbindings : (shift s.frames.size i s.nextSerial j hs.root).bindings bs = bs := by
    refine NumberChange.bindings_eq_self _ fun entry hentry => ?_
    have hbound : entry ∈ s.bindings f := by
      rw [Store.bindings, hframe]
      exact hentry
    exact (hs.values f entry hbound).mono fun _ => keeps_shift hs.root
  exact congrArg₂ Frame.mk houter hbindings

end Renumbering

/-- A numbered store and what becomes of it while its frames stay as they are. -/
theorem Store.IsNumbered.exists_mirrors {s t : Store} (hs : s.IsNumbered) (hcounts : s.Counts t)
    (hspares : s.Spares s.frames.size t) :
    ∃ ρ : Renumbering, s.Mirrors ρ s.printed.size t.printed.size t := by
  obtain ⟨i, hi⟩ := Nat.exists_eq_add_of_le hcounts.frames
  obtain ⟨j, hj⟩ := Nat.exists_eq_add_of_le hcounts.serials
  refine ⟨.shift s.frames.size i s.nextSerial j hs.root, ?_, ?_, ?_, ?_, ?_⟩
  · intro f
    show t.frames[skip s.frames.size i f]? = _
    rcases Nat.lt_or_ge f s.frames.size with hold | hnew
    · rw [skip_of_lt hold, hspares.frame (Nat.le_refl _) f hold,
        Array.getElem?_eq_getElem hold, Option.map_some,
        Renumbering.shift_scope hs (Array.getElem?_eq_getElem hold)]
    · rw [skip_of_le hnew, Array.getElem?_eq_none hnew, Array.getElem?_eq_none (by omega)]
      rfl
  · intro k
    show skip s.frames.size i (s.frames.size + k) = t.frames.size + k
    rw [skip_of_le (Nat.le_add_right _ _)]
    omega
  · intro k
    show skip s.nextSerial j (s.nextSerial + k) = t.nextSerial + k
    rw [skip_of_le (Nat.le_add_right _ _)]
    omega
  · rw [List.drop_of_length_le (Nat.le_of_eq t.printed.length_toList),
      List.drop_of_length_le (Nat.le_of_eq s.printed.length_toList)]
    rfl
  · exact ⟨Nat.le_refl _, Nat.le_refl _⟩

/-! ## Programs -/

open Discipline in
/-- An evaluation in a frame that is sealed. -/
theorem Eval.spares_evaluate (fuel depth : Nat) {n : Nat} {e : FrameId} {form : Value} {s : Store}
    (h : form.Seals n s e) : s.Spares n ((evaluate fuel depth form e).after s) := by
  have hleaves := ((sealing n).governs_evaluate fuel depth form e s h).leaves
  have heval := congrFun (congrFun (Traced.eval_evaluate fuel depth) form) e
  rw [Traced.Evaluator.plain] at heval
  rw [heval] at hleaves
  exact hleaves

open Discipline in
/-- Tokens without definitions leave all frames alone. -/
theorem Program.spares_fold (limits : Limits) {n : Nat} {s : Store} (hn : n ≤ s.frames.size)
    (start : Option String) {tokens : List Token}
    (h : ⟨.symbol, SpecialForm.define.name⟩ ∉ tokens) :
    s.Spares n ((fold limits (fun _ value => do return some (← value.print limits.depth)) start
      tokens).after s) := by
  have hread : ∀ st left form rest, left <:+ tokens → n ≤ st.frames.size →
      Value.readForm limits.depth left = (.ok (some form), rest) →
      form.Seals n st Store.root := by
    intro st left form rest hsuffix hsize hread
    exact ⟨hsize, fun _ => Value.not_occurs_of_readForm (mt (hsuffix.subset ·) h) hread⟩
  have hfollows := follows_fold_of_takes (D := sealing n) (Q := fun _ _ => True)
    (fun _ value => do return some (← value.print limits.depth))
    (fun _ v _ _ => follows_print limits.depth v fun _ _ => trivial)
    (fun _ _ _ hsize hspares => Nat.le_trans hsize hspares.grows) hread
    (fun _ _ _ _ => trivial) hn start trivial List.suffix_rfl
  have hleaves := hfollows.leaves
  rw [Traced.eval_fold] at hleaves
  exact hleaves

/-! ## Sessions -/

namespace Session

variable (limits : Limits) {s : Session}

/-- A text without definitions leaves all frames alone. -/
theorem spares_rep {n : Nat} (hn : n ≤ s.store.frames.size) {source : String}
    (h : ⟨.symbol, SpecialForm.define.name⟩ ∉ Token.lex source) :
    s.store.Spares n (s.answer limits (.rep source)).2.store := by
  rw [answer, store_carryOut]
  exact Program.spares_fold limits hn none h

/-- The answers to all texts but one: those before it, and those after what became of the session
    through it. -/
theorem eraseIdx_answerAll (s : Session) (before after : List String) (source : String) :
    (s.answerAll limits ((before ++ source :: after).map .rep)).1.eraseIdx before.length =
      (s.answerAll limits (before.map .rep)).1 ++
        (((s.answerAll limits (before.map .rep)).2.answer limits (.rep source)).2.answerAll limits
          (after.map .rep)).1 := by
  have hlength : before.length = (s.answerAll limits (before.map .rep)).1.length := by
    rw [length_answerAll, List.length_map]
  rw [List.map_append, answerAll_append, hlength,
    List.eraseIdx_append_of_length_le (Nat.le_refl _), Nat.sub_self]
  rfl

/-- **A text without a `def!` does not interfere with its session.**  Whether it returns or
    fails, the bindings of the root frame are the same after it, and without it all other
    texts have the same answers and the same output. -/
theorem rep_without_define (prelude : Option String) (before after : List String)
    {source : String} (h : ⟨.symbol, SpecialForm.define.name⟩ ∉ Token.lex source) :
    let s := start limits prelude
    let t := (s.answerAll limits (before.map .rep)).2
    (t.answer limits (.rep source)).2.store.bindings Store.root = t.store.bindings Store.root ∧
      (s.answerAll limits ((before ++ source :: after).map .rep)).1.eraseIdx before.length =
        (s.answerAll limits ((before ++ after).map .rep)).1 := by
  intro s t
  have hnumbered : t.store.IsNumbered :=
    isNumbered_answerAll limits (isNumbered_start limits prelude) before
  have hspares := spares_rep limits (Nat.le_refl t.store.frames.size) h
  refine ⟨?_, ?_⟩
  · rw [Store.bindings, Store.bindings,
      hspares.frame (Nat.le_refl _) Store.root hnumbered.root]
  · obtain ⟨ρ, hmirrors⟩ :=
      hnumbered.exists_mirrors (counts_rep limits hnumbered source) hspares
    rw [eraseIdx_answerAll, List.map_append, answerAll_append]
    exact congrArg (_ ++ ·) (answerAll_mirrors limits hmirrors after)

/-- A text that calls a closure, which defines something on its own. -/
theorem rep_without_define_of_call :
    let s := start .standard none
    let setup := "(def! f (fn* () (def! x 1)))"
    let t := (s.answerAll .standard [.rep setup]).2
    ⟨.symbol, SpecialForm.define.name⟩ ∉ Token.lex "(f)" ∧
      (t.answer .standard (.rep "(f)")).2.store.bindings Store.root =
        t.store.bindings Store.root ∧
      (s.answerAll .standard [.rep setup, .rep "(f)", .rep "x"]).1.eraseIdx 1 =
        (s.answerAll .standard [.rep setup, .rep "x"]).1 := by
  intro s setup t
  have hword : Token.IsWord ['f'] := ⟨List.cons_ne_nil _ _, List.forall_mem_singleton.mpr rfl⟩
  have hclose : Token.Delimits [')'] := by
    rintro c ⟨⟩
    decide
  have hlex : Token.lex "(f)" = [.opening, .symbol ['f'], .closing] := by
    show Token.lexChars ('(' :: (['f'] ++ [')'])) = _
    rw [Token.lexChars_opening, Token.lexChars_word hword hclose, Token.lexChars_closing,
      Token.lexChars_nil]
  have hnone : (⟨.symbol, SpecialForm.define.name⟩ : Token) ∉ Token.lex "(f)" := by
    rw [hlex]
    decide
  exact ⟨hnone, rep_without_define .standard none [setup] ["x"] hnone⟩

end Session

end TailLisp
