import TailLisp.Proofs.Chains
import TailLisp.Proofs.CleanValues
import TailLisp.Proofs.FrameEffect

/-! # Well-formed stores — what every reachable state is like

    Whatever is bound, passed to a builtin or returned is clean.  Frames lie inside
    older frames, up to the root, and closures remember a frame that exists.

    * **`Store.WellFormed`** — the invariant of stores.
    * **`wellFormedness`** — the discipline: every run keeps it.
    * **`Session.wellFormed_answerAll`** — so it holds in a session after any
      requests, whether they were answered or failed. -/

namespace TailLisp

/-! ## Stores -/

/-- Outer links lead to older frames, down to the root, and everything bound is clean. -/
structure Store.WellFormed (s : Store) : Prop where
  size_pos : 0 < s.frames.size
  outermost : s.outer? Store.root = none
  older : ∀ f < s.frames.size, f ≠ Store.root → ∃ o < f, s.outer? f = some o
  clean : ∀ f, ∀ entry ∈ s.bindings f, entry.2.IsClean s.frames.size

namespace Store.WellFormed

variable {s : Store} {f : FrameId}

theorem of_frames_eq {s' : Store} (h : s.WellFormed) (hframes : s'.frames = s.frames) :
    s'.WellFormed := by
  obtain ⟨hsize, hroot, holder, hclean⟩ := h
  refine ⟨?_, ?_, ?_, ?_⟩
  · rw [hframes]
    exact hsize
  · rw [outer?, hframes]
    exact hroot
  · intro f hf hne
    rw [hframes] at hf
    rw [outer?, hframes]
    exact holder f hf hne
  · intro f entry hentry
    rw [Store.bindings, hframes] at hentry
    rw [hframes]
    exact hclean f entry hentry

/-- What a name stands for is clean. -/
theorem isClean_of_lookup? (h : s.WellFormed) {name : String} {v : Value}
    (hname : s.lookup? f name = some v) : v.IsClean s.frames.size := by
  obtain ⟨g, -, hg⟩ := List.exists_of_findSome?_eq_some hname
  exact h.clean g (name, v) (Bindings.mem_of_get? hg)

/-- A definition with a clean value. -/
theorem define (h : s.WellFormed) (hf : f < s.frames.size) {v : Value}
    (hv : v.IsClean s.frames.size) (name : String) : (s.define f name v).WellFormed := by
  refine ⟨?_, ?_, ?_, ?_⟩
  · rw [size_define]
    exact h.size_pos
  · rw [outer?_define]
    exact h.outermost
  · intro g hg hne
    rw [size_define] at hg
    rw [outer?_define]
    exact h.older g hg hne
  · intro g entry hentry
    rw [size_define]
    by_cases hfg : f = g
    · subst hfg
      rw [bindings_define_self s hf] at hentry
      rcases Bindings.mem_set hentry with rfl | hold
      · exact hv
      · exact h.clean f entry hold
    · rw [bindings_define_of_ne s hfg] at hentry
      exact h.clean g entry hentry

/-- A new frame inside one that exists, with clean bindings. -/
theorem addFrame (h : s.WellFormed) (hf : f < s.frames.size) {bindings : Bindings}
    (hbindings : ∀ entry ∈ bindings, entry.2.IsClean s.frames.size) :
    (s.addFrame f bindings).WellFormed := by
  have hgrow : s.frames.size ≤ (s.addFrame f bindings).frames.size := by
    rw [size_addFrame]
    exact Nat.le_succ _
  refine ⟨Nat.lt_of_lt_of_le h.size_pos hgrow, ?_, ?_, ?_⟩
  · show (s.addFrame f bindings).outer? 0 = none
    rw [outer?_addFrame_of_lt s h.size_pos]
    exact h.outermost
  · intro g hg hne
    rw [size_addFrame] at hg
    rcases Nat.lt_succ_iff_lt_or_eq.mp hg with hold | rfl
    · rw [outer?_addFrame_of_lt s hold]
      exact h.older g hold hne
    · exact ⟨f, hf, outer?_addFrame_self s f bindings⟩
  · intro g entry hentry
    refine Value.IsClean.mono hgrow ?_
    -- A frame is an old one, the new one, or not there and without bindings.
    rcases Nat.lt_trichotomy g s.frames.size with hold | rfl | hnew
    · rw [bindings_addFrame_of_lt s hold] at hentry
      exact h.clean g entry hentry
    · rw [bindings_addFrame_self] at hentry
      exact hbindings entry hentry
    · rw [bindings_of_size_le _ (by rw [size_addFrame]; exact hnew)] at hentry
      exact nomatch hentry

/-- The store of a fresh interpreter. -/
theorem initial : Store.initial.WellFormed := by
  refine ⟨by decide, rfl, ?_, ?_⟩
  · intro f hf hne
    exact absurd (Nat.lt_one_iff.mp hf) hne
  · intro f entry hentry
    obtain ⟨b, hb, rfl⟩ := mem_bindings_initial hentry
    exact .builtin hb

/-! ### Chains -/

theorem chain_root (h : s.WellFormed) : s.chain Store.root = [Store.root] :=
  chain_of_none h.outermost

theorem chain_ne_nil (s : Store) (f : FrameId) : s.chain f ≠ [] :=
  List.ne_nil_of_mem (s.mem_chain_self f)

/-- A chain leads to ever older frames and ends at the root. -/
theorem chain_descends (h : s.WellFormed) (hf : f < s.frames.size) :
    (s.chain f).Pairwise (· > ·) ∧ (∀ g ∈ s.chain f, g ≤ f) ∧ s.rootOf f = Store.root := by
  -- Links lead to smaller numbers, so the induction is on the frame itself.
  induction f using Nat.strongRecOn with
  | ind f ih =>
      by_cases hroot : f = Store.root
      · subst hroot
        rw [rootOf, h.chain_root]
        refine ⟨List.pairwise_singleton _ _, ?_, rfl⟩
        intro g hg
        exact Nat.le_of_eq (List.mem_singleton.mp hg)
      · obtain ⟨o, ho, houter⟩ := h.older f hf hroot
        obtain ⟨hpairwise, hle, hend⟩ := ih o ho (Nat.lt_trans ho hf)
        rw [rootOf, chain_of_some houter, if_pos ho]
        refine ⟨List.pairwise_cons.mpr ⟨?_, hpairwise⟩, ?_, ?_⟩
        · intro g hg
          exact Nat.lt_of_le_of_lt (hle g hg) ho
        · intro g hg
          rcases List.mem_cons.mp hg with rfl | hrest
          · exact Nat.le_refl _
          · exact Nat.le_trans (hle g hrest) (Nat.le_of_lt ho)
        · rw [rootOf] at hend
          cases hchain : s.chain o with
          | nil => exact absurd hchain (chain_ne_nil s o)
          | cons g rest =>
              rw [hchain, List.getLastD_cons] at hend
              rw [List.getLastD_cons, List.getLastD_cons, hend]

end Store.WellFormed

/-! ## The discipline -/

/-- A store that may have changed, but not for the worse. -/
structure Store.Extends (s : Store) (events : List Event) (s' : Store) : Prop where
  grows : s.frames.size ≤ s'.frames.size
  wellFormed : s.WellFormed → s'.WellFormed
  called : ∀ b vs, .called b vs ∈ events → ∀ v ∈ vs, v.IsClean s'.frames.size

namespace Store.Extends

variable {s s₁ s₂ : Store} {es es' : List Event}

/-- What happens without a call of a builtin and ends well. -/
theorem of_no_call (hsize : s.frames.size ≤ s₁.frames.size) (hwell : s.WellFormed → s₁.WellFormed)
    (hnone : ∀ b vs, .called b vs ∉ es) : s.Extends es s₁ :=
  ⟨hsize, hwell, fun b vs hmem => absurd hmem (hnone b vs)⟩

/-- What leaves the frames alone and calls no builtin. -/
theorem of_frames_eq (hframes : s₁.frames = s.frames) (hnone : ∀ b vs, .called b vs ∉ es) :
    s.Extends es s₁ :=
  of_no_call (Nat.le_of_eq (congrArg Array.size hframes.symm)) (fun h => h.of_frames_eq hframes)
    hnone

/-- What leaves the frames alone without any event. -/
theorem silent (hframes : s₁.frames = s.frames) : s.Extends [] s₁ :=
  of_frames_eq hframes fun _ _ => List.not_mem_nil

theorem trans (h : s.Extends es s₁) (h' : s₁.Extends es' s₂) : s.Extends (es ++ es') s₂ := by
  refine ⟨Nat.le_trans h.grows h'.grows, fun hs => h'.wellFormed (h.wellFormed hs), ?_⟩
  intro b vs hmem v hv
  rcases List.mem_append.mp hmem with hfirst | hsecond
  · exact (h.called b vs hfirst v hv).mono h'.grows
  · exact h'.called b vs hsecond v hv

theorem define (hs : s.WellFormed) {e : FrameId} (he : e < s.frames.size) {v : Value}
    (hv : v.IsClean s.frames.size) (name : String) (hnone : ∀ b vs, .called b vs ∉ es) :
    s.Extends es (s.define e name v) :=
  of_no_call (Nat.le_of_eq (s.size_define e name v).symm) (fun _ => hs.define he hv name) hnone

theorem addFrame (hs : s.WellFormed) {f : FrameId} (hf : f < s.frames.size) {bindings : Bindings}
    (hbindings : ∀ entry ∈ bindings, entry.2.IsClean s.frames.size) :
    s.Extends [] (s.addFrame f bindings) := by
  refine of_no_call ?_ (fun _ => hs.addFrame hf hbindings) fun _ _ => List.not_mem_nil
  rw [size_addFrame]
  exact Nat.le_succ _

/-- A call of a builtin of the table with clean values. -/
theorem call {b : Builtin} {vs : List Value} (hvs : ∀ v ∈ vs, v.IsClean s.frames.size)
    (hframes : s₁.frames = s.frames) : s.Extends [.called b vs] s₁ := by
  refine ⟨Nat.le_of_eq (congrArg Array.size hframes.symm), fun h => h.of_frames_eq hframes, ?_⟩
  intro b' vs' hmem
  obtain ⟨rfl, rfl⟩ := Event.called.inj (List.mem_singleton.mp hmem)
  rw [hframes]
  exact hvs

end Store.Extends

/-- The discipline of well-formed stores: reader values are evaluated in frames that exist,
    and clean values come of it. -/
def wellFormedness : Discipline where
  Takes s e form := s.WellFormed ∧ e < s.frames.size ∧ form.IsRead
  Prepares s e bindings body := s.WellFormed ∧ e < s.frames.size ∧ bindings.length % 2 = 0 ∧
    (∀ form ∈ bindings, form.IsRead) ∧ body.IsRead
  Gives s v := v.IsClean s.frames.size
  Changes _ := Store.Extends
  Fails := Fault.IsOrdinary
  grows h := h.grows
  refl := .silent rfl
  trans h h' := h.trans h'
  inside h _ h' := h.trans h'
  takes_mono h htakes := by
    obtain ⟨hs, he, hform⟩ := htakes
    exact ⟨h.wellFormed hs, Nat.lt_of_lt_of_le he h.grows, hform⟩
  prepares_mono h hprepares := by
    obtain ⟨hs, he, hrest⟩ := hprepares
    exact ⟨h.wellFormed hs, Nat.lt_of_lt_of_le he h.grows, hrest⟩
  gives_mono h hv := hv.mono h.grows
  taken _ := by
    refine .of_frames_eq rfl ?_
    intro b vs hmem
    exact nomatch List.mem_singleton.mp hmem
  nil h := ⟨h.1, h.2.1, .nil⟩
  self h hself := h.2.2.isClean hself _
  found h hname := h.1.isClean_of_lookup? hname
  unbound _ _ := trivial
  misused _ h := SpecialForm.isOrdinary_of_misuse? h
  definiens h := by
    obtain ⟨hs, he, hform⟩ := h
    exact ⟨hs, he, hform.items _ (by simp)⟩
  defined h hv := by
    obtain ⟨hs, he, -⟩ := h
    refine .define hs he hv _ ?_
    intro b vs hmem
    exact nomatch List.mem_singleton.mp hmem
  opened {s e i j body bindings} h heven := by
    obtain ⟨hs, he, hform⟩ := h
    have hadd := Store.Extends.addFrame hs he (List.forall_mem_nil _)
    refine ⟨hadd, hadd.wellFormed hs, ?_, heven, ?_, ?_⟩
    · rw [Store.size_addFrame]
      exact Nat.lt_succ_self _
    · have hbindings := hform.items (.list j bindings) (by simp)
      exact hbindings.items
    · exact hform.items _ (by simp)
  binding h := by
    obtain ⟨hs, he, -, hforms, -⟩ := h
    exact ⟨hs, he, hforms _ (by simp)⟩
  bound {s e name form rest body v} h hv := by
    obtain ⟨hs, he, heven, hforms, hbody⟩ := h
    have hdefine : s.Extends [] (s.define e name v) :=
      .define hs he hv name fun _ _ => List.not_mem_nil
    refine ⟨hdefine, hdefine.wellFormed hs, Nat.lt_of_lt_of_le he hdefine.grows,
      Eval.even_of_pair heven, ?_, hbody⟩
    intro form hmem
    exact hforms form (List.mem_cons_of_mem _ (List.mem_cons_of_mem _ hmem))
  -- Names and forms are taken off in pairs, so an even number never comes down to one.
  dangling h := absurd h.2.2.1 (by simp)
  misnamed _ _ _ := trivial
  prepared h := ⟨h.1, h.2.1, h.2.2.2.2⟩
  branch {s e i cond yes no} h := by
    obtain ⟨hs, he, hform⟩ := h
    refine ⟨⟨hs, he, hform.items cond (by simp)⟩, ⟨hs, he, hform.items yes (by simp)⟩, hs, he, ?_⟩
    cases no with
    | none => exact .nil
    | some no => exact hform.items no (by simp)
  sequence h form hmem := by
    obtain ⟨hs, he, hform⟩ := h
    exact ⟨hs, he, hform.items form (List.mem_cons_of_mem _ hmem)⟩
  lambda h hnodup := by
    obtain ⟨-, he, hform⟩ := h
    refine ⟨.silent rfl, ?_⟩
    exact .closure _ hnodup (hform.items _ (by simp)) he
  application h _ := by
    obtain ⟨hs, he, hform⟩ := h
    refine ⟨⟨hs, he, hform.items _ List.mem_cons_self⟩, ?_⟩
    intro arg hmem
    exact ⟨hs, he, hform.items arg (List.mem_cons_of_mem _ hmem)⟩
  called {s e form b vs} room _ hb hvs := by
    cases hb with
    | builtin hb =>
        have hsafe := Builtin.isSafe_call room hb hvs
        have hframes := Builtin.keepsFrames_call room b vs s
        refine ⟨.call hvs hframes, ?_, fun fault s' hrun => hsafe.fault s fault s' hrun⟩
        intro v s' hrun
        rw [Traced.eval_quiet] at hrun
        have hclean := hsafe.result s v s' hrun
        rw [Eval.after_of_ok hrun] at hframes
        rw [hframes]
        exact hclean
  entered {s e form i params body home vs} h hfn hvs _ := by
    obtain ⟨hs, -, -⟩ := h
    -- The body is evaluated at home, in a frame that is there because the closure is clean.
    cases hfn with
    | closure _ _ hbody hhome =>
        have hbindings : ∀ entry ∈ Bindings.ofList (params.zip vs),
            entry.2.IsClean s.frames.size := by
          intro entry hentry
          exact hvs entry.2 (List.of_mem_zip (Bindings.mem_ofList hentry)).2
        have hadd := Store.Extends.addFrame hs hhome hbindings
        refine ⟨hadd, hadd.wellFormed hs, ?_, hbody⟩
        rw [Store.size_addFrame]
        exact Nat.lt_succ_self _
  miscounted _ _ := trivial
  uncallable {s fn} room hfn _ := by
    cases hprint : fn.print room with
    | ok shown => trivial
    | error fault => exact hfn.isOrdinary_of_print hprint
  stackOverflow := trivial
  outOfFuel := trivial

/-! ## Programs and sessions -/

/-- Well-formed stores host any text. -/
theorem hosts_wellFormedness (limits : Limits) :
    wellFormedness.Hosts limits Store.WellFormed where
  takes {s tokens form rest} hs hread := by
    have hform := Value.ordinaryOr_readForm limits.depth tokens
    rw [hread] at hform
    exact ⟨hs, hs.size_pos, hform form rfl⟩
  fails {tokens fault rest} hread := by
    have hfault := Value.ordinaryOr_readForm limits.depth tokens
    rw [hread] at hfault
    exact hfault
  mono hs hchange := hchange.wellFormed hs

/-- A reply without symbols and without a fault that would show a flaw. -/
def Reply.IsClean (n : Nat) : Reply → Prop
  | .value v => v.IsClean n
  | .failed fault => fault.IsOrdinary
  | .printed _ | .opened _ | .done => True

theorem Reply.IsClean.mono {n m : Nat} (hnm : n ≤ m) {reply : Reply} (h : reply.IsClean n) :
    reply.IsClean m := by
  cases reply with
  | value v => exact Value.IsClean.mono hnm h
  | failed fault => exact h
  | printed text => trivial
  | opened text => trivial
  | done => trivial

namespace Session

open Discipline Traced

variable (limits : Limits) {s : Session}

/-- What is carried out as the discipline has it extends the store and is answered cleanly. -/
theorem extends_carryOut {α : Type} {x : Traced α} {Q : α → Store → Prop} (reply : α → Reply)
    (hfollows : wellFormedness.Follows Store.root x s.store Q)
    (hreply : ∀ a s', Q a s' → (reply a).IsClean s'.frames.size) :
    s.store.Extends (x.events s.store) (s.carryOut x.eval reply).2.store ∧
      (s.carryOut x.eval reply).1.IsClean (s.carryOut x.eval reply).2.store.frames.size := by
  have hleaves := hfollows.leaves
  rw [carryOut]
  cases hrun : x.eval.run s.store with
  | ok a s' =>
      rw [Eval.after_of_ok hrun] at hleaves
      exact ⟨hleaves, hreply a s' (hfollows.result a s' hrun)⟩
  | error fault s' =>
      rw [Eval.after_of_error hrun] at hleaves
      exact ⟨hleaves, hfollows.fault fault s' hrun⟩

/-- One request. -/
theorem extends_answer (hs : s.store.WellFormed) (request : Request) :
    s.store.Extends (s.events limits request) (s.answer limits request).2.store ∧
      (s.answer limits request).1.IsClean (s.answer limits request).2.store.frames.size := by
  have hosts := hosts_wellFormedness limits
  cases request with
  | eval source =>
      have hfollows := follows_fold hosts (fun _ value => return value)
        (fun _ _ _ hv => follows_pure hv) hs .nil .nil (Token.lex source)
      have hcarry := extends_carryOut .value hfollows fun _ _ h => h
      rw [eval_fold] at hcarry
      exact hcarry
  | rep source =>
      have hfollows := follows_fold hosts
        (fun _ value => do return some (← value.print limits.depth))
        (fun _ v _ hv => follows_print limits.depth v fun _ => hv.isOrdinary_of_print) hs none
        trivial (Token.lex source)
      have hcarry := extends_carryOut .printed hfollows fun _ _ _ => trivial
      rw [eval_fold] at hcarry
      exact hcarry
  | openText source => exact ⟨.silent rfl, trivial⟩
  | next text =>
      have hfollows := follows_next hosts hs (s.texts[text]?.getD [])
      have hleaves := hfollows.leaves
      -- A text moves on only with a result, so this is no case of `carryOut`.
      simp only [answer, advance, events]
      rw [← eval_next]
      cases hrun : (Traced.next limits (s.texts[text]?.getD [])).eval.run s.store with
      | ok result s' =>
          rw [Eval.after_of_ok hrun] at hleaves
          have hresult := hfollows.result result s' hrun
          cases result with
          | none => exact ⟨hleaves, trivial⟩
          | some entry => exact ⟨hleaves, hresult entry rfl⟩
      | error fault s' =>
          rw [Eval.after_of_error hrun] at hleaves
          exact ⟨hleaves, hfollows.fault fault s' hrun⟩

/-- Any number of requests, answered or not, by induction on their list. -/
theorem extends_answerAll (requests : List Request) (hs : s.store.WellFormed) :
    s.store.Extends (s.eventsAll limits requests) (s.answerAll limits requests).2.store ∧
      ∀ answer ∈ (s.answerAll limits requests).1,
        answer.1.IsClean (s.answerAll limits requests).2.store.frames.size := by
  induction requests generalizing s with
  | nil => exact ⟨.silent rfl, List.forall_mem_nil _⟩
  | cons request rest ih =>
      obtain ⟨hextends, hreply⟩ := extends_answer limits hs request
      obtain ⟨hrest, hreplies⟩ := ih (hextends.wellFormed hs)
      refine ⟨hextends.trans hrest, List.forall_mem_cons.mpr ⟨?_, hreplies⟩⟩
      exact hreply.mono hrest.grows

/-- A text evaluated for its effect. -/
theorem follows_load {st : Store} (hs : st.WellFormed) (source : String) :
    wellFormedness.Follows Store.root (Traced.load limits source) st fun _ _ => True :=
  follows_fold (hosts_wellFormedness limits) (fun _ _ => return ())
    (fun _ _ _ _ => follows_pure trivial) hs () trivial (Token.lex source)

/-- The start of a session, also where its prelude fails. -/
theorem extends_start (prelude : Option String) :
    Store.initial.Extends (startEvents limits prelude) (start limits prelude).store := by
  cases prelude with
  | none => exact .silent rfl
  | some source =>
      have hleaves := (follows_load limits .initial source).leaves
      rw [eval_load] at hleaves
      exact hleaves

/-- **Every state that a session reaches is well formed**, with or without a prelude and
    whatever was asked of it.  Only clean values are passed to builtins and returned, and no
    request fails in a way that would show a flaw. -/
theorem wellFormed_answerAll (prelude : Option String) (requests : List Request) :
    let s := start limits prelude
    let answers := (s.answerAll limits requests).1
    let last := (s.answerAll limits requests).2.store
    let events := startEvents limits prelude ++ s.eventsAll limits requests
    last.WellFormed ∧
      (∀ f < last.frames.size,
        (last.chain f).Pairwise (· > ·) ∧ last.rootOf f = Store.root) ∧
      (∀ b vs, .called b vs ∈ events → ∀ v ∈ vs, v.IsClean last.frames.size) ∧
      (∀ answer ∈ answers, answer.1.IsClean last.frames.size) ∧
      ∀ source ∈ prelude, ∀ fault st,
        (Program.load limits source).run .initial = .error fault st → fault.IsOrdinary := by
  intro s answers last events
  have hstart := extends_start limits prelude
  have hs : s.store.WellFormed := hstart.wellFormed .initial
  obtain ⟨hextends, hanswers⟩ := extends_answerAll limits requests hs
  have hlast : last.WellFormed := hextends.wellFormed hs
  refine ⟨hlast, ?_, ?_, hanswers, ?_⟩
  · intro f hf
    obtain ⟨hpairwise, -, hroot⟩ := hlast.chain_descends hf
    exact ⟨hpairwise, hroot⟩
  · exact (hstart.trans hextends).called
  · intro source _ fault st hrun
    rw [← eval_load] at hrun
    exact (follows_load limits .initial source).fault fault st hrun

end Session

end TailLisp
