import TailLisp.Proofs.Chains
import TailLisp.Proofs.Discipline
import TailLisp.Proofs.FreeNames

/-! # Scoping — well-scoped programs find all their names

    If the names that a form needs are bound around it, and those that the closures of
    the store need are bound around where they were made, then no lookup of an
    evaluation fails, and the store stays that way.

    * **`Store.Sees`** — a name is bound somewhere along the chain of a frame.  What is
      seen once is seen forever: names are bound anew, but never unbound.
    * **`scoping`** — the discipline.  The names bound so far account for the forms of a
      `let*` that are still to come, and parameters for the body of a closure.
    * **`evaluate_scoped`** — so it holds of every run, however it ends. -/

namespace TailLisp

/-! ## What is seen from a frame -/

namespace Store

variable {s s' : Store} {f : FrameId}

/-- A name is bound in a frame or somewhere around it. -/
def Sees (s : Store) (f : FrameId) (name : String) : Prop :=
  ∃ g ∈ s.chain f, s.binds name g = true

/-- If links stay and bindings are only added, what was seen is seen. -/
theorem Sees.of_chain_eq {name : String} (h : s.Sees f name) (hchain : s'.chain f = s.chain f)
    (hbinds : ∀ g ≤ f, s.binds name g = true → s'.binds name g = true) : s'.Sees f name := by
  obtain ⟨g, hg, hname⟩ := h
  refine ⟨g, hchain ▸ hg, hbinds g (le_of_mem_chain hg) hname⟩

theorem isSome_lookup?_of_sees {name : String} (h : s.Sees f name) :
    (s.lookup? f name).isSome = true := by
  obtain ⟨g, hg, hname⟩ := h
  rw [lookup?, List.findSome?_isSome_iff]
  exact ⟨g, hg, hname⟩

/-! ### After a definition -/

theorem binds_define {name other : String} {v : Value} {g : FrameId}
    (h : s.binds other g = true) : (s.define f name v).binds other g = true := by
  by_cases hfg : f = g
  · subst hfg
    by_cases hf : f < s.frames.size
    · rw [binds, bindings_define_self s hf, Bindings.get?_set]
      by_cases hname : name = other
      · rw [if_pos hname]
        rfl
      · rw [if_neg hname]
        exact h
    · rw [binds, bindings_of_size_le s (Nat.not_lt.mp hf)] at h
      exact absurd h Bool.false_ne_true
  · rw [binds, bindings_define_of_ne s hfg]
    exact h

theorem sees_define {name other : String} {v : Value} {g : FrameId} (h : s.Sees g other) :
    (s.define f name v).Sees g other :=
  h.of_chain_eq (chain_congr fun g _ => s.outer?_define f g name v) fun _ _ => binds_define

/-- A defined name is seen where it was defined. -/
theorem sees_define_self (hf : f < s.frames.size) (name : String) (v : Value) :
    (s.define f name v).Sees f name := by
  refine ⟨f, mem_chain_self _ f, ?_⟩
  rw [binds, bindings_define_self s hf, Bindings.get?_set, if_pos rfl]
  rfl

/-! ### After a frame was added -/

theorem sees_addFrame {bindings : Bindings} {name : String} {g : FrameId}
    (hg : g < s.frames.size) (h : s.Sees g name) : (s.addFrame f bindings).Sees g name := by
  refine h.of_chain_eq (chain_congr fun k hk => ?_) fun k hk hbinds => ?_
  · exact s.outer?_addFrame_of_lt (Nat.lt_of_le_of_lt hk hg) f bindings
  · rw [binds, s.bindings_addFrame_of_lt (Nat.lt_of_le_of_lt hk hg)]
    exact hbinds

/-- From the added frame everything is seen that is seen from the frame around it. -/
theorem sees_addFrame_self {bindings : Bindings} {name : String} (hf : f < s.frames.size)
    (h : s.Sees f name) : (s.addFrame f bindings).Sees s.frames.size name := by
  have hadded : (s.addFrame f bindings).Sees f name := sees_addFrame hf h
  obtain ⟨g, hg, hname⟩ := hadded
  refine ⟨g, ?_, hname⟩
  rw [chain, outer?_addFrame_self]
  simp only [if_pos hf]
  exact List.mem_cons_of_mem _ hg

theorem sees_addFrame_binding {bindings : Bindings} {name : String}
    (h : (bindings.get? name).isSome = true) :
    (s.addFrame f bindings).Sees s.frames.size name := by
  refine ⟨s.frames.size, mem_chain_self _ _, ?_⟩
  rw [binds, bindings_addFrame_self]
  exact h

end Store

/-- Names that are defined one after another are bound in the end. -/
theorem Bindings.isSome_get?_foldl {name : String} {pairs : List (String × Value)}
    {bindings : Bindings}
    (h : (bindings.get? name).isSome = true ∨ name ∈ pairs.map Prod.fst) :
    ((pairs.foldl (fun bindings (name, value) => set name value bindings) bindings).get?
      name).isSome = true := by
  induction pairs generalizing bindings with
  | nil => exact h.resolve_right List.not_mem_nil
  | cons pair rest ih =>
      obtain ⟨other, v⟩ := pair
      refine ih ?_
      rw [get?_set]
      by_cases hname : other = name
      · rw [if_pos hname]
        exact .inl rfl
      · rw [if_neg hname]
        rcases h with hold | hnew
        · exact .inl hold
        · exact .inr ((List.mem_cons.mp hnew).resolve_left (Ne.symm hname))

/-- Parameters are bound, if there is an argument for each of them. -/
theorem Bindings.isSome_get?_ofList_zip {name : String} {params : List String} {vs : List Value}
    (hlen : vs.length = params.length) (h : name ∈ params) :
    ((ofList (params.zip vs)).get? name).isSome = true := by
  refine isSome_get?_foldl (.inr ?_)
  rw [List.map_fst_zip (Nat.le_of_eq hlen.symm)]
  exact h

/-! ## Well-scoped values and stores -/

/-- A closure that finds, in its parameters or around its home, all names that its body needs;
    anything that is no closure. -/
def Value.IsEnclosed (s : Store) : Value → Prop
  | .closure _ params body home =>
    home < s.frames.size ∧ ∀ name ∈ body.freeNames, name ∉ params → s.Sees home name
  | _ => True

theorem Value.IsAtom.isEnclosed {v : Value} (h : v.IsAtom) (s : Store) : v.IsEnclosed s := by
  cases v with
  | closure => exact h.elim
  | _ => trivial

/-- All closures in a value are enclosed. -/
abbrev Value.IsScoped (s : Store) (v : Value) : Prop :=
  v.Throughout (IsEnclosed s)

/-- All closures in a store are enclosed. -/
abbrev Store.IsScoped (s : Store) : Prop :=
  s.Holds (Value.IsEnclosed s)

/-- A store in which everything is seen that was seen before, and which is scoped if it was. -/
structure Store.Widens (s s' : Store) : Prop where
  grows : s.frames.size ≤ s'.frames.size
  sees : ∀ f < s.frames.size, ∀ name, s.Sees f name → s'.Sees f name
  keeps : s.IsScoped → s'.IsScoped

namespace Store.Widens

variable {s s₁ s₂ : Store} {f : FrameId} {v : Value}

theorem trans (h : s.Widens s₁) (h' : s₁.Widens s₂) : s.Widens s₂ := by
  refine ⟨Nat.le_trans h.grows h'.grows, ?_, fun hs => h'.keeps (h.keeps hs)⟩
  intro f hf name hname
  exact h'.sees f (Nat.lt_of_lt_of_le hf h.grows) name (h.sees f hf name hname)

/-- A closure stays enclosed if what it sees stays in sight. -/
theorem isEnclosed (hgrows : s.frames.size ≤ s₁.frames.size)
    (hsees : ∀ f < s.frames.size, ∀ name, s.Sees f name → s₁.Sees f name) (w : Value)
    (hw : w.IsEnclosed s) : w.IsEnclosed s₁ := by
  cases w with
  | closure i params body home =>
      obtain ⟨hhome, hnames⟩ := hw
      refine ⟨Nat.lt_of_lt_of_le hhome hgrows, ?_⟩
      intro name hname hparam
      exact hsees home hhome name (hnames name hname hparam)
  | _ => trivial

theorem mono (h : s.Widens s₁) (hv : v.IsScoped s) : v.IsScoped s₁ :=
  Value.Throughout.mono (isEnclosed h.grows h.sees) hv

/-- What leaves the frames alone. -/
theorem of_frames_eq (hframes : s₁.frames = s.frames) : s.Widens s₁ := by
  have houter : ∀ f, s₁.outer? f = s.outer? f := by
    intro f
    rw [outer?, outer?, hframes]
  have hgrows := Nat.le_of_eq (congrArg Array.size hframes.symm)
  have hsees : ∀ f < s.frames.size, ∀ name, s.Sees f name → s₁.Sees f name := by
    intro f _ name hname
    refine hname.of_chain_eq (chain_congr fun g _ => houter g) fun g _ hbinds => ?_
    rw [binds, bindings, hframes]
    exact hbinds
  exact ⟨hgrows, hsees, fun hs => hs.of_frames_eq hframes (isEnclosed hgrows hsees)⟩

theorem define (hv : v.IsScoped s) (name : String) : s.Widens (s.define f name v) := by
  have hgrows := Nat.le_of_eq (s.size_define f name v).symm
  have hsees : ∀ g < s.frames.size, ∀ other, s.Sees g other →
      (s.define f name v).Sees g other := fun _ _ _ => sees_define
  exact ⟨hgrows, hsees, fun hs => hs.define hv (isEnclosed hgrows hsees) name⟩

theorem addFrame {bindings : Bindings} (h : ∀ entry ∈ bindings, entry.2.IsScoped s) :
    s.Widens (s.addFrame f bindings) := by
  have hgrows := Nat.le_of_lt (s.lt_size_addFrame f bindings)
  have hsees : ∀ g < s.frames.size, ∀ name, s.Sees g name →
      (s.addFrame f bindings).Sees g name := fun _ hg _ => sees_addFrame hg
  exact ⟨hgrows, hsees, fun hs => hs.addFrame h (isEnclosed hgrows hsees)⟩

end Store.Widens

/-! ## The discipline -/

/-- A form that may be evaluated in a frame: the names that it needs are seen from there, and
    all closures are enclosed. -/
structure Store.Suits (s : Store) (e : FrameId) (form : Value) : Prop where
  store : s.IsScoped
  frame : e < s.frames.size
  closures : form.IsScoped s
  names : ∀ name ∈ form.freeNames, s.Sees e name

/-- Bindings of a `let*` that are still to come in its frame, with its body.  Some names are
    bound already; the body counts on all if there is no defect. -/
structure Store.SuitsLet (s : Store) (e : FrameId) (bindings : List Value) (body : Value) :
    Prop where
  store : s.IsScoped
  frame : e < s.frames.size
  closures : ∀ form ∈ bindings, form.IsScoped s
  bodyClosures : body.IsScoped s
  names : ∃ bound, (∀ name ∈ bound, s.Sees e name) ∧
    ∀ name ∈ Value.freeNamesOfBindings bound bindings, s.Sees e name
  bodyNames : ∀ names, Value.boundNames? bindings = some names →
    ∀ name ∈ body.freeNames, name ∈ names ∨ s.Sees e name

namespace Store

variable {s s' : Store} {e : FrameId}

theorem Suits.mono {form : Value} (h : s.Suits e form) (hwide : s.Widens s') :
    s'.Suits e form where
  store := hwide.keeps h.store
  frame := Nat.lt_of_lt_of_le h.frame hwide.grows
  closures := hwide.mono h.closures
  names name hname := hwide.sees e h.frame name (h.names name hname)

theorem SuitsLet.mono {bindings : List Value} {body : Value} (h : s.SuitsLet e bindings body)
    (hwide : s.Widens s') : s'.SuitsLet e bindings body where
  store := hwide.keeps h.store
  frame := Nat.lt_of_lt_of_le h.frame hwide.grows
  closures form hmem := hwide.mono (h.closures form hmem)
  bodyClosures := hwide.mono h.bodyClosures
  names := by
    obtain ⟨bound, hbound, hnames⟩ := h.names
    exact ⟨bound, fun name hname => hwide.sees e h.frame name (hbound name hname),
      fun name hname => hwide.sees e h.frame name (hnames name hname)⟩
  bodyNames names hall name hname :=
    (h.bodyNames names hall name hname).imp id (hwide.sees e h.frame name)

/-- A part of a form that may be evaluated, if it needs nothing more. -/
theorem Suits.part {i : Option Serial} {items : List Value} {form : Value}
    (h : s.Suits e (.list i items)) (hmem : form ∈ items)
    (hnames : form.freeNames ⊆ Value.freeNames (.list i items)) : s.Suits e form :=
  ⟨h.store, h.frame, h.closures.items form hmem, fun name hname => h.names name (hnames hname)⟩

/-- The parts of a form that needs just what they need. -/
theorem Suits.parts {i : Option Serial} {items forms : List Value}
    (h : s.Suits e (.list i items)) (hforms : forms ⊆ items)
    (hnames : Value.freeNames (.list i items) = Value.freeNamesOfAll forms) :
    ∀ form ∈ forms, s.Suits e form := by
  intro form hmem
  refine h.part (hforms hmem) fun name hname => ?_
  rw [hnames]
  exact Value.mem_freeNamesOfAll.mpr ⟨form, hmem, hname⟩

/-- The new frame of a `let*`. -/
theorem Suits.letStar {i j : Option Serial} {bindings : List Value} {body : Value}
    (h : s.Suits e (SpecialForm.letStar.applied i [.list j bindings, body])) :
    (s.addFrame e []).SuitsLet s.frames.size bindings body := by
  have hwide : s.Widens (s.addFrame e []) := .addFrame (List.forall_mem_nil _)
  have hbindings := h.closures.items (.list j bindings) (by simp)
  have hsees : ∀ name ∈ Value.freeNames (SpecialForm.letStar.applied i [.list j bindings, body]),
      (s.addFrame e []).Sees s.frames.size name := fun name hname =>
    sees_addFrame_self h.frame (h.names name hname)
  refine ⟨hwide.keeps h.store, ?_, ?_, hwide.mono (h.closures.items body (by simp)), ?_, ?_⟩
  · exact s.lt_size_addFrame _ _
  · intro form hmem
    exact hwide.mono (hbindings.items form hmem)
  · refine ⟨[], List.forall_mem_nil _, ?_⟩
    intro name hname
    exact hsees name (Value.freeNamesOfBindings_subset_letStar i j body bindings hname)
  · intro names hall name hname
    by_cases hbound : name ∈ names
    · exact .inl hbound
    · exact .inr (hsees name (Value.mem_freeNames_letStar i j body hall hname hbound))

section Pair

variable {name : String} {form body v : Value} {rest : List Value}

/-- The next form of a `let*`. -/
theorem SuitsLet.head (h : s.SuitsLet e (.sym name :: form :: rest) body) : s.Suits e form := by
  refine ⟨h.store, h.frame, h.closures form (by simp), ?_⟩
  intro other hother
  obtain ⟨bound, hbound, hnames⟩ := h.names
  by_cases hmem : other ∈ bound
  · exact hbound other hmem
  · refine hnames other (List.mem_append_left _ (List.mem_filter.mpr ⟨hother, ?_⟩))
    exact decide_eq_true hmem

/-- One more name is bound. -/
theorem SuitsLet.define (h : s.SuitsLet e (.sym name :: form :: rest) body)
    (hv : v.IsScoped s) : (s.define e name v).SuitsLet e rest body := by
  have hwide : s.Widens (s.define e name v) := .define hv name
  have hself := sees_define_self h.frame name v
  have hafter := h.mono hwide
  refine ⟨hafter.store, hafter.frame, ?_, hafter.bodyClosures, ?_, ?_⟩
  · intro form hmem
    exact hafter.closures form (List.mem_cons_of_mem _ (List.mem_cons_of_mem _ hmem))
  · obtain ⟨bound, hbound, hnames⟩ := hafter.names
    refine ⟨bound ++ [name], ?_, ?_⟩
    · intro other hother
      rcases List.mem_append.mp hother with hold | hnew
      · exact hbound other hold
      · exact List.mem_singleton.mp hnew ▸ hself
    · intro other hother
      exact hnames other (List.mem_append_right _ hother)
  · intro names hall other hother
    have hcons : Value.boundNames? (.sym name :: form :: rest) = some (name :: names) := by
      rw [Value.boundNames?, hall]
      rfl
    rcases hafter.bodyNames (name :: names) hcons other hother with hbound | hseen
    · rcases List.mem_cons.mp hbound with rfl | hrest
      · exact .inr hself
      · exact .inl hrest
    · exact .inr hseen

end Pair

/-- The body of a closure, in the frame of its parameters. -/
theorem Suits.closure {i : Serial} {params : List String} {body : Value} {home : FrameId}
    {vs : List Value} (hs : s.IsScoped) (hfn : Value.IsScoped s (.closure i params body home))
    (hvs : ∀ v ∈ vs, v.IsScoped s) (hlen : vs.length = params.length) :
    (s.addFrame home (Bindings.ofList (params.zip vs))).Suits s.frames.size body := by
  obtain ⟨hhome, hnames⟩ := hfn.self
  have hwide : s.Widens (s.addFrame home (Bindings.ofList (params.zip vs))) :=
    .addFrame (Bindings.forall_ofList_zip hvs)
  refine ⟨hwide.keeps hs, ?_, hwide.mono hfn.body, ?_⟩
  · exact s.lt_size_addFrame _ _
  · intro name hname
    by_cases hparam : name ∈ params
    · exact sees_addFrame_binding (Bindings.isSome_get?_ofList_zip hlen hparam)
    · exact sees_addFrame_self hhome (hnames name hname hparam)

end Store

/-- A refused special form looks nothing up. -/
theorem SpecialForm.not_isUnbound_of_misuse? {kind : SpecialForm} {args : List Value}
    {cause : LispError} (h : kind.misuse? args = some cause) :
    ¬ (Fault.error cause).IsUnbound := by
  rw [SpecialForm.misuse?] at h
  split at h
  · obtain ⟨defect, -, rfl⟩ := Option.map_eq_some_iff.mp h
    exact id
  · obtain rfl := Option.some.inj h
    exact id

open Store in
/-- The discipline of well-scoped evaluations: forms are taken up where their names are seen, and
    no lookup fails. -/
def scoping : Discipline where
  Takes s e form := s.Suits e form
  Prepares s e bindings body := s.SuitsLet e bindings body
  Gives s v := v.IsScoped s
  Changes _ s _ s' := s.Widens s'
  Fails fault := ¬ fault.IsUnbound
  grows h := h.grows
  refl := .of_frames_eq rfl
  trans h h' := h.trans h'
  inside h _ h' := h.trans h'
  takes_mono h htakes := htakes.mono h
  prepares_mono h hprepares := hprepares.mono h
  gives_mono h hv := h.mono hv
  taken _ := .of_frames_eq rfl
  nil h := ⟨h.store, h.frame, .atom trivial trivial, List.forall_mem_nil _⟩
  self h _ := h.closures
  found h hname := h.store.of_lookup? hname
  unbound h hname := by
    have hsome := isSome_lookup?_of_sees (h.names _ List.mem_cons_self)
    rw [hname] at hsome
    exact nomatch hsome
  misused _ h := SpecialForm.not_isUnbound_of_misuse? h
  definiens {s e i name expr} h := by
    refine h.part (by simp) ?_
    rw [← SpecialForm.applied, Value.freeNames_define]
    exact List.Subset.refl _
  defined _ hv := .define hv _
  opened h _ := ⟨.addFrame (List.forall_mem_nil _), h.letStar⟩
  binding h := h.head
  bound h hv := ⟨.define hv _, h.define hv⟩
  dangling _ := id
  misnamed _ _ _ := id
  prepared h := by
    refine ⟨h.store, h.frame, h.bodyClosures, ?_⟩
    intro name hname
    exact (h.bodyNames [] rfl name hname).resolve_left List.not_mem_nil
  branch {s e i cond yes no} h := by
    have hpart : ∀ form ∈ cond :: yes :: no.toList, s.Suits e form :=
      h.parts (List.subset_cons_self _ _) (Value.freeNames_branch i _)
    refine ⟨hpart cond (by simp), hpart yes (by simp), ?_⟩
    cases no with
    | none => exact ⟨h.store, h.frame, .atom trivial trivial, List.forall_mem_nil _⟩
    | some no => exact hpart no (by simp)
  sequence h := h.parts (List.subset_cons_self _ _) (Value.freeNames_sequence _ _)
  lambda {s e i j body names} h hnodup := by
    have hwide : s.Widens { s with nextSerial := s.nextSerial + 1 } := .of_frames_eq rfl
    refine ⟨hwide, .closure ?_ (hwide.mono (h.closures.items body (by simp)))⟩
    refine ⟨h.frame, ?_⟩
    intro name hname hparam
    refine hwide.sees e h.frame name (h.names name ?_)
    rw [Value.freeNames_lambda i j hnodup]
    refine List.mem_filter.mpr ⟨hname, decide_eq_true ?_⟩
    rwa [List.mem_map_of_injective fun _ _ => Value.sym.inj]
  application h hhead :=
    List.forall_mem_cons.mp
      (h.parts (List.Subset.refl _) (Value.freeNames_application _ _ hhead))
  called {s e form b vs} room _ _ hvs := by
    have hcomes := b.call_comes room vs s
    generalize hrun : (b.call room vs).run s = o at hcomes
    cases hcomes with
    | plain hv =>
        exact .of_run_ok hrun (.of_frames_eq rfl) (.atom hv.isAtom (hv.isAtom.isEnclosed s))
    | listed =>
        have hwide : s.Widens { s with nextSerial := s.nextSerial + 1 } := .of_frames_eq rfl
        exact .of_run_ok hrun hwide (.list trivial fun v hv => hwide.mono (hvs v hv))
    | printed => exact .of_run_ok hrun (.of_frames_eq rfl) (.atom trivial trivial)
    | failed hfault => exact .of_run_error hrun (.of_frames_eq rfl) hfault
  entered h hfn hvs hlen :=
    ⟨.addFrame (Bindings.forall_ofList_zip hvs), .closure h.store hfn hvs hlen⟩
  miscounted _ _ := id
  uncallable {s fn} room _ _ := by
    cases hprint : fn.print room with
    | ok shown => exact id
    | error fault => exact Value.not_isUnbound_of_print hprint
  stackOverflow := id
  outOfFuel := id

/-- **A well-scoped form meets no unbound symbol.**  If all closures of the store and of the
    form find the names that they need, and the form finds those that it needs around its frame,
    then no run of it ends with a failed lookup, and all closures of the store that is left, and
    of the value if there is one, find theirs. -/
theorem evaluate_scoped (fuel depth : Nat) {form : Value} {e : FrameId} {s : Store}
    (hs : s.IsScoped) (he : e < s.frames.size) (hform : form.IsScoped s)
    (hnames : ∀ name ∈ form.freeNames, s.Sees e name) :
    let run := Eval.evaluate fuel depth form e
    (∀ name s', run.run s ≠ .error (.error (.unbound name)) s') ∧
      (run.after s).IsScoped ∧
      ∀ v s', run.run s = .ok v s' → v.IsScoped s' := by
  intro run
  have herase : (Traced.evaluate fuel depth form e).eval = run :=
    congrFun (congrFun (Traced.eval_evaluate fuel depth) form) e
  have hfollows := scoping.governs_evaluate fuel depth form e s ⟨hs, he, hform, hnames⟩
  have hleaves : s.Widens (run.after s) := herase ▸ hfollows.leaves
  refine ⟨?_, hleaves.keeps hs, ?_⟩
  · intro name s' hrun
    exact hfollows.fault (.error (.unbound name)) s' (herase ▸ hrun) trivial
  · intro v s' hrun
    exact hfollows.result v s' (herase ▸ hrun)

/-- A call of a closure that needs a name around its home: `(f x)` where `f` is
    `(fn* (y) x)`. -/
theorem evaluate_scoped_of_call :
    let f : Value := .closure 0 ["y"] (.sym "x") Store.root
    let s := Store.ofBindings [("x", .int 1), ("f", f)]
    let form : Value := .list none [.sym "f", .sym "x"]
    s.IsScoped ∧ Store.root < s.frames.size ∧ form.IsScoped s ∧
      (∀ name ∈ form.freeNames, s.Sees Store.root name) ∧
      ∀ name s', (Eval.evaluate 2 2 form Store.root).run s ≠
        .error (.error (.unbound name)) s' := by
  intro f s form
  have hx : s.Sees Store.root "x" := ⟨Store.root, Store.mem_chain_self s _, rfl⟩
  have hf : s.Sees Store.root "f" := ⟨Store.root, Store.mem_chain_self s _, rfl⟩
  have hroot : Store.root < s.frames.size := Nat.one_pos
  have hbody : Value.IsScoped s (.sym "x") := .atom trivial trivial
  have hclosure : f.IsScoped s := by
    refine .closure ⟨hroot, ?_⟩ hbody
    intro name hname _
    exact List.mem_singleton.mp hname ▸ hx
  have hs : s.IsScoped := by
    intro g entry hentry
    by_cases hg : g = Store.root
    · subst hg
      rcases List.mem_pair.mp hentry with rfl | rfl
      · exact .atom trivial trivial
      · exact hclosure
    · have hsize : s.frames.size ≤ g := Nat.one_le_iff_ne_zero.mpr hg
      rw [Store.bindings_of_size_le s hsize] at hentry
      exact nomatch hentry
  have hform : form.IsScoped s := by
    refine .list trivial fun v hv => ?_
    rcases List.mem_pair.mp hv with rfl | rfl
    · exact .atom trivial trivial
    · exact hbody
  have hnames : ∀ name ∈ form.freeNames, s.Sees Store.root name := by
    intro name hname
    rcases List.mem_pair.mp hname with rfl | rfl
    · exact hf
    · exact hx
  exact ⟨hs, hroot, hform, hnames, (evaluate_scoped 2 2 hs hroot hform hnames).1⟩

end TailLisp
