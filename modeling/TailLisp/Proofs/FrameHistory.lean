import Mathlib.Data.List.Basic
import Mathlib.Data.List.Induction
import TailLisp.Proofs.Chains
import TailLisp.Proofs.FrameEffect

/-! # Frame histories — a tree of frames and what was done to it

    A tree of frames grows out of one root: frames are added inside others, and names are defined
    in any of them, one by one or several at once.  Some of this fails, where a name is no symbol.
    What the frames show in the end is explained by the definitions that were completed, each of
    them in its own frame, and by nothing else.

    * **`FrameAct`** — what is done to a frame, with the definitions that it completes.
    * **`Lineage`** — the frames around a frame, by where each of them was added.
    * **`Records`** — a store is as a history says; **`Records.perform`** is one act, and
      **`records_afterActs`** a whole history of them.
    * **`IsExplained`** and **`UpdatesFrame`** — what a frame shows, and what several definitions at
      once come to.
    * **`frames_explained_by_history`** — both, for every frame of every tree. -/

namespace TailLisp

/-! ## First places and last values -/

/-- One item more is new or is one of the old ones. -/
theorem eraseDups_concat {α : Type} [DecidableEq α] (xs : List α) (x : α) :
    (xs ++ [x]).eraseDups = if x ∈ xs then xs.eraseDups else xs.eraseDups ++ [x] := by
  rw [List.eraseDups_append]
  by_cases hx : x ∈ xs
  · rw [if_pos hx]
    simp [List.removeAll, hx]
  · rw [if_neg hx]
    simp [List.removeAll, hx, List.eraseDups_cons]

namespace Bindings

theorem isSome_get?_iff {name : String} {bs : Bindings} :
    (bs.get? name).isSome ↔ name ∈ bs.map Prod.fst := by
  induction bs with
  | nil => simp [get?]
  | cons entry rest ih =>
      obtain ⟨other, v⟩ := entry
      by_cases h : other = name
      · simp [get?, h]
      · simp [get?, h, Ne.symm h, ih]

/-- Defining a name anew keeps its place. -/
theorem names_set (name : String) (v : Value) (bs : Bindings) :
    (bs.set name v).map Prod.fst =
      if name ∈ bs.map Prod.fst then bs.map Prod.fst else bs.map Prod.fst ++ [name] := by
  induction bs with
  | nil => rfl
  | cons entry rest ih =>
      obtain ⟨other, w⟩ := entry
      by_cases h : other = name
      · simp [set, h]
      · rw [set, if_neg h, List.map_cons, ih]
        by_cases hrest : name ∈ rest.map Prod.fst
        · simp [hrest]
        · simp [hrest, Ne.symm h]

theorem setAll_concat (bs : Bindings) (definitions : List (String × Value)) (name : String)
    (v : Value) : setAll bs (definitions ++ [(name, v)]) = (setAll bs definitions).set name v := by
  rw [setAll, List.foldl_append]
  rfl

theorem setAll_append (bs : Bindings) (first second : List (String × Value)) :
    setAll bs (first ++ second) = setAll (setAll bs first) second :=
  List.foldl_append

/-- Names are listed once each, in the order of their first definitions. -/
theorem names_setAll_nil (definitions : List (String × Value)) :
    (setAll [] definitions).map Prod.fst = (definitions.map Prod.fst).eraseDups := by
  induction definitions using List.reverseRecOn with
  | nil => rfl
  | append_singleton earlier last ih =>
      obtain ⟨name, v⟩ := last
      rw [setAll_concat, names_set, ih, List.map_append, List.map_singleton, eraseDups_concat]
      simp only [List.mem_eraseDups]

/-- A name has the value of its last definition. -/
theorem get?_setAll_nil (definitions : List (String × Value)) (name : String) :
    (setAll [] definitions).get? name = definitions.reverse.lookup name := by
  induction definitions using List.reverseRecOn with
  | nil => rfl
  | append_singleton earlier last ih =>
      obtain ⟨other, v⟩ := last
      rw [setAll_concat, get?_set, ih, List.reverse_concat, List.lookup_cons]
      by_cases h : other = name
      · simp [h]
      · rw [if_neg h, beq_false_of_ne (Ne.symm h)]

end Bindings

namespace Eval

theorem lastValues_concat (pairs : List (Value × Value)) (entry : Value × Value) :
    lastValues (pairs ++ [entry]) = lastValues.put (lastValues pairs) entry := by
  rw [lastValues, List.foldl_append]
  rfl

theorem names_put (done : List (Value × Value)) (entry : Value × Value) :
    (lastValues.put done entry).map Prod.fst =
      if entry.1 ∈ done.map Prod.fst then done.map Prod.fst
      else done.map Prod.fst ++ [entry.1] := by
  have hany : done.any (·.1 = entry.1) = true ↔ entry.1 ∈ done.map Prod.fst := by
    simp only [List.any_eq_true, decide_eq_true_eq, List.mem_map]
  rw [lastValues.put]
  by_cases h : entry.1 ∈ done.map Prod.fst
  · rw [if_pos h, if_pos (hany.mpr h), List.map_map]
    refine List.map_congr_left fun old _ => ?_
    by_cases hold : old.1 = entry.1
    · simp [hold]
    · simp [hold]
  · rw [if_neg h, if_neg (mt hany.mp h), List.map_append, List.map_singleton]

/-- What is put in takes the place of what has its name. -/
theorem mem_put {done : List (Value × Value)} {entry other : Value × Value}
    (h : other ∈ lastValues.put done entry) :
    other = entry ∨ other ∈ done ∧ other.1 ≠ entry.1 := by
  rw [lastValues.put] at h
  split at h
  case isTrue =>
    obtain ⟨old, hold, rfl⟩ := List.mem_map.mp h
    by_cases hname : old.1 = entry.1
    · exact .inl (if_pos hname)
    · rw [if_neg hname]
      exact .inr ⟨hold, hname⟩
  case isFalse hnone =>
    rcases List.mem_append.mp h with hold | hnew
    · refine .inr ⟨hold, fun hname => hnone ?_⟩
      exact List.any_eq_true.mpr ⟨other, hold, decide_eq_true hname⟩
    · exact .inl (List.mem_singleton.mp hnew)

/-- Each name is there once, in the place of its first entry, -/
theorem names_lastValues (pairs : List (Value × Value)) :
    (lastValues pairs).map Prod.fst = (pairs.map Prod.fst).eraseDups := by
  induction pairs using List.reverseRecOn with
  | nil => rfl
  | append_singleton earlier last ih =>
      rw [lastValues_concat, names_put, ih, List.map_append, List.map_singleton, eraseDups_concat]
      simp only [List.mem_eraseDups]

/-- and has the value of its last one. -/
theorem lookup_of_mem_lastValues {pairs : List (Value × Value)} {entry : Value × Value}
    (h : entry ∈ lastValues pairs) : pairs.reverse.lookup entry.1 = some entry.2 := by
  induction pairs using List.reverseRecOn with
  | nil => exact nomatch h
  | append_singleton earlier last ih =>
      rw [lastValues_concat] at h
      rw [List.reverse_concat, List.lookup_cons]
      rcases mem_put h with rfl | ⟨hold, hname⟩
      · rw [beq_self_eq_true]
      · rw [beq_false_of_ne hname]
        exact ih hold

/-! ## Definitions in one frame -/

/-- The entries in front of the first one whose name is no symbol. -/
def validEntries : List (Value × Value) → List (String × Value)
  | (.sym name, v) :: rest => (name, v) :: validEntries rest
  | _ => []

/-- The first name that is no symbol. -/
def invalidName? : List (Value × Value) → Option Value
  | [] => none
  | (.sym _, _) :: rest => invalidName? rest
  | (name, _) :: _ => some name

/-- The fault of a name that is no symbol.  It is shown, if it can be, within `room` levels. -/
def nameRefusal (room : Nat) (name : Value) : Fault :=
  match name.inspect room with
  | .ok shown => .error (.invalidSymbol shown)
  | .error fault => fault

end Eval

namespace Store

/-- Binds names in a frame, one after another. -/
def defineEach (s : Store) (f : FrameId) (definitions : List (String × Value)) : Store :=
  definitions.foldl (fun s (name, v) => s.define f name v) s

section DefineEach

variable (s : Store) (f : FrameId) (definitions : List (String × Value))

theorem size_defineEach : (s.defineEach f definitions).frames.size = s.frames.size := by
  induction definitions generalizing s with
  | nil => rfl
  | cons definition rest ih => exact (ih _).trans (s.size_define f _ _)

theorem outer?_defineEach (g : FrameId) :
    (s.defineEach f definitions).outer? g = s.outer? g := by
  induction definitions generalizing s with
  | nil => rfl
  | cons definition rest ih => exact (ih _).trans (s.outer?_define f g _ _)

theorem frame_defineEach_of_ne {g : FrameId} (h : g ≠ f) :
    (s.defineEach f definitions).frames[g]? = s.frames[g]? := by
  induction definitions generalizing s with
  | nil => rfl
  | cons definition rest ih =>
      obtain ⟨name, v⟩ := definition
      have hother : (s.define f name v).frames[g]? = s.frames[g]? := by
        rw [Store.define, Array.getElem?_modify, if_neg (Ne.symm h)]
      exact (ih _).trans hother

theorem bindings_defineEach_of_ne {g : FrameId} (h : g ≠ f) :
    (s.defineEach f definitions).bindings g = s.bindings g := by
  rw [bindings, frame_defineEach_of_ne s f definitions h, bindings]

theorem bindings_defineEach_self {f : FrameId} (hf : f < s.frames.size) :
    (s.defineEach f definitions).bindings f = Bindings.setAll (s.bindings f) definitions := by
  induction definitions generalizing s with
  | nil => rfl
  | cons definition rest ih =>
      obtain ⟨name, v⟩ := definition
      have hsize : f < (s.define f name v).frames.size := by rwa [size_define]
      refine (ih _ hsize).trans ?_
      rw [bindings_define_self s hf]
      rfl

end DefineEach

end Store

namespace Eval

variable (room : Nat) (f : FrameId) (s : Store)

theorem run_defineAs_of_ne_sym {name : Value} (h : ∀ x, name ≠ .sym x) (v : Value) :
    (defineAs room f name v).run s = .error (nameRefusal room name) s := by
  have hshow : defineAs room f name v =
      liftM (name.inspect room) >>= fun shown => fail (.invalidSymbol shown) := by
    cases name with
    | sym x => exact absurd rfl (h x)
    | _ => rfl
  rw [hshow, nameRefusal]
  cases name.inspect room <;> rfl

/-- Entries are defined up to the first name that is no symbol, by induction on them. -/
theorem run_forM_defineAs (entries : List (Value × Value)) :
    (entries.forM fun (name, v) => defineAs room f name v).run s =
      match invalidName? entries with
      | none => .ok () (s.defineEach f (validEntries entries))
      | some name => .error (nameRefusal room name) (s.defineEach f (validEntries entries)) := by
  fun_induction invalidName? entries generalizing s with
  | case1 => rfl
  | case2 name v rest ih => exact ih (s.define f name v)
  | case3 name v rest hname =>
      have hvalid : validEntries ((name, v) :: rest) = [] := by
        rw [validEntries]
        rintro x w others heq
        exact hname x (congrArg Prod.fst (List.cons.inj heq).1)
      have hrun := run_defineAs_of_ne_sym room f s hname v
      rw [hvalid]
      exact (EStateM.run_bind ..).trans (by rw [hrun]; rfl)

theorem after_forM_defineAs (entries : List (Value × Value)) :
    (entries.forM fun (name, v) => defineAs room f name v).after s =
      s.defineEach f (validEntries entries) := by
  have hrun := run_forM_defineAs room f s entries
  cases hinvalid : invalidName? entries with
  | none =>
      rw [hinvalid] at hrun
      exact after_of_ok hrun
  | some name =>
      rw [hinvalid] at hrun
      exact after_of_error hrun

end Eval

/-! ## Histories -/

open Eval

/-- What can be done to a frame of a tree. -/
inductive FrameAct where
  | child (frame : FrameId)
  | define (frame : FrameId) (name value : Value)
  | update (frame : FrameId) (pairs : List (Value × Value))

namespace FrameAct

/-- The frame that it is done to. -/
def frame : FrameAct → FrameId
  | child f | define f _ _ | update f _ => f

/-- Does it.  A name that is no symbol is shown within `room` levels. -/
def perform (room : Nat) : FrameAct → Eval Unit
  | child f => do let _ ← newFrame f []
  | define f name v => defineAs room f name v
  | update f pairs => defineAll room f pairs

/-- The definitions that it completes in its frame. -/
def writes : FrameAct → List (String × Value)
  | child _ => []
  | define _ name v => validEntries [(name, v)]
  | update _ pairs => validEntries (lastValues pairs)

/-- The frame around the one that it adds. -/
def outer? : FrameAct → Option FrameId
  | child f => some f
  | _ => none

end FrameAct

/-- The frames around those that were added, in the order in which these were added. -/
def outersOf (acts : List FrameAct) : List FrameId :=
  acts.filterMap FrameAct.outer?

/-- The frame around a frame: the root has none, and the others were added in turn. -/
def outerIn (acts : List FrameAct) : FrameId → Option FrameId
  | 0 => none
  | n + 1 => (outersOf acts)[n]?

/-- The definitions that were completed in a frame, in order. -/
def writesIn (f : FrameId) (acts : List FrameAct) : List (String × Value) :=
  (acts.filter (·.frame = f)).flatMap FrameAct.writes

/-- The value of the last definition of a name that was completed in a frame. -/
def lastWrite? (f : FrameId) (name : String) (acts : List FrameAct) : Option Value :=
  (writesIn f acts).reverse.lookup name

/-- A frame and the frames around it, by where they were added. -/
inductive Lineage (acts : List FrameAct) : FrameId → List FrameId → Prop where
  | root : Lineage acts Store.root [Store.root]
  | inner {f o : FrameId} {path : List FrameId} : outerIn acts f = some o →
      Lineage acts o path → Lineage acts f (f :: path)

/-- All acts are done to frames that are there, of which there are `n` at first. -/
def InTree (n : Nat) : List FrameAct → Prop
  | [] => True
  | act :: rest => act.frame < n ∧ InTree (n + (outersOf [act]).length) rest

instance decidableInTree : ∀ n acts, Decidable (InTree n acts)
  | _, [] => inferInstanceAs (Decidable True)
  | n, act :: rest =>
      have := decidableInTree (n + (outersOf [act]).length) rest
      inferInstanceAs (Decidable (act.frame < n ∧ _))

/-- The store after acts, whether they failed or not. -/
def afterActs (room : Nat) (acts : List FrameAct) (s : Store) : Store :=
  acts.foldl (fun s act => (act.perform room).after s) s

section Append

variable (acts : List FrameAct) (act : FrameAct)

theorem outersOf_append (others : List FrameAct) :
    outersOf (acts ++ others) = outersOf acts ++ outersOf others :=
  List.filterMap_append

theorem writesIn_concat_self : writesIn act.frame (acts ++ [act]) =
    writesIn act.frame acts ++ act.writes := by
  rw [writesIn, List.filter_append, List.flatMap_append, List.filter_singleton,
    decide_eq_true rfl]
  simp [writesIn]

theorem writesIn_concat_of_ne {f : FrameId} (h : f ≠ act.frame) :
    writesIn f (acts ++ [act]) = writesIn f acts := by
  rw [writesIn, List.filter_append, List.filter_singleton, decide_eq_false (Ne.symm h)]
  simp [writesIn]

end Append

/-! ## The store after a history -/

/-- A store is as a history says. -/
structure Records (acts : List FrameAct) (s : Store) : Prop where
  size : s.frames.size = (outersOf acts).length + 1
  links : ∀ f, s.outer? f = outerIn acts f
  older : ∀ f o, s.outer? f = some o → o < f
  bindings : ∀ f, s.bindings f = Bindings.setAll [] (writesIn f acts)

namespace Records

variable {acts : List FrameAct} {s s' : Store}

/-- Before anything was done there is the root. -/
theorem start : Records [] (.ofBindings []) := by
  refine ⟨rfl, fun f => ?_, fun f o ho => ?_, fun f => ?_⟩
  · cases f <;> rfl
  · cases f <;> exact nomatch ho
  · cases f <;> rfl

/-- An act that adds a frame. -/
theorem addFrame (h : Records acts s) {f : FrameId} (hf : f < s.frames.size) :
    Records (acts ++ [.child f]) (s.addFrame f []) := by
  have houters : outersOf (acts ++ [.child f]) = outersOf acts ++ [f] := outersOf_append _ _
  refine ⟨?_, fun g => ?_, fun g o ho => ?_, fun g => ?_⟩
  · rw [Store.size_addFrame, houters, List.length_append, h.size, List.length_singleton]
  · rw [Store.outer?_addFrame, h.links g, h.size]
    cases g with
    | zero => rfl
    | succ n =>
        -- The root is in no list of links, so that of a frame is one place before its number.
        rw [outerIn, outerIn, houters, List.getElem?_append]
        simp only [Nat.succ_inj]
        rcases Nat.lt_trichotomy n (outersOf acts).length with hold | rfl | hnew
        · rw [if_neg (Nat.ne_of_lt hold), if_pos hold]
        · simp
        · rw [if_neg (Nat.ne_of_gt hnew), if_neg (Nat.lt_asymm hnew),
            List.getElem?_eq_none (Nat.le_of_lt hnew)]
          simp [Nat.sub_ne_zero_of_lt hnew]
  · rw [Store.outer?_addFrame] at ho
    split at ho
    case isTrue heq => exact heq ▸ Option.some.inj ho ▸ hf
    case isFalse => exact h.older g o ho
  · have hwrites : writesIn g (acts ++ [.child f]) = writesIn g acts := by
      by_cases hg : g = f
      · subst hg
        exact (writesIn_concat_self acts (.child g)).trans (List.append_nil _)
      · exact writesIn_concat_of_ne acts (.child f) hg
    -- The new frame binds nothing, and nothing was defined under its number before.
    rw [Store.bindings_addFrame, hwrites, ← h.bindings g]
    split
    case isTrue heq => rw [heq, s.bindings_of_size_le (Nat.le_refl _)]
    case isFalse => rfl

/-- An act that completes definitions in its frame and adds none. -/
theorem defineEach (h : Records acts s) {act : FrameAct} (hact : act.frame < s.frames.size)
    (hnone : act.outer? = none) : Records (acts ++ [act]) (s.defineEach act.frame act.writes) := by
  have houters : outersOf (acts ++ [act]) = outersOf acts := by
    rw [outersOf, List.filterMap_append, List.filterMap_cons_none hnone, List.filterMap_nil,
      List.append_nil, outersOf]
  refine ⟨?_, fun g => ?_, fun g o ho => ?_, fun g => ?_⟩
  · rw [Store.size_defineEach, houters, h.size]
  · rw [Store.outer?_defineEach, h.links g]
    cases g with
    | zero => rfl
    | succ n => rw [outerIn, outerIn, houters]
  · rw [Store.outer?_defineEach] at ho
    exact h.older g o ho
  · by_cases hg : g = act.frame
    · subst hg
      rw [s.bindings_defineEach_self _ hact, writesIn_concat_self, Bindings.setAll_append,
        h.bindings]
    · rw [s.bindings_defineEach_of_ne _ _ hg, writesIn_concat_of_ne _ _ hg, h.bindings]

/-- **One act** on a frame that is there, whether it fails or not. -/
theorem perform (h : Records acts s) (room : Nat) {act : FrameAct}
    (hact : act.frame < s.frames.size) : Records (acts ++ [act]) ((act.perform room).after s) := by
  cases act with
  | child f => exact h.addFrame hact
  | update f pairs =>
      have hafter : ((FrameAct.update f pairs).perform room).after s =
          s.defineEach f (FrameAct.update f pairs).writes := after_forM_defineAs room f s _
      rw [hafter]
      exact h.defineEach hact rfl
  | define f name v =>
      -- One definition is the loop over a list of one.
      have hone : ([(name, v)].forM fun (name, v) => defineAs room f name v) =
          (FrameAct.define f name v).perform room := bind_pure_unit
      have hafter := after_forM_defineAs room f s [(name, v)]
      have hwrites : validEntries [(name, v)] = (FrameAct.define f name v).writes := rfl
      rw [hone, hwrites] at hafter
      rw [hafter]
      exact h.defineEach hact rfl

end Records

/-- **A whole history**, by induction on the acts that are still to come. -/
theorem records_afterActs (room : Nat) {done acts : List FrameAct} {s : Store}
    (h : Records done s) (hacts : InTree s.frames.size acts) :
    Records (done ++ acts) (afterActs room acts s) := by
  induction acts generalizing done s with
  | nil =>
      rw [List.append_nil]
      exact h
  | cons act rest ih =>
      obtain ⟨hact, hrest⟩ := hacts
      have hnext := h.perform room hact
      -- The acts behind it are done to a tree that has grown by what it added.
      have hsize : ((act.perform room).after s).frames.size =
          s.frames.size + (outersOf [act]).length := by
        rw [hnext.size, h.size, outersOf_append, List.length_append]
        omega
      rw [← hsize] at hrest
      have hall := ih hnext hrest
      rw [List.append_assoc, List.singleton_append] at hall
      exact hall

/-! ## What a frame shows -/

/-- What a frame shows is explained by a history.  The innermost frame in which a name was ever
    defined is where it is found, with the value of its last definition there. -/
structure IsExplained (acts : List FrameAct) (s : Store) (e : FrameId) : Prop where
  chain : Lineage acts e (s.chain e)
  root : s.rootOf e = Store.root
  names : (s.bindings e).map Prod.fst = ((writesIn e acts).map Prod.fst).eraseDups
  find : ∀ name, s.find? e name =
    (s.chain e).find? fun f => name ∈ (writesIn f acts).map Prod.fst
  found : ∀ name f, s.find? e name = some f →
    ∃ v, lastWrite? f name acts = some v ∧ (Eval.lookup e name).run s = .ok v s
  unfound : ∀ name, s.find? e name = none →
    (Eval.lookup e name).run s = .error (.error (.unbound name)) s
  contains : ∀ name, (s.find? e name).isSome ↔ ∃ v, (Eval.lookup e name).run s = .ok v s

/-- Each lineage ends in the root. -/
theorem Lineage.getLastD_eq_root {acts : List FrameAct} {f : FrameId} {path : List FrameId}
    (h : Lineage acts f path) (default : FrameId) : path.getLastD default = Store.root := by
  induction h generalizing default with
  | root => rfl
  | inner _ _ ih => exact (List.getLastD_cons ..).trans (ih _)

namespace Records

variable {acts : List FrameAct} {s : Store}

/-- The chain of a frame is its lineage, by induction on the frame. -/
theorem lineage (h : Records acts s) {f : FrameId} (hf : f < s.frames.size) :
    Lineage acts f (s.chain f) := by
  induction f using Nat.strongRecOn with
  | ind f ih =>
      cases f with
      | zero =>
          rw [Store.chain_of_none (h.links 0)]
          exact .root
      | succ n =>
          rw [h.size] at hf
          have hn : n < (outersOf acts).length := Nat.lt_of_succ_lt_succ hf
          have houterIn : outerIn acts (n + 1) = some (outersOf acts)[n] :=
            List.getElem?_eq_getElem hn
          have houter := (h.links (n + 1)).trans houterIn
          have holder := h.older (n + 1) _ houter
          rw [Store.chain_of_some houter, if_pos holder]
          exact .inner houterIn (ih _ holder (h.size ▸ Nat.lt_trans holder hf))

/-- A frame binds what was defined in it, -/
theorem binds (h : Records acts s) (name : String) (f : FrameId) :
    s.binds name f = decide (name ∈ (writesIn f acts).map Prod.fst) := by
  have hiff : s.binds name f = true ↔ name ∈ (writesIn f acts).map Prod.fst := by
    rw [Store.binds, h.bindings, Bindings.isSome_get?_iff, Bindings.names_setAll_nil,
      List.mem_eraseDups]
  exact Bool.eq_iff_iff.mpr (hiff.trans decide_eq_true_iff.symm)

/-- to the value of the last definition. -/
theorem get? (h : Records acts s) (name : String) (f : FrameId) :
    (s.bindings f).get? name = lastWrite? f name acts := by
  rw [h.bindings, Bindings.get?_setAll_nil, lastWrite?]

theorem isExplained (h : Records acts s) {e : FrameId} (he : e < s.frames.size) :
    IsExplained acts s e := by
  have hfound : ∀ name f, s.find? e name = some f →
      ∃ v, lastWrite? f name acts = some v ∧ (Eval.lookup e name).run s = .ok v s := by
    intro name f hfind
    have hbinds : s.binds name f = true := List.find?_some hfind
    obtain ⟨v, hv⟩ := Option.isSome_iff_exists.mp hbinds
    have hlookup : s.lookup? e name = some v := by
      rw [s.lookup?_eq_find?_bind, hfind]
      exact hv
    exact ⟨v, (h.get? name f).symm.trans hv, Eval.run_lookup_some s hlookup⟩
  have hunfound : ∀ name, s.find? e name = none →
      (Eval.lookup e name).run s = .error (.error (.unbound name)) s := by
    intro name hfind
    refine Eval.run_lookup_none s ?_
    rw [s.lookup?_eq_find?_bind, hfind]
    rfl
  refine ⟨h.lineage he, (h.lineage he).getLastD_eq_root e, ?_, fun name => ?_, hfound, hunfound,
    fun name => ⟨fun hsome => ?_, fun hruns => ?_⟩⟩
  · rw [h.bindings, Bindings.names_setAll_nil]
  · rw [Store.find?, funext (h.binds name)]
  · obtain ⟨f, hf⟩ := Option.isSome_iff_exists.mp hsome
    obtain ⟨v, -, hv⟩ := hfound name f hf
    exact ⟨v, hv⟩
  · obtain ⟨v, hv⟩ := hruns
    rw [Option.isSome_iff_ne_none]
    intro hnone
    rw [hunfound name hnone] at hv
    cases hv

end Records

/-! ## Several definitions at once -/

/-- What several definitions in a frame come to: each name is defined once, in the place of its
    first entry and with the value of its last one, up to the first name that is no symbol. -/
structure UpdatesFrame (room : Nat) (f : FrameId) (pairs : List (Value × Value)) (s : Store) :
    Prop where
  names : (lastValues pairs).map Prod.fst = (pairs.map Prod.fst).eraseDups
  values : ∀ entry ∈ lastValues pairs, pairs.reverse.lookup entry.1 = some entry.2
  outcome : (defineAll room f pairs).run s = match invalidName? (lastValues pairs) with
    | none => .ok () ((defineAll room f pairs).after s)
    | some name => .error (nameRefusal room name) ((defineAll room f pairs).after s)
  own : ((defineAll room f pairs).after s).bindings f =
    Bindings.setAll (s.bindings f) (validEntries (lastValues pairs))
  others : ∀ g ≠ f, ((defineAll room f pairs).after s).frames[g]? = s.frames[g]?
  links : ∀ g, ((defineAll room f pairs).after s).outer? g = s.outer? g

theorem Eval.updatesFrame (room : Nat) {f : FrameId} {s : Store} (hf : f < s.frames.size)
    (pairs : List (Value × Value)) : UpdatesFrame room f pairs s := by
  have hafter : (defineAll room f pairs).after s =
      s.defineEach f (validEntries (lastValues pairs)) := after_forM_defineAs room f s _
  refine ⟨names_lastValues pairs, fun _ => lookup_of_mem_lastValues, ?_, ?_, fun g hg => ?_,
    fun g => ?_⟩
  · rw [hafter]
    exact run_forM_defineAs room f s (lastValues pairs)
  · rw [hafter, s.bindings_defineEach_self _ hf]
  · rw [hafter, s.frame_defineEach_of_ne _ _ hg]
  · rw [hafter, s.outer?_defineEach]

/-- **Frames are explained by their history**: after any acts on a tree of frames that grew from
    one root, failing ones among them, each frame shows what was defined in it and around it; and
    several definitions at once, in any of the frames, change no other one. -/
theorem frames_explained_by_history (room : Nat) {acts : List FrameAct} (hacts : InTree 1 acts) :
    let s := afterActs room acts (.ofBindings [])
    (∀ e < s.frames.size, IsExplained acts s e) ∧
      ∀ f < s.frames.size, ∀ pairs, UpdatesFrame room f pairs s := by
  intro s
  have h : Records acts s := records_afterActs room .start hacts
  exact ⟨fun e he => h.isExplained he, fun f hf pairs => Eval.updatesFrame room hf pairs⟩

/-- A name that is defined outside, shadowed in an update that fails behind it, and defined
    outside anew. -/
theorem frames_explained_by_history_of_shadowing :
    let acts : List FrameAct :=
      [.define 0 (.sym "x") (.int 1), .child 0,
        .update 1 [(.sym "x", .int 2), (.nil, .nil), (.sym "y", .int 3)],
        .define 0 (.sym "x") (.int 4)]
    let s := afterActs 1 acts (.ofBindings [])
    InTree 1 acts ∧ s.find? 1 "x" = some 1 ∧ (Eval.lookup 1 "x").run s = .ok (.int 2) s ∧
      (Eval.lookup 1 "y").run s = .error (.error (.unbound "y")) s := by
  intro acts s
  have hacts : InTree 1 acts := by decide
  have h := (frames_explained_by_history 1 hacts).1 1 (by decide)
  have hinner : s.outer? 1 = some 0 := rfl
  have houter : s.outer? 0 = none := rfl
  have hlineage : s.chain 1 = [1, 0] := by
    rw [Store.chain_of_some hinner, if_pos Nat.zero_lt_one, Store.chain_of_none houter]
  have hx : s.find? 1 "x" = some 1 := by
    rw [h.find, hlineage]
    decide
  have hy : s.find? 1 "y" = none := by
    rw [h.find, hlineage]
    decide
  obtain ⟨v, hlast, hv⟩ := h.found "x" 1 hx
  obtain rfl : Value.int 2 = v := Option.some.inj hlast
  exact ⟨hacts, hx, hv, h.unfound "y" hy⟩

end TailLisp
