import TailLisp.Proofs.Hiding
import TailLisp.Proofs.Respelling

/-! # Mirroring — runs from stores that differ in their numbers

    Two stores mirror each other along a renumbering if the second has the frames of the
    first under other numbers, maybe among frames that nothing leads to, and both count
    on in step.  An evaluation cannot tell them apart: from mirrored stores it comes to
    mirrored outcomes.  The stores may also bind hidden names differently, as long as no form
    that is evaluated asks for them.

    * **`Store.Mirrors`** — the relation, kept by everything that changes a store.
    * **`mirroring`** — the correspondence: of the stores without hidden names, one mirrors
      the other.
    * **`Session.answerAll_mirrors`** and **`Session.answerAll_mirrors_without`** — so sessions
      on such stores give the same answers. -/

namespace TailLisp

/-! ## Mirrored stores -/

/-- The second store has the frames of the first under other numbers.  Of what was printed,
    only what came after the first `p` and the first `q` values is compared. -/
structure Store.Mirrors (ρ : Renumbering) (p q : Nat) (s t : Store) : Prop where
  frame : ∀ f, t.frames[ρ.frame f]? = (s.frames[f]?).map ρ.scope
  nextFrame : ∀ k, ρ.frame (s.frames.size + k) = t.frames.size + k
  nextSerial : ∀ k, ρ.serial (s.nextSerial + k) = t.nextSerial + k
  printed : t.printed.toList.drop q = (s.printed.toList.drop p).map ρ.value
  enough : p ≤ s.printed.size ∧ q ≤ t.printed.size

namespace Store

variable {ρ : Renumbering} {p q : Nat} {s t : Store}

namespace Mirrors

/-! ### Looking up -/

theorem outer? (h : s.Mirrors ρ p q t) (f : FrameId) :
    t.outer? (ρ.frame f) = (s.outer? f).map ρ.frame := by
  rw [Store.outer?, Store.outer?, h.frame f]
  cases s.frames[f]? <;> rfl

theorem bindings (h : s.Mirrors ρ p q t) (f : FrameId) :
    t.bindings (ρ.frame f) = ρ.bindings (s.bindings f) := by
  rw [Store.bindings, Store.bindings, h.frame f]
  cases s.frames[f]? <;> rfl

theorem chain (h : s.Mirrors ρ p q t) (f : FrameId) :
    t.chain (ρ.frame f) = (s.chain f).map ρ.frame := by
  induction f using Nat.strongRecOn with
  | ind f ih =>
      have houter := h.outer? f
      cases hf : s.outer? f with
      | none =>
          rw [hf] at houter
          rw [chain_of_none houter, chain_of_none hf]
          rfl
      | some o =>
          rw [hf] at houter
          rw [chain_of_some houter, chain_of_some hf]
          by_cases ho : o < f
          · rw [if_pos ho, if_pos (ρ.frame_strictMono ho), ih o ho]
            rfl
          · rw [if_neg ho, if_neg (mt ρ.frame_strictMono.lt_iff_lt.mp ho)]
            rfl

theorem lookup? (h : s.Mirrors ρ p q t) (f : FrameId) (name : String) :
    t.lookup? (ρ.frame f) name = (s.lookup? f name).map ρ.value := by
  rw [Store.lookup?, Store.lookup?, h.chain f, List.findSome?_map, List.map_findSome?]
  congr 1
  funext g
  exact (congrArg (Bindings.get? name) (h.bindings g)).trans (ρ.get?_bindings name _)

/-! ### Changing -/

theorem define (h : s.Mirrors ρ p q t) (f : FrameId) (name : String) (v : Value) :
    (s.define f name v).Mirrors ρ p q (t.define (ρ.frame f) name (ρ.value v)) := by
  refine ⟨?_, ?_, h.nextSerial, h.printed, h.enough⟩
  · intro g
    rw [Store.define, Store.define, Array.getElem?_modify, Array.getElem?_modify, h.frame g]
    by_cases hfg : f = g
    · subst hfg
      rw [if_pos rfl, if_pos rfl]
      cases s.frames[f]? with
      | none => rfl
      | some frame =>
          have hset := ρ.set_bindings name v frame.bindings
          exact congrArg (fun bs => some (Frame.mk (frame.outer.map ρ.frame) bs)) hset
    · rw [if_neg hfg, if_neg (mt (ρ.frame_strictMono.injective ·) hfg)]
  · rw [size_define, size_define]
    exact h.nextFrame

theorem addFrame (h : s.Mirrors ρ p q t) (outer : FrameId) (bs : Bindings) :
    (s.addFrame outer bs).Mirrors ρ p q (t.addFrame (ρ.frame outer) (ρ.bindings bs)) := by
  have hnew : ρ.frame s.frames.size = t.frames.size := h.nextFrame 0
  refine ⟨?_, ?_, h.nextSerial, h.printed, h.enough⟩
  · intro g
    rw [Store.addFrame, Store.addFrame, Array.getElem?_push, Array.getElem?_push, h.frame g]
    by_cases hg : g = s.frames.size
    · subst hg
      rw [if_pos rfl, if_pos hnew]
      rfl
    · rw [if_neg hg, if_neg fun heq => hg (ρ.frame_strictMono.injective (heq.trans hnew.symm))]
  · intro k
    rw [size_addFrame, size_addFrame, Nat.add_assoc, Nat.add_assoc]
    exact h.nextFrame (1 + k)

theorem countSerial (h : s.Mirrors ρ p q t) :
    Store.Mirrors ρ p q { s with nextSerial := s.nextSerial + 1 }
      { t with nextSerial := t.nextSerial + 1 } := by
  refine ⟨h.frame, h.nextFrame, ?_, h.printed, h.enough⟩
  intro k
  rw [Nat.add_assoc, Nat.add_assoc]
  exact h.nextSerial (1 + k)

theorem record (h : s.Mirrors ρ p q t) (v : Value) :
    (s.record v).Mirrors ρ p q (t.record (ρ.value v)) := by
  obtain ⟨hp, hq⟩ := h.enough
  refine ⟨h.frame, h.nextFrame, h.nextSerial, ?_, ?_⟩
  · rw [Store.record, Store.record, Array.toList_push, Array.toList_push,
      List.drop_append_of_le_length hp, List.drop_append_of_le_length hq, h.printed,
      List.map_append]
    rfl
  · rw [Store.record, Store.record, Array.size_push, Array.size_push]
    exact ⟨Nat.le_succ_of_le hp, Nat.le_succ_of_le hq⟩

/-! ### Output -/

/-- What is printed from some point on is the same text. -/
theorem outputFrom (h : s.Mirrors ρ p q t) (j : Nat) :
    t.outputFrom (q + j) = s.outputFrom (p + j) := by
  rw [Store.outputFrom, Store.outputFrom, ← List.drop_drop, ← List.drop_drop, h.printed,
    ← List.map_drop, List.map_map]
  congr 1
  exact List.map_congr_left fun v _ => ρ.lineOf_value v

/-- As much was printed in both. -/
theorem exists_printed (h : s.Mirrors ρ p q t) :
    ∃ j, s.printed.size = p + j ∧ t.printed.size = q + j := by
  obtain ⟨hp, hq⟩ := h.enough
  have hlength := congrArg List.length h.printed
  rw [List.length_map, List.length_drop, List.length_drop, Array.length_toList,
    Array.length_toList] at hlength
  exact ⟨s.printed.size - p, by omega, by omega⟩

end Mirrors

end Store

/-! ## Evaluations -/

theorem Store.Mirrors.without {ρ : Renumbering} {p q : Nat} {s t : Store}
    (h : s.Mirrors ρ p q t) (hidden : List String) :
    (s.without hidden).Mirrors ρ p q (t.without hidden) := by
  refine ⟨?_, ?_, h.nextSerial, h.printed, h.enough⟩
  · intro f
    rw [frame_without, frame_without, h.frame f]
    cases s.frames[f]? with
    | none => rfl
    | some frame =>
        have hbindings := (ρ.bindings_without hidden frame.bindings).symm
        exact congrArg (fun bs => some (Frame.mk (frame.outer.map ρ.frame) bs)) hbindings
  · rw [size_without, size_without]
    exact h.nextFrame

/-- Two stores of which one mirrors the other if hidden names are left out, and whose closures
    do not ask for these. -/
structure Store.MirrorsWithout (hidden : List String) (ρ : Renumbering) (p q : Nat)
    (s t : Store) : Prop where
  mirrors : (s.without hidden).Mirrors ρ p q (t.without hidden)
  inert : s.Holds (Value.IsInert hidden)

namespace Store.MirrorsWithout

variable {hidden : List String} {ρ : Renumbering} {p q : Nat} {s t : Store}

theorem nextFrame (h : s.MirrorsWithout hidden ρ p q t) : t.frames.size = ρ.frame s.frames.size := by
  have hnext := h.mirrors.nextFrame 0
  rw [size_without, size_without] at hnext
  exact hnext.symm

theorem nextSerial (h : s.MirrorsWithout hidden ρ p q t) : ρ.serial s.nextSerial = t.nextSerial :=
  h.mirrors.nextSerial 0

theorem lookup? (h : s.MirrorsWithout hidden ρ p q t) (f : FrameId) {name : String}
    (hname : name ∉ hidden) : t.lookup? (ρ.frame f) name = (s.lookup? f name).map ρ.value := by
  rw [← lookup?_without hname, ← lookup?_without hname f]
  exact h.mirrors.lookup? f name

theorem define (h : s.MirrorsWithout hidden ρ p q t) (f : FrameId) (name : String) {v : Value}
    (hv : v.Throughout (Value.IsInert hidden)) :
    (s.define f name v).MirrorsWithout hidden ρ p q (t.define (ρ.frame f) name (ρ.value v)) := by
  refine ⟨?_, h.inert.define hv (fun _ hw => hw) name⟩
  rw [without_define, without_define]
  split
  · exact h.mirrors
  · exact h.mirrors.define f name v

theorem addFrame (h : s.MirrorsWithout hidden ρ p q t) (outer : FrameId) {bs : Bindings}
    (hbs : ∀ entry ∈ bs, entry.2.Throughout (Value.IsInert hidden)) :
    (s.addFrame outer bs).MirrorsWithout hidden ρ p q
      (t.addFrame (ρ.frame outer) (ρ.bindings bs)) := by
  refine ⟨?_, h.inert.addFrame hbs fun _ hw => hw⟩
  rw [without_addFrame, without_addFrame, ← ρ.bindings_without]
  exact h.mirrors.addFrame outer _

end Store.MirrorsWithout

/-- Other numbers leave all symbols as they are. -/
def NumberChange.respelling (ρ : NumberChange) : Respelling where
  value := ρ.value
  name := id
  respelt v := by
    cases v with
    | sym x => exact .sym x
    | list i items =>
        rw [ρ.value_list]
        exact .list i _ items
    | _ => exact .other nofun nofun nofun nofun
  name_injective := Function.injective_id
  special _ := rfl

namespace Mirroring

variable (ρ : Renumbering) (p q : Nat) (hidden : List String)

/-- Other numbers for values that ask for no hidden name. -/
def guise : Disguise where
  value := ρ.value
  serial := ρ.serial
  Fits v := v.Throughout (Value.IsInert hidden)
  looks := ρ.looks
  serial_injective := ρ.serial_injective
  value_injective _ _ h := ρ.value_injective h
  fits_atom h := .atom h (h.isInert hidden)
  fits_list := ⟨fun h => h.items, fun h => .list trivial h⟩

/-- What is alike: stores that mirror each other without hidden names, and forms with other
    numbers that do not ask for these. -/
def likeness : Likeness where
  guise _ := guise ρ hidden
  Stores s t := s.MirrorsWithout hidden ρ p q t
  Takes _ e form e' form' := e' = ρ.frame e ∧ form' = ρ.value form ∧ form.Bypasses hidden
  Binds _ e name e' name' := e' = ρ.frame e ∧ name' = name
  Fails fault fault' := fault' = fault

variable {ρ p q hidden} {s t : Store} {e : FrameId}

/-- The bindings of a `let*` may start with a hidden name. -/
theorem pairs {j : Option Serial} {bindings : List Value} (heven : bindings.length % 2 = 0)
    (h : Value.Bypasses hidden (.list j bindings)) :
    (likeness ρ p q hidden).Pairs s e (ρ.frame e) bindings (bindings.map ρ.value) := by
  have hpairs : ∀ {bindings : List Value}, bindings.length % 2 = 0 →
      (∀ v ∈ bindings, v.Bypasses hidden) →
      (likeness ρ p q hidden).Pairs s e (ρ.frame e) bindings (bindings.map ρ.value) :=
    fun heven hitems => Likeness.pairs_of_forall (M := ρ.respelling) heven
      (fun form hmem => ⟨rfl, rfl, hitems form hmem⟩) fun _ _ => ⟨rfl, rfl⟩
  cases h with
  | atom hatom => exact hatom.elim
  | list hitems => exact hpairs heven hitems
  | @special _ kind args hargs =>
      cases args with
      | nil => exact absurd heven (by simp)
      | cons form rest =>
          obtain ⟨hform, hrest⟩ := List.forall_mem_cons.mp hargs
          exact .cons ⟨rfl, rfl, hform⟩ ⟨rfl, rfl⟩ (hpairs (Eval.even_of_pair heven) hrest)

/-- Forms that do not ask for hidden names are evaluated beside those with other numbers. -/
theorem reads (h : s.MirrorsWithout hidden ρ p q t) (e : FrameId) :
    (likeness ρ p q hidden).Reads ρ.respelling s t e (ρ.frame e) (·.Bypasses hidden) where
  takes hform := ⟨rfl, rfl, hform⟩
  nil := ⟨rfl, rfl, .nil⟩
  binds _ := ⟨rfl, rfl⟩
  self hform _ := ⟨hform.throughout_isInert, rfl⟩
  found hname hv := by
    have hlookup := h.lookup? e hname.not_mem
    rw [hv] at hlookup
    exact ⟨_, hlookup, h.inert.of_lookup? hv, rfl⟩
  unbound hname hnone := by
    have hlookup := h.lookup? e hname.not_mem
    rw [hnone] at hlookup
    exact ⟨hlookup, rfl⟩
  refused cause := by
    cases cause with
    | malformed kind defect => cases defect <;> rfl
    | _ => rfl
  head hform hhead := hform.items hhead _ List.mem_cons_self
  args hform := hform.args
  opened {i j bindings body} hform heven := by
    have hargs := hform.args
    refine ⟨h.addFrame e (List.forall_mem_nil _), ?_, h.nextFrame, rfl, hargs body (by simp)⟩
    rw [h.nextFrame]
    exact pairs heven (hargs (.list j bindings) (by simp))
  made {i j names body} hform := by
    have hbody := hform.args body (by simp)
    refine ⟨.closure hbody hbody.throughout_isInert, ?_⟩
    show Value.closure _ (names.map id) _ _ = .closure (ρ.serial s.nextSerial) names _ _
    rw [h.nextSerial, List.map_id]
    rfl

end Mirroring

open Mirroring in
/-- **Evaluation sees neither numbers nor hidden names.** -/
def mirroring (ρ : Renumbering) (p q : Nat) (hidden : List String) : Correspondence where
  toLikeness := likeness ρ p q hidden
  fails_refl _ := rfl
  guise_mono _ h := ⟨h, rfl⟩
  takes_mono _ h := h
  binds_mono _ h := h
  twin := by
    rintro s t e form _ _ h ⟨rfl, rfl, hform⟩
    exact (Mirroring.reads h e).twin hform
  defined := by
    rintro s t e name _ _ v _ h ⟨rfl, rfl⟩ ⟨hv, rfl⟩
    exact h.define e _ hv
  counted h := ⟨h.nextSerial, h.mirrors.countSerial, h.inert⟩
  recorded := by
    rintro s t v _ h ⟨-, rfl⟩
    exact ⟨h.mirrors.record v, h.inert⟩
  entered := by
    rintro s t i params body home i' params' body' home' vs _ h ⟨hfn, heq⟩ ⟨hvs, rfl⟩
    obtain ⟨-, rfl, rfl, rfl⟩ := Value.closure.inj heq
    refine ⟨rfl, fun _ => ⟨?_, h.nextFrame, rfl, hfn.self⟩⟩
    have hbound : ∀ entry ∈ Bindings.ofList (params'.zip vs),
        entry.2.Throughout (Value.IsInert hidden) := Bindings.forall_ofList_zip hvs
    have hentered := Store.MirrorsWithout.addFrame h home hbound
    rw [← ρ.ofList_zip] at hentered
    exact hentered

/-! ## Sessions -/

namespace Mirroring

variable {ρ : Renumbering} {p q : Nat} {hidden : List String} (limits : Limits)

/-- What was read and is evaluated in the root frame has no numbers in it. -/
theorem admits_bypass : (mirroring ρ p q hidden).Admits limits (Token.Bypass hidden) := by
  intro s t tokens form rest _ htokens hread
  obtain ⟨hform, hrest⟩ := Value.bypasses_of_readForm htokens hread
  have hall := Value.ordinaryOr_readForm limits.depth tokens
  rw [hread] at hall
  exact ⟨⟨ρ.frame_root.symm, (ρ.value_of_isRead (hall form rfl)).symm, hform⟩, hrest⟩

end Mirroring

namespace Session

variable {hidden : List String} {ρ : Renumbering} {p q : Nat} (limits : Limits) {s t : Session}

/-- A text is answered alike on mirrored stores, which are mirrored again. -/
theorem answer_mirrors_without (h : s.store.MirrorsWithout hidden ρ p q t.store)
    {source : String} (hsource : Token.Bypass hidden (Token.lex source)) :
    (t.answer limits (.rep source)).1 = (s.answer limits (.rep source)).1 ∧
      (s.answer limits (.rep source)).2.store.MirrorsWithout hidden ρ p q
        (t.answer limits (.rep source)).2.store := by
  have hrun := Correspondence.matches_rep (Mirroring.admits_bypass limits) h hsource
  unfold Likeness.Matches at hrun
  simp only [answer, carryOut]
  generalize (Program.rep limits source).run s.store = o at hrun
  generalize (Program.rep limits source).run t.store = o' at hrun
  cases hrun with
  | ok _ h' heq => exact ⟨congrArg Reply.printed heq, h'⟩
  | error _ h' heq => exact ⟨congrArg Reply.failed heq, h'⟩

/-- **Texts that ask for no hidden name are answered alike** on stores that mirror each other up
    to hidden names, with the same output. -/
theorem answerAll_mirrors_without (h : s.store.MirrorsWithout hidden ρ p q t.store)
    {sources : List String} (hsources : ∀ source ∈ sources, Token.Bypass hidden (Token.lex source)) :
    (t.answerAll limits (sources.map .rep)).1 = (s.answerAll limits (sources.map .rep)).1 ∧
      (s.answerAll limits (sources.map .rep)).2.store.MirrorsWithout hidden ρ p q
        (t.answerAll limits (sources.map .rep)).2.store := by
  induction sources generalizing s t with
  | nil => exact ⟨rfl, h⟩
  | cons source rest ih =>
      obtain ⟨hsource, hrest⟩ := List.forall_mem_cons.mp hsources
      obtain ⟨hreply, hafter⟩ := answer_mirrors_without limits h hsource
      obtain ⟨hreplies, hlast⟩ := ih hafter hrest
      obtain ⟨j, hs, ht⟩ := h.mirrors.exists_printed
      have houtput : outputBetween t (t.answer limits (.rep source)).2 =
          outputBetween s (s.answer limits (.rep source)).2 := by
        rw [outputBetween, outputBetween, show s.store.printed.size = p + j from hs,
          show t.store.printed.size = q + j from ht]
        exact hafter.mirrors.outputFrom j
      refine ⟨?_, hlast⟩
      simp only [List.map_cons, answerAll, hreply, houtput, hreplies]

/-- **Texts are answered alike on mirrored stores**, with the same output. -/
theorem answerAll_mirrors (h : s.store.Mirrors ρ p q t.store) (sources : List String) :
    (t.answerAll limits (sources.map .rep)).1 = (s.answerAll limits (sources.map .rep)).1 := by
  have hnothing : s.store.MirrorsWithout [] ρ p q t.store :=
    ⟨h.without [], s.store.holds_isInert_nil⟩
  have hsources : ∀ source ∈ sources, Token.Bypass [] (Token.lex source) :=
    fun _ _ => Token.bypass_of_forall fun _ _ => List.forall_mem_nil _
  exact (answerAll_mirrors_without limits hnothing hsources).1

end Session

end TailLisp
