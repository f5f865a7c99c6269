import Mathlib.Data.List.Basic
import TailLisp.Store

/-! # Chains — where a name is sought

    A name is sought in a frame first and then in the frame around it.  So what it stands for is
    said by the bindings of the frame and by what it stands for outside; and a frame that is
    added, or a name that is defined in a younger frame, makes no difference to older frames. -/

namespace TailLisp.Store

variable {s s' : Store} {f : FrameId}

/-! ## Chains -/

theorem mem_chain_self (s : Store) (f : FrameId) : f ∈ s.chain f := by
  rw [chain]
  split
  · split <;> exact List.mem_cons_self
  · exact List.mem_cons_self

theorem chain_of_none (h : s.outer? f = none) : s.chain f = [f] := by
  rw [chain, h]

theorem chain_of_some {o : FrameId} (h : s.outer? f = some o) :
    s.chain f = if o < f then f :: s.chain o else [f] := by
  rw [chain, h]

/-- A chain depends only on the links of the frame and of older ones. -/
theorem chain_congr (h : ∀ g ≤ f, s'.outer? g = s.outer? g) : s'.chain f = s.chain f := by
  induction f using Nat.strongRecOn with
  | ind f ih =>
      rw [chain, chain, h f (Nat.le_refl _)]
      split
      · split
        case isTrue o _ ho =>
          have hlinks : ∀ g ≤ o, s'.outer? g = s.outer? g := fun g hg =>
            h g (Nat.le_trans hg (Nat.le_of_lt ho))
          rw [ih o ho hlinks]
        case isFalse => rfl
      · rfl

/-- A chain leads to no younger frames. -/
theorem le_of_mem_chain {g : FrameId} (h : g ∈ s.chain f) : g ≤ f := by
  induction f using Nat.strongRecOn with
  | ind f ih =>
      rw [chain] at h
      split at h
      · split at h
        case isTrue o _ ho =>
          rcases List.mem_cons.mp h with rfl | hrest
          · exact Nat.le_refl _
          · exact Nat.le_trans (ih o ho hrest) (Nat.le_of_lt ho)
        case isFalse => exact Nat.le_of_eq (List.mem_singleton.mp h)
      · exact Nat.le_of_eq (List.mem_singleton.mp h)

/-- The chain of a frame goes on as that of the frame around it. -/
theorem mem_chain_of_some {o g : FrameId} (houter : s.outer? f = some o) (ho : o < f)
    (h : g ∈ s.chain o) : g ∈ s.chain f := by
  rw [chain_of_some houter, if_pos ho]
  exact List.mem_cons_of_mem f h

/-- What a chain leads to leads on. -/
theorem mem_chain_trans {g k : FrameId} (hk : k ∈ s.chain g) (hg : g ∈ s.chain f) :
    k ∈ s.chain f := by
  induction f using Nat.strongRecOn with
  | ind f ih =>
      cases houter : s.outer? f with
      | none =>
          rw [chain_of_none houter, List.mem_singleton] at hg
          exact hg ▸ hk
      | some o =>
          rw [chain_of_some houter] at hg
          split at hg
          case isTrue ho =>
            rcases List.mem_cons.mp hg with rfl | hrest
            · exact hk
            · exact mem_chain_of_some houter ho (ih o ho hrest)
          case isFalse => exact List.mem_singleton.mp hg ▸ hk

/-! ## Frames that are added -/

/-- A frame that does not exist has none around it. -/
theorem outer?_of_size_le (s : Store) (h : s.frames.size ≤ f) : s.outer? f = none := by
  rw [outer?, Array.getElem?_eq_none h]
  rfl

theorem lt_size_of_outer? (s : Store) {o : FrameId} (h : s.outer? f = some o) :
    f < s.frames.size := by
  by_contra hf
  rw [s.outer?_of_size_le (Nat.not_lt.mp hf)] at h
  cases h

theorem outer?_addFrame (s : Store) (o f : FrameId) (bs : Bindings) :
    (s.addFrame o bs).outer? f = if f = s.frames.size then some o else s.outer? f := by
  rw [outer?, addFrame, Array.getElem?_push]
  split <;> rfl

theorem bindings_addFrame (s : Store) (o f : FrameId) (bs : Bindings) :
    (s.addFrame o bs).bindings f = if f = s.frames.size then bs else s.bindings f := by
  rw [bindings, addFrame, Array.getElem?_push]
  split <;> rfl

/-! ## Names along a chain -/

/-- A name is sought in a frame first. -/
theorem lookup?_of_some {o : FrameId} (houter : s.outer? f = some o) (ho : o < f)
    (name : String) : s.lookup? f name = ((s.bindings f).get? name).or (s.lookup? o name) := by
  rw [lookup?, chain_of_some houter, if_pos ho, List.findSome?_cons]
  cases (s.bindings f).get? name <;> rfl

theorem lookup?_of_chain {name : String} (hchain : s.chain f = [f]) :
    s.lookup? f name = (s.bindings f).get? name := by
  rw [lookup?, hchain]
  simp only [List.findSome?_cons, List.findSome?_nil]
  cases (s.bindings f).get? name <;> rfl

/-- A name has its value in the frame in which it is found. -/
theorem lookup?_eq_find?_bind (s : Store) (f : FrameId) (name : String) :
    s.lookup? f name = (s.find? f name).bind fun g => (s.bindings g).get? name := by
  rw [lookup?, find?]
  induction s.chain f with
  | nil => rfl
  | cons g rest ih =>
      rw [List.findSome?_cons, List.find?_cons, binds]
      cases hg : (s.bindings g).get? name with
      | some v => exact hg.symm
      | none => exact ih

/-- The root frame is sought last, whatever link it has. -/
theorem lookup?_root (s : Store) (name : String) :
    s.lookup? root name = (s.bindings root).get? name := by
  refine lookup?_of_chain ?_
  rw [chain]
  split
  · exact if_neg (Nat.not_lt_zero _)
  · rfl

/-- What a name stands for depends only on the frame and on older ones. -/
theorem lookup?_congr (houter : ∀ g ≤ f, s'.outer? g = s.outer? g)
    (hbindings : ∀ g ≤ f, s'.bindings g = s.bindings g) (name : String) :
    s'.lookup? f name = s.lookup? f name := by
  have hsame : ∀ g ∈ s.chain f, (s'.bindings g).get? name = (s.bindings g).get? name := by
    intro g hg
    rw [hbindings g (le_of_mem_chain hg)]
  rw [lookup?, lookup?, chain_congr houter, ← List.head?_filterMap, ← List.head?_filterMap,
    List.filterMap_congr hsame]

theorem lookup?_addFrame_of_lt (hf : f < s.frames.size) (o : FrameId) (bindings : Bindings)
    (name : String) : (s.addFrame o bindings).lookup? f name = s.lookup? f name :=
  lookup?_congr (fun _ hg => s.outer?_addFrame_of_lt (Nat.lt_of_le_of_lt hg hf) o bindings)
    (fun _ hg => s.bindings_addFrame_of_lt (Nat.lt_of_le_of_lt hg hf) o bindings) name

/-- From an added frame its own bindings are seen, and what is seen from the frame around it. -/
theorem lookup?_addFrame_self {o : FrameId} (ho : o < s.frames.size) (bindings : Bindings)
    (name : String) : (s.addFrame o bindings).lookup? s.frames.size name =
      (bindings.get? name).or (s.lookup? o name) := by
  rw [lookup?_of_some (s.outer?_addFrame_self o bindings) ho, bindings_addFrame_self,
    lookup?_addFrame_of_lt ho]

/-- A frame sees the names that are defined in it. -/
theorem lookup?_define_self {o : FrameId} (hf : f < s.frames.size) (houter : s.outer? f = some o)
    (ho : o < f) (name other : String) (v : Value) : (s.define f name v).lookup? f other =
      if name = other then some v else s.lookup? f other := by
  have houter' : (s.define f name v).outer? f = some o := (s.outer?_define f f name v).trans houter
  have hrest : (s.define f name v).lookup? o other = s.lookup? o other :=
    lookup?_congr (fun g _ => s.outer?_define f g name v)
      (fun g hg => s.bindings_define_of_ne (Nat.ne_of_gt (Nat.lt_of_le_of_lt hg ho)) name v) other
  rw [lookup?_of_some houter' ho, lookup?_of_some houter ho, bindings_define_self s hf,
    Bindings.get?_set, hrest]
  by_cases h : name = other
  · rw [if_pos h, if_pos h]
    rfl
  · rw [if_neg h, if_neg h]

end TailLisp.Store
