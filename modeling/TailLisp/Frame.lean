import TailLisp.Value

/-! # Frames — the bindings of one scope

    A frame lists its names in the order in which they were first defined.
    Defining a name anew keeps its place.  All but the root frame have an outer
    frame, in which a name that is not found here is sought. -/

namespace TailLisp

/-- Names with their values, the name defined first in front. -/
abbrev Bindings := List (String × Value)

namespace Bindings

/-- The value of a name. -/
def get? (name : String) : Bindings → Option Value
  | [] => none
  | (n, v) :: rest => if n = name then some v else get? name rest

/-- Gives a name a value, in its old place or at the end. -/
def set (name : String) (value : Value) : Bindings → Bindings
  | [] => [(name, value)]
  | (n, v) :: rest => if n = name then (name, value) :: rest else (n, v) :: set name value rest

/-- The bindings that come of defining names one after another. -/
def ofList (pairs : List (String × Value)) : Bindings :=
  pairs.foldl (fun bindings (name, value) => set name value bindings) []

@[simp] theorem get?_set (name other : String) (value : Value) (bindings : Bindings) :
    get? other (set name value bindings) =
      if name = other then some value else get? other bindings := by
  induction bindings with
  | nil => simp [set, get?]
  | cons entry rest ih =>
    obtain ⟨n, v⟩ := entry
    by_cases hn : n = name
    · subst hn
      by_cases ho : n = other <;> simp [set, get?, ho]
    · by_cases ho : n = other
      · subst ho
        simp [set, get?, hn, Ne.symm hn]
      · simp [set, get?, hn, ho, ih]

theorem mem_of_get? {name : String} {value : Value} {bindings : Bindings}
    (h : get? name bindings = some value) : (name, value) ∈ bindings := by
  fun_induction get? name bindings with
  | case1 => exact nomatch h
  | case2 rest v =>
    obtain rfl := Option.some.inj h
    exact List.mem_cons_self
  | case3 n v rest _ ih => exact List.mem_cons_of_mem _ (ih h)

theorem mem_set {name : String} {value : Value} {bindings : Bindings} {entry : String × Value}
    (h : entry ∈ set name value bindings) : entry = (name, value) ∨ entry ∈ bindings := by
  fun_induction set name value bindings with
  | case1 => exact .inl (List.mem_singleton.mp h)
  | case2 rest v =>
    rcases List.mem_cons.mp h with rfl | hrest
    · exact .inl rfl
    · exact .inr (List.mem_cons_of_mem _ hrest)
  | case3 n v rest _ ih =>
    rcases List.mem_cons.mp h with rfl | hrest
    · exact .inr List.mem_cons_self
    · exact (ih hrest).imp id (List.mem_cons_of_mem _)

theorem mem_foldl_set {pairs : List (String × Value)} {bindings : Bindings}
    {entry : String × Value}
    (h : entry ∈ pairs.foldl (fun bindings (name, value) => set name value bindings) bindings) :
    entry ∈ bindings ∨ entry ∈ pairs := by
  induction pairs generalizing bindings with
  | nil => exact .inl h
  | cons pair rest ih =>
    rcases ih h with hset | hrest
    · rcases mem_set hset with rfl | hold
      · exact .inr List.mem_cons_self
      · exact .inl hold
    · exact .inr (List.mem_cons_of_mem _ hrest)

/-- Names defined one after another have only values that they were given. -/
theorem mem_ofList {pairs : List (String × Value)} {entry : String × Value}
    (h : entry ∈ ofList pairs) : entry ∈ pairs := by
  rcases mem_foldl_set h with hnil | hpairs
  · exact nomatch hnil
  · exact hpairs

end Bindings

/-- A scope: its own bindings and the frame around it. -/
structure Frame where
  outer : Option FrameId
  bindings : Bindings

end TailLisp
