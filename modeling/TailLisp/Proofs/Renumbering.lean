import Mathlib.Order.Monotone.Basic
import TailLisp.Proofs.Disguise
import TailLisp.Proofs.Trampoline

/-! # Renumbering — values with other numbers for frames and serials

    A closure carries the number of its home frame, and closures and built lists carry
    serial numbers.  Nothing that a program can see depends on which numbers these are:
    texts, truth, equality and what builtins compute stay the same when all numbers are
    exchanged for others, as long as different ones stay different.

    * **`NumberChange`** — other numbers, with the values, bindings and frames that have them.
    * **`NumberChange.eq_of_value_eq`** — different values stay different, if the homes of their
      closures do.
    * **`Renumbering`** — other numbers for everything in a store.  Frames keep their order as well,
      because a chain only leads to older ones. -/

namespace TailLisp

/-- Other numbers for frames and serials. -/
structure NumberChange where
  frame : FrameId → FrameId
  serial : Serial → Serial
  serial_injective : Function.Injective serial

/-- A closure with a home that has a property, or any other value. -/
def Value.HasHome (P : FrameId → Prop) : Value → Prop
  | .closure _ _ _ home => P home
  | _ => True

theorem Value.hasHome_of_isAtom {P : FrameId → Prop} {v : Value} (h : v.IsAtom) :
    v.HasHome P := by
  cases v with
  | closure => exact h.elim
  | _ => trivial

namespace NumberChange

variable (ρ : NumberChange)

mutual

/-- A value with other numbers. -/
def value : Value → Value
  | .list serial items => .list (serial.map ρ.serial) (values items)
  | .closure serial params body home =>
    .closure (ρ.serial serial) params (value body) (ρ.frame home)
  | v => v

/-- Values with other numbers. -/
def values : List Value → List Value
  | [] => []
  | v :: rest => value v :: values rest

end

@[simp] theorem values_eq_map (vs : List Value) : ρ.values vs = vs.map ρ.value := by
  induction vs with
  | nil => rfl
  | cons v rest ih => rw [values, ih, List.map_cons]

theorem value_list (serial : Option Serial) (items : List Value) :
    ρ.value (.list serial items) = .list (serial.map ρ.serial) (items.map ρ.value) := by
  rw [value, values_eq_map]

/-! ## Numbers that stay -/

/-- A value whose own numbers stay as they are. -/
def Keeps : Value → Prop
  | .list serial _ => serial.map ρ.serial = serial
  | .closure serial _ _ home => ρ.serial serial = serial ∧ ρ.frame home = home
  | _ => True

theorem value_eq_self {v : Value} (h : v.Throughout ρ.Keeps) : ρ.value v = v := by
  induction v using Value.induct with
  | list serial items ih =>
      have hitems := List.map_congr_left fun item hmem => ih item hmem (h.items item hmem)
      rw [value_list, hitems, List.map_id', h.self]
  | closure serial params body home ih =>
      obtain ⟨hserial, hhome⟩ := h.self
      rw [value, ih h.body, hserial, hhome]
  | _ => rfl

/-- What was read has no numbers in it. -/
theorem value_of_isRead {form : Value} (h : form.IsRead) : ρ.value form = form := by
  refine ρ.value_eq_self (h.throughout (fun v hv => ?_) fun _ => rfl)
  cases v with
  | list | closure => exact hv.elim
  | _ => trivial

variable {ρ} in
/-- Only the numbers in a value matter. -/
theorem value_congr {τ : NumberChange} (hserial : ρ.serial = τ.serial) {v : Value}
    (h : v.Throughout (Value.HasHome fun home => ρ.frame home = τ.frame home)) :
    ρ.value v = τ.value v := by
  induction v using Value.induct with
  | list serial items ih =>
      rw [value_list, value_list, hserial]
      congr 1
      exact List.map_congr_left fun item hmem => ih item hmem (h.items item hmem)
  | closure serial params body home ih =>
      have hhome : ρ.frame home = τ.frame home := h.self
      rw [value, value, ih h.body, hserial, hhome]
  | _ => rfl

/-! ## Different values stay different -/

/-- Values are told apart by their numbers, if the homes of their closures are. -/
theorem eq_of_value_eq {P : FrameId → Prop}
    (hP : ∀ f g, P f → P g → ρ.frame f = ρ.frame g → f = g) {v w : Value}
    (hv : v.Throughout (Value.HasHome P)) (hw : w.Throughout (Value.HasHome P))
    (heq : ρ.value v = ρ.value w) : v = w := by
  induction v using Value.induct generalizing w with
  | list serial items ih =>
      cases w with
      | list serial' items' =>
          rw [value_list, value_list] at heq
          obtain ⟨hserial, hitems⟩ := Value.list.inj heq
          rw [Option.map_injective ρ.serial_injective hserial]
          congr 1
          exact Value.eq_of_map_eq
            (fun x hx y hy => ih x hx (hv.items x hx) (hw.items y hy)) hitems
      | closure => exact nomatch heq
      | _ => exact nomatch heq
  | closure serial params body home ih =>
      cases w with
      | closure serial' params' body' home' =>
          obtain ⟨hserial, rfl, hbody, hhome⟩ := Value.closure.inj heq
          rw [ρ.serial_injective hserial, ih hv.body hw.body hbody,
            hP home home' hv.self hw.self hhome]
      | list => exact nomatch heq
      | _ => exact nomatch heq
  | _ =>
      cases w with
      | list => exact nomatch heq
      | closure => exact nomatch heq
      | _ => exact heq

/-! ## What shows of a value -/

theorem looks (v : Value) : v.Looks ρ.value ρ.serial (ρ.value v) := by
  cases v with
  | list i items =>
      rw [value_list]
      exact .list i items
  | closure i params body home => exact .closure i
  | _ => exact .atom trivial

@[simp] theorem text_value (style : TextStyle) (v : Value) :
    (ρ.value v).text style = v.text style :=
  Value.text_of_resembles (fun v => (ρ.looks v).resembles) style v

theorem lineOf_value (v : Value) : Store.lineOf (ρ.value v) = Store.lineOf v := by
  rw [Store.lineOf, Store.lineOf, ρ.text_value]

/-! ## Bindings and frames -/

/-- Bindings whose values have other numbers. -/
def bindings (bs : Bindings) : Bindings :=
  bs.map fun (name, v) => (name, ρ.value v)

/-- A frame with other numbers. -/
def scope (frame : Frame) : Frame :=
  ⟨frame.outer.map ρ.frame, ρ.bindings frame.bindings⟩

theorem bindings_eq_self {bs : Bindings} (h : ∀ entry ∈ bs, entry.2.Throughout ρ.Keeps) :
    ρ.bindings bs = bs := by
  have hentries : ∀ entry ∈ bs, (entry.1, ρ.value entry.2) = entry := by
    intro entry hentry
    rw [ρ.value_eq_self (h entry hentry)]
  exact (List.map_congr_left hentries).trans (List.map_id' bs)

theorem get?_bindings (name : String) (bs : Bindings) :
    (ρ.bindings bs).get? name = (bs.get? name).map ρ.value :=
  Bindings.get?_recast Function.injective_id name bs

theorem set_bindings (name : String) (v : Value) (bs : Bindings) :
    (ρ.bindings bs).set name (ρ.value v) = ρ.bindings (bs.set name v) :=
  Bindings.set_recast Function.injective_id name v bs

/-- The bindings of parameters. -/
theorem ofList_zip (params : List String) (vs : List Value) :
    Bindings.ofList (params.zip (vs.map ρ.value)) =
      ρ.bindings (Bindings.ofList (params.zip vs)) := by
  have hrecast : Bindings.ofList ((params.map id).zip (vs.map ρ.value)) =
      ρ.bindings (Bindings.ofList (params.zip vs)) :=
    Bindings.ofList_zip_recast Function.injective_id params vs
  rwa [List.map_id] at hrecast

end NumberChange

/-- Other numbers for all frames and serials, with the frames in the order in which they were. -/
structure Renumbering extends NumberChange where
  frame_strictMono : StrictMono frame
  frame_root : frame Store.root = Store.root

namespace Renumbering

variable (ρ : Renumbering)

theorem value_injective : Function.Injective ρ.value := by
  intro v w heq
  have hall : ∀ v : Value, v.Throughout (Value.HasHome fun _ => True) := by
    intro v w _
    cases w <;> trivial
  exact ρ.eq_of_value_eq (fun _ _ _ _ h => ρ.frame_strictMono.injective h) (hall v) (hall w) heq

end Renumbering

end TailLisp
