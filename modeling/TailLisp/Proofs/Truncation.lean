import TailLisp.Proofs.Chains
import TailLisp.Proofs.Contract
import TailLisp.Proofs.TailSteps

/-! # Truncation — the quotient among the other operators

    Division rounds toward zero.  What that comes to is said in the language itself: which integer
    times the divisor is taken from the dividend, what is left then, and how the quotients of other
    operands compare.  Integers have any size, since arithmetic knows no bound.

    * **`Value.Means`** — a form that is evaluated to an integer and changes nothing, wherever the
      builtins go by their names.
    * **`Value.Means.applied`** — a builtin between two such forms means what it gives for their
      integers.
    * **`eq_tdiv_of_remainder`** — the remainder determines the quotient, by cases on the sign of
      the dividend.
    * **`division_truncates`** — only the quotient leaves a remainder that is smaller than the
      divisor and on the side of the dividend; signs, multiples and order pass through it. -/

namespace TailLisp

/-! ## Quotients and remainders -/

section Quotients

variable {a b p : Int}

/-- What is left after rounding toward zero. -/
theorem remainder_of_tdiv (hb : b ≠ 0) (a : Int) :
    (a - a.tdiv b * b).natAbs < b.natAbs ∧
      (a - a.tdiv b * b = 0 ∨ (a - a.tdiv b * b).sign = a.sign) := by
  have hrest : a - a.tdiv b * b = a.tmod b := by rw [Int.tmod_def, Int.mul_comm]
  rw [hrest, Int.natAbs_tmod, Int.sign_tmod]
  refine ⟨Nat.mod_lt _ (Int.natAbs_pos.mpr hb), ?_⟩
  by_cases hdvd : b ∣ a
  · exact .inl (Int.tmod_eq_zero_of_dvd hdvd)
  · exact .inr (if_neg hdvd)

/-- Nothing else leaves so little on that side. -/
theorem eq_tdiv_of_remainder (hb : b ≠ 0) (hlt : (a - p * b).natAbs < b.natAbs)
    (hside : a - p * b = 0 ∨ (a - p * b).sign = a.sign) : p = a.tdiv b := by
  have hsum : a - p * b + b * p = a := by rw [Int.mul_comm b p, Int.sub_add_cancel]
  generalize a - p * b = r at hlt hside hsum
  rcases Int.le_total 0 a with ha | ha
  · have hr : 0 ≤ r := by
      rcases hside with rfl | hsign
      · exact Int.le_refl 0
      · exact Int.sign_nonneg_iff.mp (hsign ▸ Int.sign_nonneg_iff.mpr ha)
    exact ((Int.tdiv_tmod_unique ha hb).mpr ⟨hsum, hr, by omega⟩).1.symm
  · have hr : r ≤ 0 := by
      rcases hside with rfl | hsign
      · exact Int.le_refl 0
      · exact Int.sign_nonpos_iff.mp (hsign ▸ Int.sign_nonpos_iff.mpr ha)
    exact ((Int.tdiv_tmod_unique' ha hb).mpr ⟨hsum, by omega, hr⟩).1.symm

end Quotients

/-! ## Forms that mean integers -/

/-- In a frame, every builtin goes by its name. -/
def Store.NamesBuiltins (s : Store) (e : FrameId) : Prop :=
  ∀ b ∈ Builtin.table, s.lookup? e b.name = some (.builtin b)

theorem Store.namesBuiltins_initial : initial.NamesBuiltins root := by
  intro b hb
  rw [lookup?_root]
  revert b
  decide

/-- A builtin written in front of two forms. -/
def Builtin.applied (b : Builtin) (x y : Value) : Value :=
  .list none [.sym b.name, x, y]

namespace Value

/-- Where every builtin goes by its name, evaluating the form gives the integer, and leaves the
    store as it was. -/
def Means (form : Value) (n : Int) : Prop :=
  ∀ s e, s.NamesBuiltins e →
    Settles (fun limits => Eval.evaluate limits.fuel limits.depth form e) s (.ok (.int n) s)

theorem means_int (n : Int) : (int n).Means n :=
  fun _ _ _ => Evaluates.settles (.self trivial)

namespace Means

variable {x y form : Value} {m n k : Int}

theorem evaluates (h : form.Means n) {s : Store} {e : FrameId} (he : s.NamesBuiltins e) :
    Evaluates s e form (.ok (.int n) s) := by
  obtain ⟨hended, least, hrun⟩ := h s e he
  exact Eval.evaluate_sound least least form e s _
    (hrun ⟨least, least⟩ (Nat.le_refl least) (Nat.le_refl least)) hended

/-- A form means one integer at most, since there is a store in which it is evaluated. -/
theorem unique (h : form.Means m) (h' : form.Means n) : m = n := by
  have hsame := (h _ _ Store.namesBuiltins_initial).unique (h' _ _ Store.namesBuiltins_initial)
  cases hsame
  rfl

/-- A builtin between two forms means what it gives for their integers. -/
theorem applied {b : Builtin} (hb : b ∈ Builtin.table) (hx : x.Means m) (hy : y.Means n)
    (hgives : ∀ s, b.Gives s [.int m, .int n] (.int k) s) : (b.applied x y).Means k := by
  intro s e he
  have hargs : EvaluatesAll s e [x, y] (.ok [.int m, .int n] s) :=
    .cons (hx.evaluates he) (.cons (hy.evaluates he) .nil)
  have hwithin : ∀ room, ∀ v ∈ [int m, int n], v.IsWithin room := fun room =>
    List.forall_mem_cons.mpr ⟨.atom trivial trivial,
      List.forall_mem_singleton.mpr (.atom trivial trivial)⟩
  have hfn : Applies s (.builtin b) [.int m, .int n] (.ok (.int k) s) :=
    .builtin ⟨id, 0, fun limits _ _ => Builtin.run_of_gives (hgives s) (hwithin limits.depth)⟩
  exact Evaluates.settles (.apply b.sym_name_ne (.found (he b hb)) hargs hfn)

theorem sub (hx : x.Means m) (hy : y.Means n) : (Builtin.sub.applied x y).Means (m - n) :=
  applied (by decide) hx hy fun _ => .difference

theorem mul (hx : x.Means m) (hy : y.Means n) : (Builtin.mul.applied x y).Means (m * n) :=
  applied (by decide) hx hy fun _ => .product

theorem div (hx : x.Means m) (hy : y.Means n) (hn : n ≠ 0) :
    (Builtin.div.applied x y).Means (m.tdiv n) :=
  applied (by decide) hx hy fun _ => .quotient hn

end Means

end Value

/-! ## The quotient -/

open Builtin

/-- Taking `p` times the divisor from the dividend leaves less than the divisor, and either nothing
    or something with the sign of the dividend. -/
def LeavesRemainder (a b p : Int) : Prop :=
  ∃ r, (sub.applied (.int a) (mul.applied (.int p) (.int b))).Means r ∧
    r.natAbs < b.natAbs ∧ (r = 0 ∨ r.sign = a.sign)

theorem leavesRemainder_iff {a b p : Int} (hb : b ≠ 0) :
    LeavesRemainder a b p ↔ p = a.tdiv b := by
  have hmeans : (sub.applied (.int a) (mul.applied (.int p) (.int b))).Means (a - p * b) :=
    .sub (Value.means_int a) (.mul (Value.means_int p) (Value.means_int b))
  constructor
  · rintro ⟨r, hr, hlt, hside⟩
    obtain rfl := hr.unique hmeans
    exact eq_tdiv_of_remainder hb hlt hside
  · rintro rfl
    exact ⟨_, hmeans, remainder_of_tdiv hb a⟩

/-- **Division rounds toward zero and fits the other operators.**  Its value is the only one that
    leaves a remainder smaller than the divisor and on the side of the dividend; a minus of either
    operand becomes one of the quotient, a multiple is divided without rest, and a greater dividend
    does not have a smaller quotient by a positive divisor. -/
theorem division_truncates {b : Int} (hb : b ≠ 0) (a : Int) :
    ∃ q : Int, (div.applied (.int a) (.int b)).Means q ∧
      (∀ p, LeavesRemainder a b p ↔ p = q) ∧
      ((div.applied (sub.applied (.int 0) (.int a)) (.int b)).Means (-q) ∧
        (div.applied (.int a) (sub.applied (.int 0) (.int b))).Means (-q) ∧
        (sub.applied (.int 0) (.int q)).Means (-q)) ∧
      (∀ c, (div.applied (mul.applied (.int c) (.int b)) (.int b)).Means c) ∧
      (0 < b → ∀ a', a ≤ a' → ∃ q', (div.applied (.int a') (.int b)).Means q' ∧ q ≤ q') ∧
      q = (if a < 0 ↔ b < 0 then ((a.natAbs / b.natAbs : Nat) : Int)
        else -((a.natAbs / b.natAbs : Nat) : Int)) := by
  have hint := Value.means_int
  have hminus : ∀ n, (sub.applied (.int 0) (.int n)).Means (-n) := by
    intro n
    rw [← Int.zero_sub]
    exact (hint 0).sub (hint n)
  refine ⟨a.tdiv b, (hint a).div (hint b) hb, fun p => leavesRemainder_iff hb,
    ⟨?_, ?_, hminus _⟩, ?_, ?_, (quotient_eq_tdiv a b).symm⟩
  · rw [← Int.neg_tdiv]
    exact (hminus a).div (hint b) hb
  · rw [← Int.tdiv_neg]
    exact (hint a).div (hminus b) (Int.neg_ne_zero.mpr hb)
  · intro c
    have hmultiple := ((hint c).mul (hint b)).div (hint b) hb
    rwa [Int.mul_tdiv_cancel c hb] at hmultiple
  · intro hpos a' hle
    exact ⟨a'.tdiv b, (hint a').div (hint b) hb, Int.tdiv_le_tdiv hpos hle⟩

/-- Seven below zero halves to three below, and leaves one below. -/
theorem division_truncates_of_odd_dividend :
    (2 : Int) ≠ 0 ∧ (div.applied (.int (-7)) (.int 2)).Means (-3) ∧ LeavesRemainder (-7) 2 (-3) ∧
      ¬ LeavesRemainder (-7) 2 (-4) := by
  have htwo : (2 : Int) ≠ 0 := by decide
  obtain ⟨q, hq, hunique, -, -, -, hsigns⟩ := division_truncates htwo (-7)
  obtain rfl : q = -3 := hsigns
  refine ⟨htwo, hq, (hunique (-3)).mpr rfl, fun hother => ?_⟩
  exact absurd ((hunique (-4)).mp hother) (by decide)

end TailLisp
