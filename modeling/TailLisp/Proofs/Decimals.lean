import TailLisp.Proofs.Lexing

/-! # Decimals — integers written and read

    An integer is written as a word of which `split?` recovers sign and digits, and
    the digits its size.  A size has at most `maxDigits` digits exactly if it is below
    `bound`, so what may be written is what may be read. -/

namespace TailLisp.Decimal

/-! ## Digits -/

theorem isDigits_iff {cs : List Char} :
    split?.isDigits cs = true ↔ cs ≠ [] ∧ ∀ c ∈ cs, c.isDigit = true := by
  simp [split?.isDigits]

theorem isDigits_ofNat (n : Nat) : split?.isDigits (ofNat n) = true := by
  refine isDigits_iff.mpr ⟨Nat.toDigits_ne_nil, ?_⟩
  intro c hc
  exact Nat.isDigit_of_mem_toDigits (by decide) (by decide) hc

theorem ne_minus_of_isDigit {c : Char} (h : c.isDigit = true) : c ≠ '-' := by
  rintro rfl
  exact absurd h (by decide)

theorem split?_minus (digits : List Char) :
    split? ('-' :: digits) = if split?.isDigits digits then some (true, digits) else none := by
  rw [split?]

/-- A text of digits only is a number without a sign. -/
theorem split?_of_isDigits {cs : List Char} (h : split?.isDigits cs = true) :
    split? cs = some (false, cs) := by
  unfold split?
  split
  -- A minus sign is no digit.
  · obtain ⟨-, hdigits⟩ := isDigits_iff.mp h
    exact absurd rfl (ne_minus_of_isDigit (hdigits '-' List.mem_cons_self))
  · exact if_pos h

/-- Only an optional minus sign in front of digits is a number. -/
theorem split?_eq_none_iff {cs : List Char} :
    split? cs = none ↔ ¬ ∃ digits, digits ≠ [] ∧ (∀ c ∈ digits, c.isDigit = true) ∧
      (cs = digits ∨ cs = '-' :: digits) := by
  constructor
  · rintro hnone ⟨digits, hne, hdigits, rfl | rfl⟩
    · rw [split?_of_isDigits (isDigits_iff.mpr ⟨hne, hdigits⟩)] at hnone
      exact nomatch hnone
    · rw [split?_minus, if_pos (isDigits_iff.mpr ⟨hne, hdigits⟩)] at hnone
      exact nomatch hnone
  · intro hnumber
    unfold split?
    split
    case h_1 digits =>
      refine if_neg fun h => hnumber ?_
      obtain ⟨hne, hdigits⟩ := isDigits_iff.mp h
      exact ⟨digits, hne, hdigits, .inr rfl⟩
    case h_2 =>
      refine if_neg fun h => hnumber ?_
      obtain ⟨hne, hdigits⟩ := isDigits_iff.mp h
      exact ⟨cs, hne, hdigits, .inl rfl⟩

/-! ## Written integers -/

/-- Sign and digits of a written integer. -/
theorem split?_ofInt (n : Int) : split? (ofInt n) = some (decide (n < 0), ofNat n.natAbs) := by
  rw [ofInt]
  by_cases hn : n < 0
  · rw [if_pos hn, split?_minus, if_pos (isDigits_ofNat _), decide_eq_true hn]
  · rw [if_neg hn, split?_of_isDigits (isDigits_ofNat _), decide_eq_false hn]

theorem toInt_ofNat (n : Int) : toInt (decide (n < 0)) (ofNat n.natAbs) = n := by
  rw [toInt]
  rw [ofNat, Nat.ofDigitChars_ten_toDigits]
  by_cases hn : n < 0
  · rw [decide_eq_true hn]
    show -(n.natAbs : Int) = n
    omega
  · rw [decide_eq_false hn]
    show (n.natAbs : Int) = n
    omega

theorem length_ofNat_le_iff {k b : Nat} (hk : 0 < k) (hb : b = Nat.pow 10 k) (n : Nat) :
    (ofNat n).length ≤ k ↔ n < b := by
  subst hb
  exact Nat.length_toDigits_le_iff (by decide) hk

/-- An integer may be written if it may be read. -/
theorem isWritable_iff (n : Int) :
    isWritable n = true ↔ (ofNat n.natAbs).length ≤ maxDigits := by
  have hpos : 0 < maxDigits := by
    rw [maxDigits]
    exact Nat.succ_pos _
  have hbound : bound = Nat.pow 10 maxDigits := by
    unfold bound
    rfl
  exact decide_eq_true_iff.trans (length_ofNat_le_iff hpos hbound n.natAbs).symm

end TailLisp.Decimal

namespace TailLisp.Token

open Decimal

theorem isSymbolChar_of_isDigit {c : Char} (h : c.isDigit = true) : isSymbolChar c = true := by
  have hrange : 48 ≤ c.toNat ∧ c.toNat ≤ 57 := by
    rw [Char.isDigit, Bool.and_eq_true, decide_eq_true_iff, decide_eq_true_iff] at h
    exact h
  have hne : ∀ d : Char, ¬ (48 ≤ d.toNat ∧ d.toNat ≤ 57) → c ≠ d := by
    rintro d hd rfl
    exact hd hrange
  have hblank : Text.isBlank c = false := by
    simp only [Text.isBlank, Bool.or_eq_false_iff, Bool.and_eq_false_iff, decide_eq_false_iff_not,
      beq_eq_false_iff_ne]
    omega
  refine isSymbolChar_iff.mpr ⟨?_, hne '(' (by decide), hne ')' (by decide), hne ';' (by decide),
    hne '"' (by decide)⟩
  rw [isSeparator, hblank, Bool.false_or, beq_eq_false_iff_ne]
  exact hne ',' (by decide)

/-- A written integer is a word. -/
theorem isWord_ofInt (n : Int) : IsWord (ofInt n) := by
  have hdigits : ∀ c ∈ ofNat n.natAbs, isSymbolChar c = true := by
    intro c hc
    exact isSymbolChar_of_isDigit ((isDigits_iff.mp (isDigits_ofNat n.natAbs)).2 c hc)
  rw [ofInt]
  by_cases hn : n < 0
  · rw [if_pos hn]
    exact ⟨List.cons_ne_nil _ _, List.forall_mem_cons.mpr ⟨by decide, hdigits⟩⟩
  · rw [if_neg hn]
    exact ⟨Nat.toDigits_ne_nil, hdigits⟩

/-- A written integer is read as itself. -/
theorem readWord_ofInt {n : Int} (h : isWritable n = true) :
    readWord (String.ofList (ofInt n)) = .ok (.int n) := by
  have hsplit := split?_ofInt n
  have hne : ∀ word : String, split? word.toList = none → String.ofList (ofInt n) ≠ word := by
    rintro word hnone rfl
    rw [String.toList_ofList, hsplit] at hnone
    exact nomatch hnone
  rw [readWord]
  rw [if_neg (hne "nil" (by decide)), if_neg (hne "true" (by decide)),
    if_neg (hne "false" (by decide)), String.toList_ofList, hsplit]
  simp only [if_pos ((isWritable_iff n).mp h), toInt_ofNat]

end TailLisp.Token
