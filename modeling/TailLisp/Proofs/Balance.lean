import TailLisp.Proofs.Descent

/-! # Balance — reading by descent against counting levels

    Which token sequences are read, and what is wrong with the others, is seen by going
    through the tokens once with nothing but the number of lists that are open.

    * The scan: `firstOffence?` finds the first token that is wrong at its depth, or a
      list that is still open at the end.
    * The forms: `Spells` says which tokens a list of forms is written with.  Tokens
      spell at most one list of forms, as what follows some items starts with a closing
      token or not at all.

    * **`readForms_scan`** — reading comes to the first offence, and without one to the
      forms that the tokens spell. -/

namespace TailLisp

/-! ## The scan -/

namespace Token

/-- A word without a minus sign in front. -/
def unsigned : List Char → List Char
  | '-' :: rest => rest
  | word => word

/-- An optional minus sign and more digits than are read. -/
def isOverlong (word : List Char) : Bool :=
  (unsigned word).all Char.isDigit && Decimal.maxDigits < (unsigned word).length

/-- What is wrong with a token where `depth` lists are open, if anything is. -/
def offence? (depth : Nat) (token : Token) : Option Fault :=
  match token.kind with
  | .opening => none
  | .closing => if depth = 0 then some (.unreadable .unexpectedClose) else none
  | .string =>
    match readString token.text with
    | .error fault => some fault
    | .ok _ => none
  | .symbol => if isOverlong token.text.toList then some .digitLimit else none
  | .other name => some (.unreadable (.unknownToken name token.text))

/-- How many lists are open behind a token. -/
def depthAfter (depth : Nat) (token : Token) : Nat :=
  match token.kind with
  | .opening => depth + 1
  | .closing => depth - 1
  | _ => depth

/-- The first thing that is wrong with some tokens, of which the last may be missing. -/
def firstOffence? (depth : Nat) : List Token → Option Fault
  | [] => if depth = 0 then none else some (.unreadable .unclosedList)
  | token :: rest =>
    match token.offence? depth with
    | some fault => some fault
    | none => firstOffence? (token.depthAfter depth) rest

/-- The most lists that are open at a time before anything is wrong. -/
def nesting (depth : Nat) : List Token → Nat
  | [] => depth
  | token :: rest =>
    match token.offence? depth with
    | some _ => depth
    | none => max depth (nesting (token.depthAfter depth) rest)

/-! ## Overlong words -/

theorem unsigned_of_isDigits {cs : List Char} (h : Decimal.split?.isDigits cs = true) :
    unsigned cs = cs := by
  unfold unsigned
  split
  · obtain ⟨-, hdigits⟩ := Decimal.isDigits_iff.mp h
    exact absurd rfl (Decimal.ne_minus_of_isDigit (hdigits '-' List.mem_cons_self))
  · rfl

/-- The digits of a number are all of it but the sign. -/
theorem unsigned_of_split? {cs digits : List Char} {negative : Bool}
    (h : Decimal.split? cs = some (negative, digits)) :
    unsigned cs = digits ∧ Decimal.split?.isDigits digits = true := by
  unfold Decimal.split? at h
  split at h
  case h_1 rest =>
    split at h
    case isTrue hdigits =>
      obtain ⟨-, rfl⟩ := Prod.mk.inj (Option.some.inj h)
      exact ⟨rfl, hdigits⟩
    case isFalse => exact nomatch h
  case h_2 =>
    split at h
    case isTrue hdigits =>
      obtain ⟨-, rfl⟩ := Prod.mk.inj (Option.some.inj h)
      exact ⟨unsigned_of_isDigits hdigits, hdigits⟩
    case isFalse => exact nomatch h

theorem isOverlong_of_split? {cs digits : List Char} {negative : Bool}
    (h : Decimal.split? cs = some (negative, digits)) :
    isOverlong cs = decide (Decimal.maxDigits < digits.length) := by
  obtain ⟨hunsigned, hdigits⟩ := unsigned_of_split? h
  have hall : digits.all Char.isDigit = true :=
    List.all_eq_true.mpr (Decimal.isDigits_iff.mp hdigits).2
  rw [isOverlong, hunsigned, hall, Bool.true_and]

/-- What is no number is no number that is too long. -/
theorem isOverlong_of_split?_eq_none {cs : List Char} (h : Decimal.split? cs = none) :
    isOverlong cs = false := by
  rw [Bool.eq_false_iff]
  intro hlong
  rw [isOverlong, Bool.and_eq_true, List.all_eq_true, decide_eq_true_iff] at hlong
  obtain ⟨hdigits, hlength⟩ := hlong
  refine Decimal.split?_eq_none_iff.mp h ⟨unsigned cs, ?_, hdigits, ?_⟩
  · intro hnil
    rw [hnil] at hlength
    exact absurd hlength (Nat.not_lt_zero _)
  · unfold unsigned
    split
    · exact .inr rfl
    · exact .inl rfl

/-- A word is refused exactly if it is too long a number. -/
theorem readWord_refuses (word : String) :
    match readWord word with
    | .ok _ => isOverlong word.toList = false
    | .error fault => fault = .digitLimit ∧ isOverlong word.toList = true := by
  rw [readWord]
  split_ifs with hnil htrue hfalse
  · subst hnil
    decide
  · subst htrue
    decide
  · subst hfalse
    decide
  · cases hnumber : Decimal.split? word.toList with
    | none => exact isOverlong_of_split?_eq_none hnumber
    | some number =>
        obtain ⟨negative, digits⟩ := number
        by_cases hdigits : digits.length ≤ Decimal.maxDigits
        · simp only [if_pos hdigits]
          rw [isOverlong_of_split? hnumber]
          exact decide_eq_false (Nat.not_lt.mpr hdigits)
        · simp only [if_neg hdigits]
          rw [isOverlong_of_split? hnumber]
          exact ⟨trivial, decide_eq_true (Nat.not_le.mp hdigits)⟩

/-! ## The scan, token by token -/

/-- What the scan makes of a token, by what the token does to the list being read. -/
theorem offence?_depthAfter (depth : Nat) (token : Token) :
    match token.role with
    | .error fault => token.offence? depth = some fault
    | .ok .opens => token.offence? depth = none ∧ token.depthAfter depth = depth + 1
    | .ok .closes => token.offence? 0 = some (.unreadable .unexpectedClose) ∧
        token.offence? (depth + 1) = none ∧ token.depthAfter (depth + 1) = depth
    | .ok (.atom _) => token.offence? depth = none ∧ token.depthAfter depth = depth := by
  obtain ⟨kind, text⟩ := token
  cases kind with
  | opening => exact ⟨rfl, rfl⟩
  | closing => exact ⟨rfl, rfl, rfl⟩
  | other name => exact rfl
  | string =>
      cases hread : readString text with
      | error fault => simp [role, offence?, hread, Except.map]
      | ok v => simp [role, offence?, depthAfter, hread, Except.map]
  | symbol =>
      have hrefuses := readWord_refuses text
      cases hread : readWord text with
      | error fault =>
          rw [hread] at hrefuses
          simp [role, offence?, hread, Except.map, hrefuses]
      | ok v =>
          rw [hread] at hrefuses
          simp [role, offence?, depthAfter, hread, Except.map, hrefuses]

section Scan

variable {depth : Nat} {token : Token} {rest : List Token}

theorem firstOffence?_of_some {fault : Fault} (h : token.offence? depth = some fault) :
    firstOffence? depth (token :: rest) = some fault := by
  simp only [firstOffence?, h]

theorem firstOffence?_of_none (h : token.offence? depth = none) :
    firstOffence? depth (token :: rest) = firstOffence? (token.depthAfter depth) rest := by
  simp only [firstOffence?, h]

theorem nesting_of_none (h : token.offence? depth = none) :
    nesting depth (token :: rest) = max depth (nesting (token.depthAfter depth) rest) := by
  simp only [nesting, h]

theorem le_nesting (depth : Nat) (tokens : List Token) : depth ≤ nesting depth tokens := by
  cases tokens with
  | nil => exact Nat.le_refl _
  | cons token rest =>
      cases h : token.offence? depth with
      | some fault => simp only [nesting, h, Nat.le_refl]
      | none => exact nesting_of_none h ▸ Nat.le_max_left _ _

theorem nesting_rest_le (h : token.offence? depth = none) :
    nesting (token.depthAfter depth) rest ≤ nesting depth (token :: rest) :=
  nesting_of_none h ▸ Nat.le_max_right _ _

end Scan

/-! ## The forms that tokens spell -/

/-- The token of an atom: a word or a string that is read as the value. -/
def SpellsAtom (token : Token) (v : Value) : Prop :=
  token.kind = .symbol ∧ readWord token.text = .ok v ∨
    token.kind = .string ∧ readString token.text = .ok v

/-- The tokens of some forms one after the other: one for each atom, and for a list its
    items between an opening and a closing token. -/
inductive Spells : List Value → List Token → Prop where
  | nil : Spells [] []
  | atom {token : Token} {v : Value} {vs : List Value} {tokens : List Token} :
      token.SpellsAtom v → Spells vs tokens → Spells (v :: vs) (token :: tokens)
  | list {opening closing : Token} {items vs : List Value} {inner tokens : List Token} :
      opening.kind = .opening → Spells items inner → closing.kind = .closing →
      Spells vs tokens →
      Spells (.list none items :: vs) (opening :: inner ++ closing :: tokens)

theorem role_eq_opens_iff {token : Token} : token.role = .ok .opens ↔ token.kind = .opening := by
  rw [role]
  cases token.kind with
  | symbol => cases readWord token.text <;> simp [Except.map]
  | string => cases readString token.text <;> simp [Except.map]
  | _ => simp

theorem role_eq_atom_iff {token : Token} {v : Value} :
    token.role = .ok (.atom v) ↔ token.SpellsAtom v := by
  rw [role, SpellsAtom]
  cases token.kind with
  | symbol => cases readWord token.text <;> simp [Except.map]
  | string => cases readString token.text <;> simp [Except.map]
  | _ => simp

/-- The token of an atom is no parenthesis. -/
theorem SpellsAtom.ne_parenthesis {token : Token} {v : Value} (h : token.SpellsAtom v) :
    token.kind ≠ .opening ∧ token.kind ≠ .closing := by
  rcases h with ⟨hkind, -⟩ | ⟨hkind, -⟩
  · rw [hkind]
    exact ⟨nofun, nofun⟩
  · rw [hkind]
    exact ⟨nofun, nofun⟩

theorem Spells.append {vs ws : List Value} {before after : List Token} (h : Spells vs before)
    (hafter : Spells ws after) : Spells (vs ++ ws) (before ++ after) := by
  induction h with
  | nil => exact hafter
  | atom hatom _ ih => exact .atom hatom ih
  | @list opening closing items vs inner tokens hopening hitems hclosing _ _ ih =>
      have hlist := Spells.list hopening hitems hclosing ih
      rwa [List.append_assoc, List.cons_append]

/-- What may follow some items: the closing token of their list, or nothing. -/
def EndsItems (rest : List Token) : Prop :=
  ∀ token ∈ rest.head?, token.kind = .closing

theorem endsItems_nil : EndsItems [] := by
  rintro token ⟨⟩

/-- No item starts with a closing token. -/
theorem Spells.eq_nil {vs : List Value} {tokens rest : List Token} (h : Spells vs tokens)
    (hends : EndsItems (tokens ++ rest)) : vs = [] ∧ tokens = [] := by
  cases h with
  | nil => exact ⟨rfl, rfl⟩
  | @atom token _ _ _ hatom _ => exact absurd (hends token rfl) hatom.ne_parenthesis.2
  | @list opening _ _ _ _ _ hopening _ _ _ =>
      have hclosing : opening.kind = .closing := hends opening rfl
      exact nomatch hclosing.symm.trans hopening

/-- **Unique spelling**, with what follows the forms cut off at the same place. -/
theorem Spells.unique {vs ws : List Value} {tokens others : List Token} (h : Spells vs tokens)
    (hother : Spells ws others) {rest last : List Token} (hrest : EndsItems rest)
    (hlast : EndsItems last) (heq : tokens ++ rest = others ++ last) :
    vs = ws ∧ rest = last := by
  induction h generalizing ws others rest last with
  | nil =>
      rw [List.nil_append] at heq
      obtain ⟨rfl, rfl⟩ := hother.eq_nil (heq ▸ hrest)
      exact ⟨rfl, heq⟩
  | @atom token v vs tokens hatom _ ih =>
      cases hother with
      | nil =>
          have hends : EndsItems (token :: tokens ++ rest) := heq ▸ hlast
          exact absurd (hends token rfl) hatom.ne_parenthesis.2
      | atom hatom' hothers =>
          obtain ⟨rfl, htail⟩ := List.cons.inj heq
          obtain ⟨rfl, hrest⟩ := ih hothers hrest hlast htail
          have hsame := (role_eq_atom_iff.mpr hatom).symm.trans (role_eq_atom_iff.mpr hatom')
          exact ⟨congrArg (· :: vs) (Role.atom.inj (Except.ok.inj hsame)), hrest⟩
      | list hopening _ _ _ =>
          obtain ⟨rfl, -⟩ := List.cons.inj heq
          exact absurd hopening hatom.ne_parenthesis.1
  | @list opening closing items vs inner tokens hopening hitems hclosing _ ihitems ih =>
      cases hother with
      | nil =>
          have hends : EndsItems (opening :: inner ++ closing :: tokens ++ rest) := heq ▸ hlast
          have hclosing : opening.kind = .closing := hends opening rfl
          exact nomatch hclosing.symm.trans hopening
      | atom hatom _ =>
          obtain ⟨rfl, -⟩ := List.cons.inj heq
          exact absurd hopening hatom.ne_parenthesis.1
      | @list opening' closing' items' vs' inner' tokens' hopening' hitems' hclosing' hothers =>
          have htail : inner ++ closing :: (tokens ++ rest) =
              inner' ++ closing' :: (tokens' ++ last) := by
            simpa using (List.cons.inj heq).2
          have hends : EndsItems (closing :: (tokens ++ rest)) := by
            rintro token ⟨⟩
            exact hclosing
          have hends' : EndsItems (closing' :: (tokens' ++ last)) := by
            rintro token ⟨⟩
            exact hclosing'
          obtain ⟨rfl, hafter⟩ := ihitems hitems' hends hends' htail
          obtain ⟨rfl, hrest⟩ := ih hothers hrest hlast (List.cons.inj hafter).2
          exact ⟨rfl, hrest⟩

end Token

/-! ## Reading and the scan -/

namespace Value

open Token

/-- The tokens that the lists on a stack were opened with, and those of their items. -/
inductive Opened : List (List Value) → List Token → Prop where
  | nil : Opened [] []
  | cons {stack : List (List Value)} {before items : List Token} {opening : Token}
      {done : List Value} : Opened stack before → opening.kind = .opening →
      Spells done.reverse items → Opened (done :: stack) (before ++ opening :: items)

variable {limit : Nat} {stack : List (List Value)} {before tokens rest : List Token}

/-- The next item of the innermost list has come. -/
theorem Opened.item {done : List Value} {v : Value} {consumed : List Token}
    (h : Opened (done :: stack) before) (hv : Spells [v] consumed) :
    Opened ((v :: done) :: stack) (before ++ consumed) := by
  cases h with
  | @cons _ before items opening _ hopened hopening hitems =>
      have hmore : Spells (v :: done).reverse (items ++ consumed) := by
        rw [List.reverse_cons]
        exact hitems.append hv
      rw [List.append_assoc, List.cons_append]
      exact .cons hopened hopening hmore

/-- A form that is read is spelled by the tokens that it took. -/
theorem spells_readFrom {v : Value} (h : readFrom limit stack tokens = (.ok (some v), rest))
    (hopened : Opened stack before) :
    ∃ consumed, tokens = consumed ++ rest ∧ Spells [v] (before ++ consumed) := by
  induction tokens generalizing stack before with
  | nil =>
      rw [readFrom.eq_def] at h
      cases stack with
      | nil => cases h
      | cons items stack => cases h
  | cons token tail ih =>
      -- A value whose tokens have come is the form, or the next item.
      have hhand : ∀ {w : Value} {stack : List (List Value)} {before took : List Token},
          Opened stack before → Spells [w] took →
          handOver limit w stack tail = (.ok (some v), rest) →
          ∃ consumed, tail = consumed ++ rest ∧ Spells [v] (before ++ took ++ consumed) := by
        intro w stack before took hopened hw h
        cases stack with
        | nil =>
            cases hopened with
            | nil =>
                cases h
                refine ⟨[], rfl, ?_⟩
                rwa [List.nil_append, List.append_nil]
        | cons items stack => exact ih h (hopened.item hw)
      rcases hrole : token.role with fault | _ | _ | w
      · rw [readFrom_refused hrole] at h
        cases h
      · by_cases hroom : stack.length < limit
        · rw [readFrom_opening hrole hroom] at h
          have hopened' : Opened ([] :: stack) (before ++ [token]) :=
            .cons hopened (role_eq_opens_iff.mp hrole) .nil
          obtain ⟨consumed, rfl, hspells⟩ := ih h hopened'
          refine ⟨token :: consumed, rfl, ?_⟩
          rwa [List.append_assoc, List.singleton_append] at hspells
        · rw [readFrom_overflow hrole (Nat.not_lt.mp hroom)] at h
          cases h
      · cases hopened with
        | nil =>
            rw [readFrom_unexpected hrole] at h
            cases h
        | @cons stack before items opening done hopened hopening hitems =>
            rw [readFrom_closing hrole] at h
            have hlist : Spells [.list none done.reverse] (opening :: items ++ [token]) :=
              .list hopening hitems (role_eq_closes_iff.mp hrole) .nil
            obtain ⟨consumed, rfl, hspells⟩ := hhand hopened hlist h
            refine ⟨token :: consumed, rfl, ?_⟩
            simpa using hspells
      · rw [readFrom_atom hrole] at h
        have hatom : Spells [w] [token] := .atom (role_eq_atom_iff.mp hrole) .nil
        obtain ⟨consumed, rfl, hspells⟩ := hhand hopened hatom h
        refine ⟨token :: consumed, rfl, ?_⟩
        rwa [List.append_assoc, List.singleton_append] at hspells

/-- There is no form only at the end. -/
theorem eq_nil_of_readFrom (h : readFrom limit stack tokens = (.ok none, rest)) :
    stack = [] ∧ tokens = [] := by
  fun_induction readFrom limit stack tokens <;> simp_all

/-- What reading comes to is what the scan finds: the first offence, or none up to the tokens
    that are left. -/
def AgreesWithScan (limit depth : Nat) (tokens : List Token) : Reading (Option Value) → Prop
  | (.error fault, _) => firstOffence? depth tokens = some fault
  | (.ok none, _) => firstOffence? depth tokens = none
  | (.ok (some _), rest) => firstOffence? depth tokens = firstOffence? 0 rest ∧
      nesting 0 rest ≤ limit

/-- A token that is no offence is passed over. -/
theorem AgreesWithScan.pass {depth next : Nat} {token : Token} {reading : Reading (Option Value)}
    (hpass : token.offence? depth = none ∧ token.depthAfter depth = next)
    (h : nesting depth (token :: tokens) ≤ limit)
    (hrest : nesting next tokens ≤ limit → AgreesWithScan limit next tokens reading) :
    AgreesWithScan limit depth (token :: tokens) reading := by
  obtain ⟨hnone, rfl⟩ := hpass
  have hagrees := hrest (Nat.le_trans (nesting_rest_le hnone) h)
  rcases reading with ⟨fault | (_ | v), rest⟩
  · exact (firstOffence?_of_none hnone).trans hagrees
  · exact (firstOffence?_of_none hnone).trans hagrees
  · exact ⟨(firstOffence?_of_none hnone).trans hagrees.1, hagrees.2⟩

/-- Reading one form and the scan, from any number of open lists on. -/
theorem agreesWithScan_readFrom (h : nesting stack.length tokens ≤ limit) :
    AgreesWithScan limit stack.length tokens (readFrom limit stack tokens) := by
  induction tokens generalizing stack with
  | nil =>
      cases stack with
      | nil =>
          rw [readFrom.eq_def]
          exact rfl
      | cons items stack =>
          rw [readFrom_unclosed]
          exact rfl
  | cons token tail ih =>
      have hhand : ∀ (w : Value) (stack : List (List Value)),
          nesting stack.length tail ≤ limit →
          AgreesWithScan limit stack.length tail (handOver limit w stack tail) := by
        intro w stack h
        cases stack with
        | nil => exact ⟨rfl, h⟩
        | cons items stack =>
            have hmore : nesting ((w :: items) :: stack).length tail ≤ limit := h
            exact ih hmore
      have hscan := offence?_depthAfter stack.length token
      rcases hrole : token.role with fault | _ | _ | w
      · rw [hrole] at hscan
        rw [readFrom_refused hrole]
        exact firstOffence?_of_some hscan
      · rw [hrole] at hscan
        refine .pass hscan h fun hrest => ?_
        have hroom : stack.length < limit := Nat.le_trans (le_nesting _ tail) hrest
        rw [readFrom_opening hrole hroom]
        exact ih hrest
      · cases stack with
        | nil =>
            rw [hrole] at hscan
            rw [readFrom_unexpected hrole]
            exact firstOffence?_of_some hscan.1
        | cons items stack =>
            have hscan := offence?_depthAfter stack.length token
            rw [hrole] at hscan
            refine .pass hscan.2 h fun hrest => ?_
            rw [readFrom_closing hrole]
            exact hhand _ stack hrest
      · rw [hrole] at hscan
        refine .pass hscan h fun hrest => ?_
        rw [readFrom_atom hrole]
        exact hhand w stack hrest

/-- All forms: they are spelled by the tokens, if the scan finds no offence. -/
theorem readForms_agrees (h : nesting 0 tokens ≤ limit) :
    match (readForms limit tokens).1 with
    | .error fault => firstOffence? 0 tokens = some fault
    | .ok forms => firstOffence? 0 tokens = none ∧ Spells forms tokens := by
  induction tokens using readForm_induct limit with
  | failed tokens fault rest hread =>
      have hagrees : AgreesWithScan limit 0 tokens (readForm limit tokens) :=
        agreesWithScan_readFrom h
      rw [hread] at hagrees
      rw [readForms_of_error hread]
      exact hagrees
  | ended tokens rest hread =>
      rw [readForms_of_none hread]
      obtain ⟨-, rfl⟩ := eq_nil_of_readFrom hread
      exact ⟨rfl, .nil⟩
  | form tokens form rest hread ih =>
      have hagrees : AgreesWithScan limit 0 tokens (readForm limit tokens) :=
        agreesWithScan_readFrom h
      rw [hread] at hagrees
      rw [readForms_of_some hread]
      obtain ⟨hoffence, hnesting⟩ := hagrees
      have hrest := ih hnesting
      obtain ⟨consumed, rfl, hform⟩ := spells_readFrom hread .nil
      rw [hoffence]
      rcases hforms : (readForms limit rest).1 with fault | forms
      · rw [hforms] at hrest
        exact hrest
      · rw [hforms] at hrest
        exact ⟨hrest.1, hform.append hrest.2⟩

end Value

namespace TokenStream

open Token

/-- **The tokens that are read are the balanced ones.**  Reading all forms comes to the first
    offence of the scan, be it an unreadable string, an overlong number, a closing token too
    many, a token of another kind or a list still open at the end; if there is none, it comes
    to the one list of forms that the tokens spell. -/
theorem readForms_scan {limit : Nat} {tokens : List Token} (h : nesting 0 tokens ≤ limit) :
    (match firstOffence? 0 tokens with
      | some fault => ((ofList tokens).readForms limit).1 = .error fault
      | none => ∃ forms, ((ofList tokens).readForms limit).1 = .ok forms ∧
          ∀ others, Spells others tokens ↔ others = forms) ∧
      ReadError.unexpectedClose.message = "unexpected ')'" ∧
      ReadError.unclosedList.message = "expected ')', got EOF" ∧
      ∀ kind text, (ReadError.unknownToken kind text).message =
        "Unknown token: " ++ kind ++ " " ++ text := by
  refine ⟨?_, rfl, rfl, fun _ _ => rfl⟩
  have hread : ((ofList tokens).readForms limit).1 = (Value.readForms limit tokens).1 := by
    rw [readForms_eq limit (length_buffer_ofList tokens)]
    rfl
  have hagrees := Value.readForms_agrees h
  rw [hread]
  rcases hforms : (Value.readForms limit tokens).1 with fault | forms
  · rw [hforms] at hagrees
    rw [hagrees]
  · rw [hforms] at hagrees
    obtain ⟨hnone, hspells⟩ := hagrees
    rw [hnone]
    refine ⟨forms, rfl, ?_⟩
    intro others
    constructor
    · intro hothers
      exact (hothers.unique hspells endsItems_nil endsItems_nil rfl).1
    · rintro rfl
      exact hspells

/-- Of two things that are wrong the first counts, the closing token too many and not the
    list that is left open. -/
theorem readForms_scan_of_extra_closing :
    nesting 0 [.opening, .symbol ['x'], .closing, .closing, .opening] ≤ 1 ∧
      ((ofList [.opening, .symbol ['x'], .closing, .closing, .opening]).readForms 1).1 =
        .error (.unreadable .unexpectedClose) := by
  have hnesting : nesting 0 [.opening, .symbol ['x'], .closing, .closing, .opening] ≤ 1 := by
    decide
  exact ⟨hnesting, (readForms_scan hnesting).1⟩

end TokenStream

end TailLisp
