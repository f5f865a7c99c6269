import TailLisp.Proofs.Decimals
import TailLisp.Proofs.Parts

/-! # Reading back — the reader undoes the printer

    Data is printed so that reading the text gives it back, exactly if its symbols have
    names that the reader takes for symbols.

    * From values to texts and back: the lexer makes the `tokens` of a value of its
      text, whatever follows, and the reader makes the value of its tokens, wherever
      it stands.  Both are inductions on the value with the rest of the input
      arbitrary.
    * From texts to values: a symbol that is read at all has a readable name, as it is
      cut out of the text as a word that is neither literal nor number.

    * **`Value.listOfString_print_iff`** — both directions in one.

    Lists are compared by their items only; the serial number of a list that a call
    has built is not part of its text, and `bare` is the value without. -/

namespace TailLisp

/-! ## Readable names -/

open Text in
/-- The names of symbols that are read as symbols. -/
structure IsReadableName (name : String) : Prop where
  ne_empty : name ≠ ""
  no_blank : ∀ c ∈ name.toList, isBlank c = false
  no_mark : ∀ c ∈ name.toList, c ∉ ['(', ')', ',', ';', '"']
  no_literal : name ∉ ["nil", "true", "false"]
  no_number : ¬ ∃ digits, digits ≠ [] ∧ (∀ c ∈ digits, c.isDigit = true) ∧
    (name.toList = digits ∨ name.toList = '-' :: digits)

namespace Token

theorem isSymbolChar_iff_no_mark {c : Char} :
    isSymbolChar c = true ↔ Text.isBlank c = false ∧ c ∉ ['(', ')', ',', ';', '"'] := by
  simp [isSymbolChar, isSeparator, and_assoc, and_comm, and_left_comm]

/-- Readable names in terms of the reader: words that are neither literal nor number. -/
theorem isReadableName_iff {name : String} :
    IsReadableName name ↔ IsWord name.toList ∧ name ∉ ["nil", "true", "false"] ∧
      Decimal.split? name.toList = none := by
  constructor
  · rintro ⟨hne, hblank, hmark, hliteral, hnumber⟩
    refine ⟨⟨?_, ?_⟩, hliteral, Decimal.split?_eq_none_iff.mpr hnumber⟩
    · intro hnil
      exact hne (String.toList_inj.mp hnil)
    · intro c hc
      exact isSymbolChar_iff_no_mark.mpr ⟨hblank c hc, hmark c hc⟩
  · rintro ⟨⟨hne, hchars⟩, hliteral, hnumber⟩
    refine ⟨?_, ?_, ?_, hliteral, Decimal.split?_eq_none_iff.mp hnumber⟩
    · rintro rfl
      exact hne rfl
    · intro c hc
      exact (isSymbolChar_iff_no_mark.mp (hchars c hc)).1
    · intro c hc
      exact (isSymbolChar_iff_no_mark.mp (hchars c hc)).2

/-- The literals are words. -/
theorem isWord_of_mem_literals {word : String} (h : word ∈ ["nil", "true", "false"]) :
    IsWord word.toList := by
  simp only [List.mem_cons, List.not_mem_nil, or_false] at h
  rcases h with rfl | rfl | rfl
  · exact ⟨List.cons_ne_nil _ _, List.all_eq_true.mp rfl⟩
  · exact ⟨List.cons_ne_nil _ _, List.all_eq_true.mp rfl⟩
  · exact ⟨List.cons_ne_nil _ _, List.all_eq_true.mp rfl⟩

/-- A word is read as the symbol that it names, if the name is readable. -/
theorem readWord_of_isReadableName {name : String} (h : IsReadableName name) :
    readWord name = .ok (.sym name) := by
  obtain ⟨-, hliteral, hnumber⟩ := isReadableName_iff.mp h
  simp only [List.mem_cons, List.not_mem_nil, or_false, not_or] at hliteral
  obtain ⟨hnil, htrue, hfalse⟩ := hliteral
  rw [readWord, if_neg hnil, if_neg htrue, if_neg hfalse, hnumber]

end Token

/-! ## Data -/

namespace Value

/-- Values without functions, whose integers have no more digits than are read and written. -/
inductive IsData : Value → Prop where
  | nil : IsData .nil
  | bool (b : Bool) : IsData (.bool b)
  | int {n : Int} : (Decimal.ofNat n.natAbs).length ≤ Decimal.maxDigits → IsData (.int n)
  | str (text : String) : IsData (.str text)
  | sym (name : String) : IsData (.sym name)
  | list (serial : Option Serial) {items : List Value} : (∀ v ∈ items, IsData v) →
      IsData (.list serial items)

/-- A symbol occurs in a value, at any depth. -/
inductive Occurs (name : String) : Value → Prop where
  | sym : Occurs name (.sym name)
  | item {serial : Option Serial} {items : List Value} {v : Value} : v ∈ items →
      Occurs name v → Occurs name (.list serial items)

theorem occurs_sym_iff {name x : String} : Occurs name (.sym x) ↔ x = name := by
  refine ⟨fun h => ?_, fun h => h ▸ .sym⟩
  cases h
  rfl

theorem occurs_list_iff {name : String} {serial : Option Serial} {items : List Value} :
    Occurs name (.list serial items) ↔ ∃ v ∈ items, Occurs name v := by
  refine ⟨fun h => ?_, fun ⟨v, hmem, h⟩ => .item hmem h⟩
  cases h with
  | item hmem h => exact ⟨_, hmem, h⟩

mutual

/-- The levels of lists in a value. -/
def height : Value → Nat
  | .list _ items => heightItems items + 1
  | _ => 0

/-- The levels of lists in the highest of some values. -/
def heightItems : List Value → Nat
  | [] => 0
  | item :: rest => max (height item) (heightItems rest)

end

theorem height_le_heightItems {items : List Value} {v : Value} (h : v ∈ items) :
    v.height ≤ heightItems items := by
  induction items with
  | nil => exact nomatch h
  | cons item rest ih =>
      rw [heightItems]
      rcases List.mem_cons.mp h with rfl | hrest
      · exact Nat.le_max_left _ _
      · exact Nat.le_trans (ih hrest) (Nat.le_max_right _ _)

mutual

/-- A value with its lists as they are when they are only written down. -/
def bare : Value → Value
  | .list _ items => .list none (bareItems items)
  | v => v

/-- The same for each of some values. -/
def bareItems : List Value → List Value
  | [] => []
  | item :: rest => bare item :: bareItems rest

end

@[simp] theorem bareItems_eq_map (items : List Value) : bareItems items = items.map bare := by
  induction items with
  | nil => rfl
  | cons item rest ih => rw [bareItems, ih, List.map_cons]

/-- The symbols are the same without serial numbers. -/
theorem occurs_bare {name : String} {v : Value} (h : Occurs name v) : Occurs name v.bare := by
  induction h with
  | sym => exact .sym
  | @item serial items v hmem _ ih =>
      rw [bare, bareItems_eq_map]
      exact .item (List.mem_map_of_mem hmem) ih

mutual

/-- The tokens of the text of a value. -/
def tokens : Value → List Token
  | .nil => [.symbol "nil".toList]
  | .bool b => [.symbol (if b then "true" else "false").toList]
  | .int n => [.symbol (Decimal.ofInt n)]
  | .str text => [.string (StringLiteral.encode text.toList)]
  | .sym name => [.symbol name.toList]
  | .list _ items => Token.opening :: (tokensItems items ++ [Token.closing])
  | .builtin _ | .closure .. | .foreign _ => []

/-- The tokens of the texts of some values. -/
def tokensItems : List Value → List Token
  | [] => []
  | item :: rest => tokens item ++ tokensItems rest

end

/-! ## From values to texts -/

theorem checkTextItems_of_forall {room : Nat} {items : List Value}
    (h : ∀ item ∈ items, item.checkText room = .ok ()) : checkTextItems room items = .ok () := by
  induction items with
  | nil => rfl
  | cons item rest ih =>
      obtain ⟨hitem, hrest⟩ := List.forall_mem_cons.mp h
      rw [checkTextItems, hitem]
      exact ih hrest

theorem checkText_of_checkTextItems {room : Nat} {items : List Value}
    (h : checkTextItems room items = .ok ()) : ∀ v ∈ items, v.checkText room = .ok () := by
  induction items with
  | nil => exact List.forall_mem_nil _
  | cons item rest ih =>
      rw [checkTextItems] at h
      cases hcheck : item.checkText room with
      | ok u =>
          rw [hcheck] at h
          exact List.forall_mem_cons.mpr ⟨hcheck, ih h⟩
      | error fault =>
          rw [hcheck] at h
          cases h

/-- What can be printed is no higher than there are levels. -/
theorem height_le_of_checkText {v : Value} {room : Nat} (h : v.checkText room = .ok ()) :
    v.height ≤ room := by
  induction v using Value.induct generalizing room with
  | list serial items ih =>
      cases room with
      | zero => exact nomatch h
      | succ room =>
          rw [height]
          refine Nat.succ_le_succ ?_
          have hitems := checkText_of_checkTextItems h
          clear h
          induction items with
          | nil => exact Nat.zero_le _
          | cons item rest ihrest =>
              obtain ⟨hitem, hrest⟩ := List.forall_mem_cons.mp hitems
              obtain ⟨ihitem, ih⟩ := List.forall_mem_cons.mp ih
              exact Nat.max_le.mpr ⟨ihitem hitem, ihrest ih hrest⟩
  | _ => exact Nat.zero_le _

/-- What is printed can be, and is printed as its text. -/
theorem checkText_and_text_of_print {v : Value} {room : Nat} {shown : String}
    (h : v.print room = .ok shown) : v.checkText room = .ok () ∧ v.text .readable = shown := by
  rw [print, printAs] at h
  cases hcheck : v.checkText room with
  | ok u =>
      rw [hcheck] at h
      exact ⟨rfl, Except.ok.inj h⟩
  | error fault =>
      rw [hcheck] at h
      cases h

/-- Data within the limit is printed. -/
theorem IsData.checkText {v : Value} (h : v.IsData) {room : Nat} (hheight : v.height ≤ room) :
    v.checkText room = .ok () := by
  induction h generalizing room with
  | nil | bool | str | sym => rfl
  | @int n hdigits =>
      rw [Value.checkText]
      exact if_pos ((Decimal.isWritable_iff n).mpr hdigits)
  | @list serial items _ ih =>
      rw [height] at hheight
      obtain ⟨room, rfl⟩ : ∃ m, room = m + 1 := ⟨room - 1, by omega⟩
      refine checkTextItems_of_forall ?_
      intro item hmem
      have hle := height_le_heightItems hmem
      exact ih item hmem (by omega)

theorem IsData.print {v : Value} (h : v.IsData) {room : Nat} (hheight : v.height ≤ room) :
    v.print room = .ok (v.text .readable) := by
  rw [Value.print, printAs, h.checkText hheight]
  rfl

/-! ## From texts to tokens -/

open Token

/-- The texts of items, each of which the lexer cuts up as it should. -/
theorem lexChars_textItems {items : List Value}
    (h : ∀ item ∈ items, ∀ rest, Delimits rest →
      lexChars ((item.text .readable).toList ++ rest) = item.tokens ++ lexChars rest)
    {rest : List Char} (hrest : Delimits rest) :
    lexChars ((textItems .readable items).toList ++ rest) =
      tokensItems items ++ lexChars rest := by
  induction items with
  | nil => rfl
  | cons item tail ih =>
      obtain ⟨hitem, htail⟩ := List.forall_mem_cons.mp h
      cases tail with
      | nil => rw [textItems, hitem rest hrest, tokensItems, tokensItems, List.append_nil]
      | cons next tail =>
          -- The blank keeps a symbol at the end of one item from going on in the next.
          have hblank : Delimits
              (' ' :: ((textItems .readable (next :: tail)).toList ++ rest)) := by
            rintro c ⟨⟩
            rfl
          have hsplit : (textItems .readable (item :: next :: tail)).toList ++ rest =
              (item.text .readable).toList ++
                ' ' :: ((textItems .readable (next :: tail)).toList ++ rest) := by
            rw [textItems, String.toList_append, String.toList_append, List.append_assoc,
              List.append_assoc]
            rfl
          have htokens : tokensItems (item :: next :: tail) =
              item.tokens ++ tokensItems (next :: tail) := by
            rw [tokensItems]
          rw [hsplit, hitem _ hblank, lexChars_separator (by decide), ih htail, htokens,
            List.append_assoc]

/-- The text of data is cut into its tokens, if a symbol at its end is not continued. -/
theorem IsData.lexChars_text {v : Value} (h : v.IsData)
    (hnames : ∀ name, Occurs name v → IsReadableName name) {rest : List Char}
    (hrest : Delimits rest) :
    lexChars ((v.text .readable).toList ++ rest) = v.tokens ++ lexChars rest := by
  induction h generalizing rest with
  | nil =>
      have hword : IsWord "nil".toList := isWord_of_mem_literals (by simp)
      exact lexChars_word hword hrest
  | bool b =>
      have hword : IsWord (if b then "true" else "false").toList := by
        refine isWord_of_mem_literals ?_
        cases b with
        | true => simp
        | false => simp
      exact lexChars_word hword hrest
  | @int n _ =>
      rw [text, String.toList_ofList]
      exact lexChars_word (isWord_ofInt n) hrest
  | str text =>
      rw [Value.text, stringText, String.toList_ofList]
      exact lexChars_encode text.toList rest
  | sym name =>
      obtain ⟨hword, -, -⟩ := isReadableName_iff.mp (hnames name .sym)
      exact lexChars_word hword hrest
  | @list serial items _ ih =>
      have hitems : ∀ item ∈ items, ∀ rest, Delimits rest →
          lexChars ((item.text .readable).toList ++ rest) = item.tokens ++ lexChars rest := by
        intro item hmem rest hrest
        exact ih item hmem (fun name hname => hnames name (.item hmem hname)) hrest
      have hclose : Delimits (')' :: rest) := by
        rintro c ⟨⟩
        rfl
      have hsplit : (text .readable (.list serial items)).toList ++ rest =
          '(' :: ((textItems .readable items).toList ++ ')' :: rest) := by
        rw [text, String.toList_append, String.toList_append, List.append_assoc,
          List.append_assoc]
        rfl
      rw [hsplit, lexChars_opening, lexChars_textItems hitems hclose, lexChars_closing, tokens,
        List.cons_append, List.append_assoc, List.singleton_append]

/-! ## From tokens to values -/

/-- Going on with a value that was just read: it is the form, or the next item of the
    innermost open list. -/
def handOver (limit : Nat) (v : Value) : List (List Value) → List Token → Reading (Option Value)
  | [], rest => (.ok (some v), rest)
  | items :: stack, rest => readFrom limit ((v :: items) :: stack) rest

section HandOver

variable {limit : Nat} {stack : List (List Value)} {rest : List Token}

theorem readFrom_atom {token : Token} {v : Value} (h : token.role = .ok (.atom v)) :
    readFrom limit stack (token :: rest) = handOver limit v stack rest := by
  cases stack with
  | nil =>
      rw [readFrom.eq_def]
      simp only [h]
      rfl
  | cons items stack =>
      rw [readFrom.eq_def]
      simp only [h]
      rfl

theorem readFrom_opening {token : Token} (hrole : token.role = .ok .opens)
    (h : stack.length < limit) :
    readFrom limit stack (token :: rest) = readFrom limit ([] :: stack) rest := by
  rw [readFrom.eq_def]
  cases stack with
  | nil => simp only [hrole, if_pos h]
  | cons items stack => simp only [hrole, if_pos h]

theorem readFrom_closing {token : Token} (hrole : token.role = .ok .closes)
    (items : List Value) :
    readFrom limit (items :: stack) (token :: rest) =
      handOver limit (.list none items.reverse) stack rest := by
  rw [readFrom.eq_def]
  cases stack with
  | nil =>
      simp only [hrole]
      rfl
  | cons outer stack =>
      simp only [hrole]
      rfl

/-- Items that are handed over one by one go into the innermost open list. -/
theorem readFrom_tokensItems {items : List Value}
    (h : ∀ item ∈ items, ∀ done rest,
      readFrom limit (done :: stack) (item.tokens ++ rest) =
        readFrom limit ((item.bare :: done) :: stack) rest) (done : List Value) :
    readFrom limit (done :: stack) (tokensItems items ++ rest) =
      readFrom limit (((items.map bare).reverse ++ done) :: stack) rest := by
  induction items generalizing done with
  | nil => rfl
  | cons item tail ih =>
      obtain ⟨hitem, htail⟩ := List.forall_mem_cons.mp h
      rw [tokensItems, List.append_assoc, hitem, ih htail, List.map_cons, List.reverse_cons,
        List.append_assoc, List.singleton_append]

end HandOver

/-- The tokens of data are read as the data, wherever there are levels enough for it. -/
theorem IsData.readFrom_tokens {v : Value} (h : v.IsData)
    (hnames : ∀ name, Occurs name v → IsReadableName name) {limit : Nat}
    {stack : List (List Value)} (hheight : stack.length + v.height ≤ limit) (rest : List Token) :
    readFrom limit stack (v.tokens ++ rest) = handOver limit v.bare stack rest := by
  induction h generalizing stack rest with
  | nil => exact readFrom_atom rfl
  | bool b =>
      cases b with
      | true => exact readFrom_atom rfl
      | false => exact readFrom_atom rfl
  | @int n hdigits =>
      refine readFrom_atom ?_
      show (readWord (String.ofList (Decimal.ofInt n))).map Role.atom = _
      rw [readWord_ofInt ((Decimal.isWritable_iff n).mpr hdigits)]
      rfl
  | str text =>
      refine readFrom_atom ?_
      show (readString (String.ofList (StringLiteral.encode text.toList))).map Role.atom = _
      rw [readString_encode]
      rfl
  | sym name =>
      refine readFrom_atom ?_
      show (readWord (String.ofList name.toList)).map Role.atom = _
      rw [String.ofList_toList, readWord_of_isReadableName (hnames name .sym)]
      rfl
  | @list serial items _ ih =>
      rw [height] at hheight
      have hopen : stack.length < limit := by omega
      have hopening : Token.opening.role = .ok .opens := rfl
      have hclosing : Token.closing.role = .ok .closes := rfl
      have hitems : ∀ item ∈ items, ∀ done rest,
          readFrom limit (done :: stack) (item.tokens ++ rest) =
            readFrom limit ((item.bare :: done) :: stack) rest := by
        intro item hmem done rest
        have hle := height_le_heightItems hmem
        refine ih item hmem (fun name hname => hnames name (.item hmem hname)) ?_ rest
        rw [List.length_cons]
        omega
      rw [tokens, List.cons_append, readFrom_opening hopening hopen, List.append_assoc,
        readFrom_tokensItems hitems, List.singleton_append, readFrom_closing hclosing,
        List.append_nil, List.reverse_reverse, bare, bareItems_eq_map]

/-- The tokens of any number of data are read as the data. -/
theorem readForms_tokensItems {limit : Nat} {vs : List Value} (hdata : ∀ v ∈ vs, v.IsData)
    (hheight : ∀ v ∈ vs, v.height ≤ limit)
    (hnames : ∀ v ∈ vs, ∀ name, Occurs name v → IsReadableName name) :
    readForms limit (tokensItems vs) = (.ok (vs.map bare), []) := by
  induction vs with
  | nil => exact readForms_of_none rfl
  | cons v rest ih =>
      obtain ⟨hv, hdata⟩ := List.forall_mem_cons.mp hdata
      obtain ⟨hlow, hheight⟩ := List.forall_mem_cons.mp hheight
      obtain ⟨hname, hnames⟩ := List.forall_mem_cons.mp hnames
      have hread : readForm limit (v.tokens ++ tokensItems rest) =
          (.ok (some v.bare), tokensItems rest) :=
        hv.readFrom_tokens hname (by rwa [List.length_nil, Nat.zero_add]) (tokensItems rest)
      rw [tokensItems, readForms_of_some hread, ih hdata hheight hnames]
      rfl

/-! ## Only readable names are read -/

/-- All symbols in a value have readable names. -/
def HasReadableNames (v : Value) : Prop :=
  ∀ name, Occurs name v → IsReadableName name

theorem HasReadableNames.list {serial : Option Serial} {items : List Value}
    (h : ∀ v ∈ items, v.HasReadableNames) : HasReadableNames (.list serial items) := by
  rintro name (_ | ⟨hmem, hname⟩)
  exact h _ hmem name hname

/-- A token that was cut out of a text names no symbol that is not readable. -/
theorem ordinaryOr_role_of_isLexed {token : Token} (h : token.IsLexed) :
    OrdinaryOr (Role.Holds HasReadableNames) token.role := by
  cases h with
  | opening | closing => trivial
  | string cs =>
      refine (ordinaryOr_readString _).map ?_
      rintro v ⟨text, rfl⟩ name hname
      exact nomatch hname
  | @symbol word hword =>
      refine (ordinaryOr_readWord (String.ofList word)).map ?_
      intro v hv name hname
      cases hv with
      | nil | bool | int => exact nomatch hname
      | sym hliteral hnumber =>
          -- A symbol is its own word, so all that is left is what made it one.
          cases hname with
          | sym =>
              refine isReadableName_iff.mpr ⟨?_, hliteral, hnumber⟩
              rw [String.toList_ofList]
              exact hword

/-- Whatever a text is read as, its symbols have readable names. -/
theorem hasReadableNames_of_listOfString {limit : Nat} {source : String} {vs : List Value}
    (h : listOfString limit source = .ok vs) : ∀ v ∈ vs, v.HasReadableNames := by
  have hforms := ordinaryOr_readForms (fun _ => HasReadableNames.list) limit (Token.lex source)
    fun token hmem => ordinaryOr_role_of_isLexed (isLexed_of_mem_lexChars hmem)
  rw [listOfString] at h
  rw [h] at hforms
  exact hforms

/-! ## Both directions -/

theorem mapM_print {limit : Nat} {vs : List Value} (hdata : ∀ v ∈ vs, v.IsData)
    (hheight : ∀ v ∈ vs, v.height ≤ limit) :
    vs.mapM (·.print limit) = .ok (vs.map (·.text .readable)) := by
  induction vs with
  | nil => rfl
  | cons v rest ih =>
      obtain ⟨hv, hdata⟩ := List.forall_mem_cons.mp hdata
      obtain ⟨hlow, hheight⟩ := List.forall_mem_cons.mp hheight
      rw [List.mapM_cons, hv.print hlow, ih hdata hheight]
      rfl

/-- The lines of printed data are cut into its tokens. -/
theorem lex_lines {vs : List Value} (hdata : ∀ v ∈ vs, v.IsData)
    (hnames : ∀ v ∈ vs, v.HasReadableNames) :
    Token.lex (String.join ((vs.map (·.text .readable)).map (· ++ "\n"))) = tokensItems vs := by
  rw [Token.lex, String.toList_join]
  induction vs with
  | nil => exact lexChars_nil
  | cons v rest ih =>
      obtain ⟨hv, hdata⟩ := List.forall_mem_cons.mp hdata
      obtain ⟨hname, hnames⟩ := List.forall_mem_cons.mp hnames
      have hnewline : ∀ cs, Delimits ('\n' :: cs) := by
        rintro cs c ⟨⟩
        rfl
      have hend : ∀ cs, "\n".toList ++ cs = '\n' :: cs := fun _ => rfl
      rw [List.map_cons, List.map_cons, List.flatMap_cons, String.toList_append,
        List.append_assoc, hend, hv.lexChars_text hname (hnewline _),
        lexChars_separator (by decide), ih hdata hnames, tokensItems]

/-- **The reader undoes the printer, exactly on readable names.**  Data within the limit is
    printed, and reading all the lines gives it back if and only if every symbol in it has a
    readable name. -/
theorem listOfString_print_iff {limit : Nat} {vs : List Value} (hdata : ∀ v ∈ vs, v.IsData)
    (hheight : ∀ v ∈ vs, v.height ≤ limit) :
    ∃ texts, vs.mapM (·.print limit) = .ok texts ∧
      (listOfString limit (String.join (texts.map (· ++ "\n"))) = .ok (vs.map bare) ↔
        ∀ v ∈ vs, ∀ name, Occurs name v → IsReadableName name) := by
  refine ⟨_, mapM_print hdata hheight, ?_⟩
  constructor
  · intro hread v hv name hname
    -- What is read is data without serial numbers, in which the same symbols occur.
    have hnames := hasReadableNames_of_listOfString hread
    exact hnames v.bare (List.mem_map_of_mem hv) name (occurs_bare hname)
  · intro hnames
    rw [listOfString, lex_lines hdata hnames, readForms_tokensItems hdata hheight hnames]

/-- One level of lists is enough for a list that a call has built and for a number. -/
theorem listOfString_print_list_int :
    ∃ texts, [list (some 3) [.sym "x", .str "a\"b"], .int (-7)].mapM (·.print 1) = .ok texts ∧
      (listOfString 1 (String.join (texts.map (· ++ "\n"))) =
          .ok [list none [.sym "x", .str "a\"b"], .int (-7)] ↔
        ∀ v ∈ [list (some 3) [.sym "x", .str "a\"b"], .int (-7)],
          ∀ name, Occurs name v → IsReadableName name) := by
  refine listOfString_print_iff ?_ ?_
  · intro v hv
    rcases List.mem_pair.mp hv with rfl | rfl
    · refine .list (some 3) ?_
      intro item hitem
      rcases List.mem_pair.mp hitem with rfl | rfl
      · exact .sym "x"
      · exact .str "a\"b"
    · exact .int (by decide)
  · decide

end Value

end TailLisp
