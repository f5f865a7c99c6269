import TailLisp.Proofs.Journal
import TailLisp.Proofs.ReadBack
import TailLisp.Proofs.Showing

/-! # Printed output — what a session prints can be read again

    Evaluation makes clean values, without symbols.  If there is no function in it either, a value
    that was printed is data, whatever is in its strings, and its text is a single line.  The
    lines of a session follow each other as its calls of `prn` did, so reading them all gives the
    values back.

    * **`IsClean.no_newline`** — the text of a clean value is one line.
    * **`IsClean.isData`** — without functions, what was printed can be read.
    * **`Session.printed_reads_back`** — the output of a session, and what it shows of a text. -/

namespace TailLisp

namespace Value

variable {n : Nat} {v : Value} {room : Nat}

/-- There is no function in a value. -/
abbrev IsFunctionFree (v : Value) : Prop :=
  v.Throughout fun w => ¬ w.IsFunction

/-! ## One line -/

/-- No character is written with a newline in it. -/
theorem newline_not_mem_encodeChar (c : Char) : '\n' ∉ StringLiteral.encodeChar c := by
  rcases StringLiteral.encodeChar_cases c with ⟨e, hencode, hne, -⟩ | ⟨hencode, -, -⟩
  · rw [hencode]
    simpa using hne.symm
  · by_cases hc : c = '\n'
    · subst hc
      decide
    · rw [hencode]
      simpa using Ne.symm hc

theorem newline_not_mem_encode (text : List Char) : '\n' ∉ StringLiteral.encode text := by
  have hbody : '\n' ∉ text.flatMap StringLiteral.encodeChar := by
    intro hmem
    obtain ⟨c, -, hc⟩ := List.mem_flatMap.mp hmem
    exact newline_not_mem_encodeChar c hc
  simpa [StringLiteral.encode] using hbody

theorem newline_not_mem_textItems {items : List Value}
    (h : ∀ v ∈ items, '\n' ∉ (v.text .readable).toList) :
    '\n' ∉ (textItems .readable items).toList := by
  induction items with
  | nil => exact List.not_mem_nil
  | cons item rest ih =>
      obtain ⟨hitem, hrest⟩ := List.forall_mem_cons.mp h
      cases rest with
      | nil => exact hitem
      | cons next rest =>
          rw [textItems, String.toList_append, String.toList_append]
          simp only [List.mem_append, not_or]
          exact ⟨⟨hitem, by decide⟩, ih hrest⟩

/-- The text of a clean value is a single line. -/
theorem IsClean.no_newline (h : v.IsClean n) : '\n' ∉ (v.text .readable).toList := by
  induction h with
  | nil => decide
  | bool b => cases b <;> decide
  | int k =>
      rw [text, String.toList_ofList]
      intro hmem
      exact absurd ((Token.isWord_ofInt k).2 '\n' hmem) (by decide)
  | str text =>
      rw [Value.text, stringText, String.toList_ofList]
      exact newline_not_mem_encode text.toList
  | list serial _ ih =>
      rw [text, String.toList_append, String.toList_append]
      simp only [List.mem_append, not_or]
      exact ⟨⟨by decide, newline_not_mem_textItems ih⟩, by decide⟩
  | builtin | closure => exact (by decide : '\n' ∉ functionText.toList)

/-! ## Data -/

/-- No symbol occurs in a clean value. -/
theorem IsClean.not_occurs (h : v.IsClean n) (name : String) : ¬ Occurs name v := by
  induction h with
  | list serial _ ih =>
      rintro (_ | ⟨hmem, hname⟩)
      exact ih _ hmem hname
  | _ => exact nofun

theorem IsClean.hasReadableNames (h : v.IsClean n) : v.HasReadableNames :=
  fun name hname => absurd hname (h.not_occurs name)

/-- A clean value without functions that can be printed is data. -/
theorem IsClean.isData (h : v.IsClean n) (hfree : v.IsFunctionFree)
    (hcheck : v.checkText room = .ok ()) : v.IsData := by
  induction h generalizing room with
  | nil => exact .nil
  | bool b => exact .bool b
  | int k =>
      refine .int ((Decimal.isWritable_iff k).mp ?_)
      by_contra hk
      rw [checkText, if_neg hk] at hcheck
      cases hcheck
  | str text => exact .str text
  | list serial _ ih =>
      cases room with
      | zero => cases hcheck
      | succ room =>
          refine .list serial fun item hmem => ?_
          exact ih item hmem (hfree.items item hmem) (checkText_of_checkTextItems hcheck item hmem)
  | builtin => exact absurd trivial hfree.self
  | closure => exact absurd trivial hfree.self

/-! ## Reading lines -/

/-- The lines of data with readable names are read as the data. -/
theorem listOfString_lines {limit : Nat} {vs : List Value} (hdata : ∀ v ∈ vs, v.IsData)
    (hheight : ∀ v ∈ vs, v.height ≤ limit) (hnames : ∀ v ∈ vs, v.HasReadableNames) :
    listOfString limit (String.join (vs.map Store.lineOf)) = .ok (vs.map bare) := by
  have hlines : vs.map Store.lineOf = (vs.map (·.text .readable)).map (· ++ "\n") := by
    rw [List.map_map]
    rfl
  rw [hlines, listOfString, lex_lines hdata hnames, readForms_tokensItems hdata hheight hnames]

/-- A text without an end of line is read as well. -/
theorem listOfString_text {limit : Nat} (hdata : v.IsData) (hheight : v.height ≤ limit)
    (hnames : v.HasReadableNames) : listOfString limit (v.text .readable) = .ok [v.bare] := by
  have hend : Token.Delimits [] := nofun
  have htokens : Token.lex (v.text .readable) = tokensItems [v] := by
    have hlex := hdata.lexChars_text hnames hend
    rw [List.append_nil, Token.lexChars_nil, List.append_nil] at hlex
    rw [Token.lex, hlex, tokensItems, tokensItems, List.append_nil]
  have hread : readForms limit (tokensItems [v]) = (.ok [v.bare], []) :=
    readForms_tokensItems (List.forall_mem_singleton.mpr hdata)
      (List.forall_mem_singleton.mpr hheight) (List.forall_mem_singleton.mpr hnames)
  rw [listOfString, htokens, hread]

end Value

/-! ## Lines -/

/-- A value that is recorded adds its line to the output. -/
theorem Store.output_record (s : Store) (v : Value) :
    (s.record v).output = s.output ++ Store.lineOf v := by
  rw [output, output, outputFrom, outputFrom, List.drop_zero, List.drop_zero, record,
    Array.toList_push, List.map_append, List.map_singleton, String.join_append]
  simp [String.join]

/-- A call of `prn` that returns has written the line of its argument, and nothing else. -/
theorem Builtin.output_of_call_prn {room : Nat} {args : List Value} {s s' : Store} {v : Value}
    (h : (Builtin.prn.call room args).run s = .ok v s') :
    ∃ x, args = [x] ∧ s' = s.record x ∧ s'.output = s.output ++ (x.text .readable ++ "\n") := by
  rcases run_call_prn room args s with ⟨x, rfl, -, hcall⟩ | ⟨fault, hcall⟩
  · rw [hcall] at h
    obtain ⟨-, rfl⟩ := EStateM.Result.ok.inj h
    exact ⟨x, rfl, rfl, s.output_record x⟩
  · rw [hcall] at h
    exact nomatch h

namespace Session

variable (limits : Limits)

/-- What the parts of a session write is what `prn` is called with in one of them. -/
theorem exists_call_of_mem_flatten {parts : List Part} {wss : List (List Value)}
    (h : List.Forall₂ (fun part => Writes part.1 part.2) parts wss) {v : Value}
    (hv : v ∈ wss.flatten) : ∃ part ∈ parts, ∃ args, .called .prn args ∈ part.2 ∧ v ∈ args := by
  induction h with
  | nil => exact nomatch hv
  | cons hwrites _ ih =>
      rw [List.flatten_cons] at hv
      rcases List.mem_append.mp hv with hfirst | hrest
      · exact ⟨_, List.mem_cons_self, hwrites.exists_call hfirst⟩
      · obtain ⟨part, hpart, hcall⟩ := ih hrest
        exact ⟨part, List.mem_cons_of_mem _ hpart, hcall⟩

/-- What a text is shown as is the text of the value that it is evaluated to. -/
theorem answer_rep (s : Session) {source text : String}
    (h : (s.answer limits (.rep source)).1 = .printed (some text)) :
    ∃ v, (s.answer limits (.eval source)).1 = .value v ∧ v.print limits.depth = .ok text := by
  rw [answer, carryOut] at h
  cases hrun : (Program.rep limits source).run s.store with
  | error fault s' =>
      rw [hrun] at h
      cases h
  | ok result s' =>
      rw [hrun] at h
      obtain rfl := Reply.printed.inj h
      obtain ⟨v, heval, hprint⟩ := Program.exists_run_eval_of_rep hrun
      refine ⟨v, ?_, hprint⟩
      rw [answer, carryOut, heval]

/-- **What a session prints can be read again.**  What is printed is what the calls of `prn` write
    that return, part by part and in their order.  Each of them writes one line.  If there is no
    function in what was printed, reading all the output gives it back, with levels enough for it.
    What a text is shown as is one line too, the text of its value, and is read as that if there
    is no function in it. -/
theorem printed_reads_back (prelude : Option String) (requests : List Request) :
    let s := start limits prelude
    let last := (s.answerAll limits requests).2
    let parts := startPart limits prelude :: s.parts limits requests
    let printed := last.store.printed.toList
    (∃ wss, List.Forall₂ (fun part => Writes part.1 part.2) parts wss ∧ printed = wss.flatten) ∧
      (∀ part ∈ parts, ∀ args, .called .prn args ∈ part.2 → ∀ room st v st',
        (Builtin.prn.call room args).run st = .ok v st' →
          ∃ x, args = [x] ∧ st' = st.record x ∧
            st'.output = st.output ++ (x.text .readable ++ "\n") ∧
            '\n' ∉ (x.text .readable).toList) ∧
      (∀ limit, (∀ x ∈ printed, x.IsFunctionFree ∧ x.height ≤ limit) →
        Value.listOfString limit last.store.output = .ok (printed.map Value.bare)) ∧
      ∀ source text, (last.answer limits (.rep source)).1 = .printed (some text) →
        ∃ v, (last.answer limits (.eval source)).1 = .value v ∧ text = v.text .readable ∧
          '\n' ∉ text.toList ∧
          (v.IsFunctionFree → Value.listOfString limits.depth text = .ok [v.bare]) := by
  intro s last parts printed
  have hstart := extends_start limits prelude
  have hs : s.store.WellFormed := hstart.wellFormed .initial
  obtain ⟨hextends, -⟩ := extends_answerAll limits requests hs
  have hlast : last.store.WellFormed := hextends.wellFormed hs
  -- Whatever `prn` is called with, in any part, is clean.
  have hclean : ∀ part ∈ parts, ∀ args, .called .prn args ∈ part.2 →
      ∀ v ∈ args, v.IsClean last.store.frames.size := by
    intro part hpart args hcall
    refine (hstart.trans hextends).called .prn args ?_
    rw [← events_parts]
    rcases List.mem_cons.mp hpart with rfl | hrest
    · exact List.mem_append_left _ hcall
    · exact List.mem_append_right _ (List.mem_flatMap.mpr ⟨part, hrest, hcall⟩)
  obtain ⟨ws, hwrites, hfirst, hprintable⟩ := journal_start limits prelude
  obtain ⟨wss, hparts, hprinted, hprintables⟩ := journal_answerAll limits s requests
  have hall : List.Forall₂ (fun part => Writes part.1 part.2) parts (ws :: wss) :=
    .cons hwrites hparts
  have hflatten : printed = (ws :: wss).flatten := by
    exact hprinted.trans (congrArg (· ++ wss.flatten) hfirst)
  have hprintable : ∀ x ∈ printed, x.IsPrintable := by
    rw [hflatten, List.flatten_cons]
    exact List.forall_mem_append.mpr ⟨hprintable, hprintables⟩
  have hvalues : ∀ x ∈ printed, x.IsClean last.store.frames.size := by
    intro x hx
    rw [hflatten] at hx
    obtain ⟨part, hpart, args, hcall, hmem⟩ := exists_call_of_mem_flatten hall hx
    exact hclean part hpart args hcall x hmem
  refine ⟨⟨ws :: wss, hall, hflatten⟩, ?_, ?_, ?_⟩
  · intro part hpart args hcall room st v st' hrun
    obtain ⟨x, rfl, hrecord, houtput⟩ := Builtin.output_of_call_prn hrun
    exact ⟨x, rfl, hrecord, houtput,
      (hclean part hpart [x] hcall x List.mem_cons_self).no_newline⟩
  · intro limit hfree
    refine Value.listOfString_lines ?_ ?_ ?_
    · intro x hx
      obtain ⟨room, hcheck⟩ := hprintable x hx
      exact (hvalues x hx).isData (hfree x hx).1 hcheck
    · exact fun x hx => (hfree x hx).2
    · exact fun x hx => (hvalues x hx).hasReadableNames
  · intro source text hreply
    obtain ⟨v, heval, hprint⟩ := answer_rep limits last hreply
    obtain ⟨-, hvclean⟩ := extends_answer limits hlast (.eval source)
    rw [heval] at hvclean
    obtain ⟨hcheck, rfl⟩ := Value.checkText_and_text_of_print hprint
    refine ⟨v, heval, rfl, Value.IsClean.no_newline hvclean, fun hfree => ?_⟩
    exact Value.listOfString_text (hvclean.isData hfree hcheck)
      (Value.height_le_of_checkText hcheck) hvclean.hasReadableNames

/-- Printing goes on behind a text that failed, and a newline in a string is no end of a line. -/
theorem printed_reads_back_of_newline :
    let requests : List Request := [.rep "(say (list 1 \"a\\nb\")) (say nothing)",
      .eval "(say \"(\") (say"]
    let last := ((start ⟨6, 100⟩ (some "(def! say (fn* (x) (prn x)))")).answerAll ⟨6, 100⟩
      requests).2
    (∀ x ∈ last.store.printed.toList, x.IsFunctionFree ∧ x.height ≤ 1) ∧
      Value.listOfString 1 last.store.output =
        .ok [.list none [.int 1, .str "a\nb"], .str "("] := by
  intro requests last
  obtain ⟨-, -, hread, -⟩ :=
    printed_reads_back ⟨6, 100⟩ (some "(def! say (fn* (x) (prn x)))") requests
  have hprinted : last.store.printed.toList =
      [.list (some 1) [.int 1, .str "a\nb"], .str "("] := by
    decide +kernel
  have hfree : ∀ x ∈ last.store.printed.toList, x.IsFunctionFree ∧ x.height ≤ 1 := by
    rw [hprinted]
    intro x hx
    rcases List.mem_pair.mp hx with rfl | rfl
    · refine ⟨.list id fun item hitem => ?_, by decide⟩
      rcases List.mem_pair.mp hitem with rfl | rfl
      · exact .atom trivial id
      · exact .atom trivial id
    · exact ⟨.atom trivial id, by decide⟩
  refine ⟨hfree, (hread 1 hfree).trans ?_⟩
  rw [hprinted]
  rfl

end Session

end TailLisp
