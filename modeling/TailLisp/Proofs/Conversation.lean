import TailLisp.Dialogue
import TailLisp.Proofs.Domestic
import TailLisp.Session

/-! # Conversations — a dialogue is one evaluation after another

    What a line does and how it is answered depends only on the store that the inputs before it
    left.  So a dialogue is a fold: it goes on through errors, overflows and interruptions, and
    only an integer with too many digits, or a line that comes to no end, breaks it off.

    * **`after`**, **`answer`**, **`stop?`** — what one input does, said in terms of the
      evaluation of its line alone.
    * **`turn_reacts`** — one turn of the dialogue does just that.
    * **`run_append`** — by induction, so do any number of turns in front of others.
    * **`run_answers_in_turn`** — what a whole dialogue asks, says and leaves. -/

namespace TailLisp.Dialogue

variable (limits : Limits) (prompt : String) {s : Store} {input : Input}

/-! ## One input -/

/-- The store that an input leaves, whether its line fails or not. -/
def after (s : Store) : Input → Store
  | .line text => (Program.rep limits text).after s
  | .interruption => s

/-- The answer to an input. -/
def answer (s : Store) : Input → String
  | .interruption => "\n"
  | .line text =>
    match (Program.rep limits text).run s with
    | .ok none _ => ""
    | .ok (some shown) _ => shown ++ "\n"
    | .error (.error cause) _ => "error: " ++ cause.message ++ "\n"
    | .error .stackOverflow _ => "error: stack overflow\n"
    | .error .interrupted _ => "interrupted\n"
    | .error _ _ => ""

/-- The fault with which an input breaks a dialogue off, if it does. -/
def stop? (s : Store) : Input → Option Fault
  | .interruption => none
  | .line text =>
    match (Program.rep limits text).run s with
    | .error .digitLimit _ => some .digitLimit
    | .error .outOfFuel _ => some .outOfFuel
    | _ => none

/-- What programs print on account of an input. -/
def output (s : Store) (input : Input) : String :=
  (after limits s input).outputFrom s.printed.size

/-- An input that breaks the dialogue off is not answered. -/
theorem answer_of_stop {fault : Fault} (h : stop? limits s input = some fault) :
    answer limits s input = "" := by
  cases input with
  | interruption => exact nomatch h
  | line text =>
      rw [stop?] at h
      rw [answer]
      split at h
      case h_1 hrun | h_2 hrun => rw [hrun]
      case h_3 => exact nomatch h

theorem isDomestic_after (hs : s.IsDomestic) (input : Input) :
    (after limits s input).IsDomestic := by
  cases input with
  | line text => exact (Program.rep_domestic limits hs text).1
  | interruption => exact hs

namespace Transcript

/-! ## Views of events -/

section Views

variable (t t' : Transcript) (st : Store) (ended : Option Fault)

theorem prompts_append : prompts ⟨t.events ++ t'.events, st, ended⟩ = t.prompts ++ t'.prompts :=
  List.filterMap_append

theorem said_append : said ⟨t.events ++ t'.events, st, ended⟩ = t.said ++ t'.said :=
  (congrArg String.join List.filterMap_append).trans String.join_append

theorem spoken_append : spoken ⟨t.events ++ t'.events, st, ended⟩ = t.spoken ++ t'.spoken :=
  (congrArg String.join List.filterMap_append).trans String.join_append

variable (before later : Store)

theorem prompts_printedBetween : prompts ⟨printedBetween before later, st, ended⟩ = [] := by
  rw [prompts, printedBetween, List.filterMap_map]
  exact List.filterMap_eq_nil_iff.mpr fun _ _ => rfl

theorem said_printedBetween : said ⟨printedBetween before later, st, ended⟩ = "" := by
  rw [said, printedBetween, List.filterMap_map]
  exact congrArg String.join (List.filterMap_eq_nil_iff.mpr fun _ _ => rfl)

theorem spoken_printedBetween :
    spoken ⟨printedBetween before later, st, ended⟩ = later.outputFrom before.printed.size := by
  rw [spoken, printedBetween, List.filterMap_map]
  exact congrArg String.join (congrFun List.filterMap_eq_map _)

end Views

end Transcript

/-- A turn that does what its input does. -/
structure Transcript.Reacts (limits : Limits) (s : Store) (input : Input) (t : Transcript) :
    Prop where
  store : t.store = after limits s input
  ended : t.ended = stop? limits s input
  prompts : t.prompts = []
  said : t.said = answer limits s input
  spoken : t.spoken = output limits s input ++ answer limits s input

/-- What is answered on a line of its own. -/
theorem reacts_of_answer {st : Store} {report : String}
    (hstore : after limits s input = st) (hstop : stop? limits s input = none)
    (hanswer : answer limits s input = report ++ "\n") :
    Transcript.Reacts limits s input ⟨printedBetween s st ++ [sayLine report], st, none⟩ := by
  -- first what programs print, then the answer
  let printing : Transcript := ⟨printedBetween s st, st, none⟩
  let saying : Transcript := ⟨[sayLine report], st, none⟩
  have hsaid : saying.said = report ++ "\n" := by
    show String.join [report ++ "\n"] = _
    rw [String.join_cons, String.join_nil, String.append_empty]
  have hspoken : saying.spoken = report ++ "\n" := hsaid
  refine ⟨hstore.symm, hstop.symm, ?_, ?_, ?_⟩
  · rw [Transcript.prompts_append printing saying, Transcript.prompts_printedBetween]
    rfl
  · rw [Transcript.said_append printing saying, Transcript.said_printedBetween, hsaid,
      String.empty_append, hanswer]
  · rw [Transcript.spoken_append printing saying, Transcript.spoken_printedBetween, hspoken, output,
      hstore, hanswer]

/-- What is not answered. -/
theorem reacts_of_silence {st : Store} (hstore : after limits s input = st)
    (hanswer : answer limits s input = "") :
    Transcript.Reacts limits s input ⟨printedBetween s st, st, stop? limits s input⟩ where
  store := hstore.symm
  ended := rfl
  prompts := Transcript.prompts_printedBetween _ _ _ _
  said := by rw [Transcript.said_printedBetween, hanswer]
  spoken := by
    rw [Transcript.spoken_printedBetween, output, hstore, hanswer, String.append_empty]

/-- Each turn of a dialogue in a domestic store does what its input does: every fault of a line
    that is not reported is one that breaks the dialogue off. -/
theorem turn_reacts (hs : s.IsDomestic) (input : Input) :
    (turn limits s input).Reacts limits s input := by
  cases input with
  | interruption =>
      have hquiet : printedBetween s s = [] := by
        rw [printedBetween, ← Array.length_toList, List.drop_length]
        rfl
      have hreacts : Transcript.Reacts limits s .interruption
          ⟨printedBetween s s ++ [sayLine ""], s, none⟩ := reacts_of_answer limits rfl rfl rfl
      rw [hquiet] at hreacts
      exact hreacts
  | line text =>
      rw [turn]
      cases hrun : (Program.rep limits text).run s with
      | ok shown st =>
          have hstore : after limits s (.line text) = st := Eval.after_of_ok hrun
          have hstop : stop? limits s (.line text) = none := by rw [stop?, hrun]
          cases shown with
          | none =>
              have hreacts := reacts_of_silence limits hstore (by rw [answer, hrun])
              rw [hstop] at hreacts
              simpa using hreacts
          | some shown => exact reacts_of_answer limits hstore hstop (by rw [answer, hrun])
      | error fault st =>
          have hstore : after limits s (.line text) = st := Eval.after_of_error hrun
          have hdomestic := (Program.rep_domestic limits hs text).2 fault st hrun
          cases fault with
          | error cause =>
              exact reacts_of_answer limits hstore (by rw [stop?, hrun]) (by rw [answer, hrun])
          | stackOverflow | interrupted =>
              refine reacts_of_answer limits hstore (by rw [stop?, hrun]) ?_
              rw [answer, hrun]
              rfl
          | digitLimit | outOfFuel =>
              have hreacts := reacts_of_silence limits hstore (by rw [answer, hrun])
              rw [stop?, hrun] at hreacts
              exact hreacts
          | foreign | outOfRange => exact hdomestic.elim

/-! ## One input after another -/

/-- The store that inputs leave, whatever becomes of each. -/
def afterAll (s : Store) (inputs : List Input) : Store :=
  inputs.foldl (after limits) s

/-- What a session is asked for with the lines among some inputs. -/
def requests (inputs : List Input) : List Request :=
  inputs.filterMap fun
    | .line text => some (.rep text)
    | .interruption => none

/-- It is the store of a session that is asked for the lines. -/
theorem store_answerAll (session : Session) (inputs : List Input) :
    (session.answerAll limits (requests inputs)).2.store =
      afterAll limits session.store inputs := by
  induction inputs generalizing session with
  | nil => rfl
  | cons input rest ih =>
      cases input with
      | interruption => exact ih session
      | line text =>
          have hstore := session.store_carryOut (Program.rep limits text) .printed
          refine (ih (session.answer limits (.rep text)).2).trans ?_
          rw [Session.answer, hstore]
          rfl

/-- No input breaks the dialogue off. -/
def Unbroken (s : Store) : List Input → Prop
  | [] => True
  | input :: rest => stop? limits s input = none ∧ Unbroken (after limits s input) rest

instance decidableUnbroken (s : Store) :
    (inputs : List Input) → Decidable (Unbroken limits s inputs)
  | [] => inferInstanceAs (Decidable True)
  | input :: rest =>
    have := decidableUnbroken (after limits s input) rest
    inferInstanceAs (Decidable (stop? limits s input = none ∧ _))

/-- What each input brings about: what programs print, and the answer. -/
def exchanges (s : Store) : List Input → List (String × String)
  | [] => []
  | input :: rest =>
    (output limits s input, answer limits s input) :: exchanges (after limits s input) rest

/-- What is said in exchanges. -/
def saidIn (exchanges : List (String × String)) : String :=
  String.join (exchanges.map Prod.snd)

/-- What is said and printed in exchanges. -/
def spokenIn (exchanges : List (String × String)) : String :=
  String.join (exchanges.map fun (printed, said) => printed ++ said)

/-- An input that does not break the dialogue off is answered, and the dialogue goes on. -/
theorem run_continues (hs : s.IsDomestic) (hstop : stop? limits s input = none)
    (rest : List Input) :
    let t := run limits prompt s (input :: rest)
    let later := run limits prompt (after limits s input) rest
    t.store = later.store ∧ t.ended = later.ended ∧ t.prompts = prompt :: later.prompts ∧
      t.said = answer limits s input ++ later.said ∧
      t.spoken = output limits s input ++ answer limits s input ++ later.spoken := by
  intro t later
  let now := turn limits s input
  obtain ⟨hstore, hended, hprompts, hsaid, hspoken⟩ : now.Reacts limits s input :=
    turn_reacts limits hs input
  have ht : t = ⟨.asked prompt :: (now.events ++ later.events), later.store, later.ended⟩ := by
    have hgoes : now.ended = none := hended.trans hstop
    simp only [t, later, run, ← hstore, hgoes, now]
    rfl
  rw [ht]
  refine ⟨rfl, rfl, ?_, ?_, ?_⟩
  · calc
      _ = prompt :: (now.prompts ++ later.prompts) :=
        congrArg (prompt :: ·) (Transcript.prompts_append now later later.store later.ended)
      _ = prompt :: later.prompts := by rw [hprompts, List.nil_append]
  · calc
      _ = now.said ++ later.said := Transcript.said_append now later later.store later.ended
      _ = answer limits s input ++ later.said := by rw [hsaid]
  · calc
      _ = now.spoken ++ later.spoken :=
        Transcript.spoken_append now later later.store later.ended
      _ = output limits s input ++ answer limits s input ++ later.spoken := by rw [hspoken]

/-- An input that breaks the dialogue off is not answered, but what it did and printed stays. -/
theorem run_breaks (hs : s.IsDomestic) {fault : Fault} (hstop : stop? limits s input = some fault)
    (rest : List Input) :
    let t := run limits prompt s (input :: rest)
    t.store = after limits s input ∧ t.ended = some fault ∧ t.prompts = [prompt] ∧ t.said = "" ∧
      t.spoken = output limits s input := by
  intro t
  let now := turn limits s input
  obtain ⟨hstore, hended, hprompts, hsaid, hspoken⟩ : now.Reacts limits s input :=
    turn_reacts limits hs input
  have hanswer : answer limits s input = "" := answer_of_stop limits hstop
  have ht : t = ⟨.asked prompt :: now.events, now.store, some fault⟩ := by
    have hbreaks : now.ended = some fault := hended.trans hstop
    simp only [t, run, hbreaks, now]
  rw [hanswer] at hsaid hspoken
  rw [ht]
  refine ⟨hstore, rfl, congrArg (prompt :: ·) hprompts, hsaid, ?_⟩
  exact hspoken.trans String.append_empty

/-- Inputs that do not break the dialogue off are answered one after another, and the dialogue
    goes on from the store that they leave. -/
theorem run_append (hs : s.IsDomestic) {done : List Input} (h : Unbroken limits s done)
    (rest : List Input) :
    let t := run limits prompt s (done ++ rest)
    let later := run limits prompt (afterAll limits s done) rest
    t.store = later.store ∧ t.ended = later.ended ∧
      t.prompts = List.replicate done.length prompt ++ later.prompts ∧
      t.said = saidIn (exchanges limits s done) ++ later.said ∧
      t.spoken = spokenIn (exchanges limits s done) ++ later.spoken := by
  induction done generalizing s with
  | nil => exact ⟨rfl, rfl, rfl, String.empty_append.symm, String.empty_append.symm⟩
  | cons input done ih =>
      obtain ⟨hstop, hdone⟩ := h
      obtain ⟨hstore, hended, hprompts, hsaid, hspoken⟩ :=
        ih (isDomestic_after limits hs input) hdone
      obtain ⟨hstore₁, hended₁, hprompts₁, hsaid₁, hspoken₁⟩ :=
        run_continues limits prompt hs hstop (done ++ rest)
      refine ⟨hstore₁.trans hstore, hended₁.trans hended, ?_, ?_, ?_⟩
      · exact hprompts₁.trans (congrArg (prompt :: ·) hprompts)
      · rw [exchanges, saidIn, List.map_cons, String.join_cons, String.append_assoc]
        exact hsaid₁.trans (congrArg (answer limits s input ++ ·) hsaid)
      · rw [exchanges, spokenIn, List.map_cons, String.join_cons, String.append_assoc]
        exact hspoken₁.trans (congrArg (output limits s input ++ answer limits s input ++ ·) hspoken)

theorem isDomestic_afterAll (hs : s.IsDomestic) (inputs : List Input) :
    (afterAll limits s inputs).IsDomestic := by
  induction inputs generalizing s with
  | nil => exact hs
  | cons input rest ih => exact ih (isDomestic_after limits hs input)

/-- Either no input breaks the dialogue off, or there is a first that does. -/
theorem unbroken_or_stops (s : Store) (inputs : List Input) :
    Unbroken limits s inputs ∨
      ∃ done input rest fault, inputs = done ++ input :: rest ∧ Unbroken limits s done ∧
        stop? limits (afterAll limits s done) input = some fault := by
  induction inputs generalizing s with
  | nil => exact .inl trivial
  | cons input rest ih =>
      cases hstop : stop? limits s input with
      | some fault => exact .inr ⟨[], input, rest, fault, rfl, trivial, hstop⟩
      | none =>
          rcases ih (after limits s input) with hrest | ⟨done, input', rest', fault, rfl, hdone, h⟩
          · exact .inl ⟨hstop, hrest⟩
          · exact .inr ⟨input :: done, input', rest', fault, rfl, ⟨hstop, hdone⟩, h⟩

theorem eq_of_stop {fault : Fault} (h : stop? limits s input = some fault) :
    fault = .digitLimit ∨ fault = .outOfFuel := by
  cases input with
  | interruption => exact nomatch h
  | line text =>
      rw [stop?] at h
      split at h
      case h_1 => exact .inl (Option.some.inj h).symm
      case h_2 => exact .inr (Option.some.inj h).symm
      case h_3 => exact nomatch h

/-- A dialogue that nothing breaks off. -/
theorem run_of_unbroken (hs : s.IsDomestic) {inputs : List Input}
    (h : Unbroken limits s inputs) :
    let t := run limits prompt s inputs
    t.ended = none ∧ t.prompts = List.replicate (inputs.length + 1) prompt ∧
      t.said = saidIn (exchanges limits s inputs) ++ "\n" ∧
      t.spoken = spokenIn (exchanges limits s inputs) ++ "\n" ∧
      t.store = afterAll limits s inputs := by
  have hrun := run_append limits prompt hs h []
  rw [List.append_nil] at hrun
  obtain ⟨hstore, hended, hprompts, hsaid, hspoken⟩ := hrun
  refine ⟨hended, ?_, hsaid, hspoken, hstore⟩
  rw [List.replicate_succ']
  exact hprompts

/-- A dialogue that is broken off by the first input that can. -/
theorem run_of_stop (hs : s.IsDomestic) {done : List Input} (hdone : Unbroken limits s done)
    {fault : Fault} (hstop : stop? limits (afterAll limits s done) input = some fault)
    (rest : List Input) :
    let t := run limits prompt s (done ++ input :: rest)
    t.ended = some fault ∧ t.prompts = List.replicate (done.length + 1) prompt ∧
      t.said = saidIn (exchanges limits s done) ∧
      t.spoken =
        spokenIn (exchanges limits s done) ++ output limits (afterAll limits s done) input ∧
      t.store = afterAll limits s (done ++ [input]) := by
  obtain ⟨hstore, hended, hprompts, hsaid, hspoken⟩ :=
    run_append limits prompt hs hdone (input :: rest)
  obtain ⟨hstore₁, hended₁, hprompts₁, hsaid₁, hspoken₁⟩ :=
    run_breaks limits prompt (isDomestic_afterAll limits hs done) hstop rest
  refine ⟨hended.trans hended₁, ?_, ?_, hspoken.trans (congrArg _ hspoken₁), ?_⟩
  · rw [List.replicate_succ']
    exact hprompts.trans (congrArg _ hprompts₁)
  · rw [hsaid₁, String.append_empty] at hsaid
    exact hsaid
  · rw [afterAll, List.foldl_append]
    exact hstore.trans hstore₁

/-- **A dialogue answers its inputs in turn.**  In a store with nothing from outside, it asks once
    for each input and once more for the end, says one answer after the other, with what programs
    print in front of each, and leaves the store of a session that is asked for the lines.  A line
    breaks it off at once, with all that was said and done so far, if it comes upon too many digits
    or to no end; nothing else does. -/
theorem run_answers_in_turn (hs : s.IsDomestic) (inputs : List Input) :
    let t := run limits prompt s inputs
    (Unbroken limits s inputs →
      t.ended = none ∧ t.prompts = List.replicate (inputs.length + 1) prompt ∧
        t.said = saidIn (exchanges limits s inputs) ++ "\n" ∧
        t.spoken = spokenIn (exchanges limits s inputs) ++ "\n" ∧
        t.store = ((Session.ofStore s).answerAll limits (requests inputs)).2.store) ∧
      (∀ done input rest fault, inputs = done ++ input :: rest → Unbroken limits s done →
        stop? limits (afterAll limits s done) input = some fault →
          t.ended = some fault ∧ t.prompts = List.replicate (done.length + 1) prompt ∧
            t.said = saidIn (exchanges limits s done) ∧
            t.spoken =
              spokenIn (exchanges limits s done) ++ output limits (afterAll limits s done) input ∧
            t.store =
              ((Session.ofStore s).answerAll limits (requests (done ++ [input]))).2.store) ∧
      (t.ended = none ∨ t.ended = some .digitLimit ∨ t.ended = some .outOfFuel) := by
  have hsession := store_answerAll limits (Session.ofStore s)
  refine ⟨?_, ?_, ?_⟩
  · intro h
    rw [hsession]
    exact run_of_unbroken limits prompt hs h
  · rintro done input rest fault rfl hdone hstop
    rw [hsession]
    exact run_of_stop limits prompt hs hdone hstop rest
  · rcases unbroken_or_stops limits s inputs with h | ⟨done, input, rest, fault, rfl, hdone, h⟩
    · exact .inl (run_of_unbroken limits prompt hs h).1
    · obtain ⟨hended, -⟩ := run_of_stop limits prompt hs hdone h rest
      rcases eq_of_stop limits h with rfl | rfl
      · exact .inr (.inl hended)
      · exact .inr (.inr hended)

section Example

/-- A fresh interpreter with a number of too many digits, and in which an evaluation may break
    itself off. -/
def prepared : Store :=
  (Store.initial.define Store.root "n" (.int Decimal.bound)).define Store.root
    Builtin.interrupt.name (.builtin .interrupt)

/-- An error, an interruption at the prompt and one of an evaluation, a line without a form, lists
    nested too deep, and a line that prints and has a value. -/
def mishaps : List Input :=
  [.line "(def! x 5) (x)", .interruption, .line "(do (def! y x) (interrupt!))",
    .line "; nothing", .line "(((((((1)))))))", .line "(do (prn \"a\") y)"]

theorem run_answers_in_turn_of_mishaps :
    prepared.IsDomestic ∧
      (run ⟨6, 100⟩ "> " prepared mishaps).spoken =
        "error: 5 is not a function\n\ninterrupted\nerror: stack overflow\n\"a\"\n5\n\n" ∧
      (run ⟨6, 100⟩ "> " prepared (mishaps ++ [.line "(prn 1) n", .line "x"])).ended =
        some .digitLimit ∧
      (run ⟨6, 100⟩ "> " prepared (mishaps ++ [.line "(prn 1) n", .line "x"])).spoken =
        "error: 5 is not a function\n\ninterrupted\nerror: stack overflow\n\"a\"\n5\n1\n" := by
  have hs : prepared.IsDomestic := by
    have hn := Store.isDomestic_initial.define (f := Store.root) (v := .int Decimal.bound)
      (.atom trivial trivial) (fun _ => id) "n"
    exact hn.define (v := .builtin .interrupt) (.atom trivial trivial) (fun _ => id) _
  have hmishaps : Unbroken ⟨6, 100⟩ prepared mishaps := by decide +kernel
  have hdigits : stop? ⟨6, 100⟩ (afterAll ⟨6, 100⟩ prepared mishaps) (.line "(prn 1) n") =
      some .digitLimit := by
    decide +kernel
  obtain ⟨hunbroken, -, -⟩ := run_answers_in_turn ⟨6, 100⟩ "> " hs mishaps
  obtain ⟨-, -, -, hspoken, -⟩ := hunbroken hmishaps
  obtain ⟨-, hstopped, -⟩ :=
    run_answers_in_turn ⟨6, 100⟩ "> " hs (mishaps ++ [.line "(prn 1) n", .line "x"])
  obtain ⟨hended, -, -, hspoken', -⟩ := hstopped mishaps _ _ _ rfl hmishaps hdigits
  refine ⟨hs, hspoken.trans ?_, hended, hspoken'.trans ?_⟩
  · decide +kernel
  · decide +kernel

end Example

end TailLisp.Dialogue
