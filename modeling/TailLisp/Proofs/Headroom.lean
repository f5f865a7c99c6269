import TailLisp.Proofs.Descent
import TailLisp.Proofs.Exhaustion
import TailLisp.Session

/-! # Headroom — depth that is there and not needed

    How deep a session may go shows only where it goes too deep.  Reading, evaluating,
    printing and comparing all take their levels from one limit, and none of them passes
    over an overflow that happens on the way.

    * **`readFrom_mono`** — reading a form.
    * **`fold_mono`** and **`answer_mono`** — a text, by induction on its forms, and a request.
    * **`Session.answerAll_of_no_overflow`** — a session, by induction on its requests, that
      does not overflow with some depth is the same with any larger one.

    The fuel is the same on both sides, so also runs that are cut short for want of it
    agree. -/

namespace TailLisp

open Eval (AgreesUnless)

/-- The fault of going too deep. -/
def Fault.IsOverflow (fault : Fault) : Prop := fault = .stackOverflow

theorem Fault.isOverflow_stackOverflow : IsOverflow .stackOverflow := rfl

/-! ## Reading -/

namespace Value

/-- A form that is read without going too deep is read in the same way with more levels. -/
theorem readFrom_mono {limit limit' : Nat} (h : limit ≤ limit') (stack : List (List Value))
    (tokens : List Token) :
    (∃ rest, readFrom limit stack tokens = (.error .stackOverflow, rest)) ∨
      readFrom limit stack tokens = readFrom limit' stack tokens := by
  fun_induction readFrom limit stack tokens with
  | case1 | case2 => exact .inr rfl
  | case3 stack token rest fault hrole => exact .inr (readFrom_refused hrole).symm
  | case4 stack token rest hrole hdepth ih =>
      rw [readFrom_opening hrole (Nat.lt_of_lt_of_le hdepth h)]
      exact ih
  | case5 stack token rest => exact .inl ⟨rest, rfl⟩
  | case6 token rest hrole => exact .inr (readFrom_unexpected hrole).symm
  | case7 token rest hrole items =>
      rw [readFrom_closing hrole]
      exact .inr rfl
  | case8 token rest hrole items outer stack ih =>
      rw [readFrom_closing hrole]
      exact ih
  | case9 token rest value hrole =>
      rw [readFrom_atom hrole]
      exact .inr rfl
  | case10 token rest value hrole items stack ih =>
      rw [readFrom_atom hrole]
      exact ih

theorem readForm_of_le {limit limit' : Nat} (h : limit ≤ limit') {tokens rest : List Token}
    {form? : Option Value} (hread : readForm limit tokens = (.ok form?, rest)) :
    readForm limit' tokens = (.ok form?, rest) := by
  rcases readFrom_mono h [] tokens with ⟨other, hover⟩ | hsame
  · cases hover.symm.trans hread
  · exact hsame.symm.trans hread

end Value

section Limits

variable {limits limits' : Limits} (hdepth : limits.depth ≤ limits'.depth)
  (hfuel : limits'.fuel = limits.fuel)
include hdepth hfuel

/-! ## Texts -/

namespace Program

variable {α : Type}

theorem evalForm_mono (form : Value) :
    AgreesUnless Fault.IsOverflow (evalForm limits form) (evalForm limits' form) :=
  Eval.evaluate_mono Fault.isOverflow_stackOverflow (Nat.le_of_eq hfuel.symm)
    (fun hlt => absurd hfuel (Nat.ne_of_gt hlt)) hdepth form Store.root

/-- The next form of a text. -/
theorem next_mono (tokens : List Token) :
    AgreesUnless Fault.IsOverflow (next limits tokens) (next limits' tokens) := by
  rcases Value.readFrom_mono hdepth [] tokens with ⟨rest, hover⟩ | hsame
  · have hread : Value.readForm limits.depth tokens = _ := hover
    simp only [next, hread]
    exact .of_cut Fault.isOverflow_stackOverflow _
  · have hsame : Value.readForm limits'.depth tokens = _ := hsame.symm
    rcases hread : Value.readForm limits.depth tokens with ⟨fault | _ | form, rest⟩
    all_goals
      rw [← Value.readForm, hread] at hsame
      simp only [next, hread, hsame]
    · exact .refl _
    · exact .refl _
    · exact (evalForm_mono hdepth hfuel form).bind fun _ => .refl _

/-- A text whose values are visited in ways that agree. -/
theorem fold_mono {visit visit' : α → Value → Eval α}
    (hvisit : ∀ a v, AgreesUnless Fault.IsOverflow (visit a v) (visit' a v)) (start : α)
    (tokens : List Token) :
    AgreesUnless Fault.IsOverflow (fold limits visit start tokens)
      (fold limits' visit' start tokens) := by
  induction tokens using Value.readForm_induct limits.depth generalizing start with
  | failed tokens fault rest hread =>
      rcases Value.readFrom_mono hdepth [] tokens with ⟨rest, hover⟩ | hsame
      · rw [fold_of_error _ _ hover]
        exact .of_cut Fault.isOverflow_stackOverflow _
      · have hread' : Value.readForm limits'.depth tokens = (.error fault, rest) :=
          hsame.symm.trans hread
        rw [fold_of_error _ _ hread, fold_of_error _ _ hread']
        exact .refl _
  | ended tokens rest hread =>
      have hread' := Value.readForm_of_le hdepth hread
      rw [fold_of_none _ _ hread, fold_of_none _ _ hread']
      exact .refl _
  | form tokens form rest hread ih =>
      have hread' := Value.readForm_of_le hdepth hread
      rw [fold_of_some _ _ hread, fold_of_some _ _ hread']
      refine (evalForm_mono hdepth hfuel form).bind fun value => ?_
      exact (hvisit start value).bind ih

theorem load_mono (source : String) :
    AgreesUnless Fault.IsOverflow (load limits source) (load limits' source) := by
  refine fold_mono hdepth hfuel (fun _ _ => ?_) () _
  exact .refl _

theorem eval_mono (source : String) :
    AgreesUnless Fault.IsOverflow (eval limits source) (eval limits' source) := by
  refine fold_mono hdepth hfuel (fun _ _ => ?_) Value.nil _
  exact .refl _

/-- What is shown is printed within the same limits. -/
theorem rep_mono (source : String) :
    AgreesUnless Fault.IsOverflow (rep limits source) (rep limits' source) := by
  refine fold_mono hdepth hfuel (fun _ value => ?_) none _
  have hprint := value.print_mono Fault.isOverflow_stackOverflow hdepth
  exact (AgreesUnless.lift hprint).bind fun _ => .refl _

end Program

/-! ## Sessions -/

namespace Session

omit hdepth hfuel in
theorem carryOut_mono {α : Type} {x y : Eval α} (h : AgreesUnless Fault.IsOverflow x y)
    (s : Session) (reply : α → Reply) :
    (s.carryOut x reply).1 = .failed .stackOverflow ∨
      s.carryOut x reply = s.carryOut y reply := by
  rcases h s.store with ⟨fault, s', hrun, rfl⟩ | hrun
  · left
    rw [carryOut, hrun]
  · right
    rw [carryOut, carryOut, hrun]

/-- A request that is not answered with an overflow is answered in the same way. -/
theorem answer_mono (s : Session) (request : Request) :
    (s.answer limits request).1 = .failed .stackOverflow ∨
      s.answer limits request = s.answer limits' request := by
  cases request with
  | eval source => exact carryOut_mono (Program.eval_mono hdepth hfuel source) s _
  | rep source => exact carryOut_mono (Program.rep_mono hdepth hfuel source) s _
  | openText source => exact .inr rfl
  | next text =>
      rw [answer, answer, advance, advance]
      rcases Program.next_mono hdepth hfuel (s.texts[text]?.getD []) s.store with
        ⟨fault, s', hrun, rfl⟩ | hrun
      · left
        rw [hrun]
      · right
        rw [hrun]

/-- Requests none of which is answered with an overflow are answered in the same way. -/
theorem answerAll_mono (s : Session) (requests : List Request)
    (h : ∀ answer ∈ (s.answerAll limits requests).1, answer.1 ≠ .failed .stackOverflow) :
    s.answerAll limits' requests = s.answerAll limits requests := by
  induction requests generalizing s with
  | nil => rfl
  | cons request rest ih =>
      obtain ⟨hfirst, hrest⟩ := List.forall_mem_cons.mp h
      have hsame := (answer_mono hdepth hfuel s request).resolve_left hfirst
      simp only [answerAll, ← hsame, ih (s.answer limits request).2 hrest]

/-- **A session that does not overflow is the same with more depth.**  If neither the prelude
    nor any request overflows, the prelude ends in the same way with more depth, and so do
    all requests up to any one of them: with the same answers, the same output and the same
    store and opened texts. -/
theorem answerAll_of_no_overflow (prelude : Option String) (requests : List Request)
    (hprelude : ∀ source ∈ prelude, ∀ st,
      (Program.load limits source).run .initial ≠ .error .stackOverflow st)
    (hrequests : ∀ answer ∈ ((start limits prelude).answerAll limits requests).1,
      answer.1 ≠ .failed .stackOverflow) :
    (∀ source ∈ prelude, (Program.load limits' source).run .initial =
      (Program.load limits source).run .initial) ∧
    ∀ n, (start limits' prelude).answerAll limits' (requests.take n) =
      (start limits prelude).answerAll limits (requests.take n) := by
  have hload : ∀ source ∈ prelude, (Program.load limits' source).run .initial =
      (Program.load limits source).run .initial := by
    intro source hsource
    rcases Program.load_mono hdepth hfuel source .initial with ⟨fault, st, hrun, rfl⟩ | hrun
    · exact absurd hrun (hprelude source hsource st)
    · exact hrun.symm
  have hstart : start limits' prelude = start limits prelude := by
    cases prelude with
    | none => rfl
    | some source => simp only [start, Eval.after, hload source rfl]
  refine ⟨hload, fun n => ?_⟩
  rw [hstart]
  refine answerAll_mono hdepth hfuel _ _ fun answer hanswer => hrequests answer ?_
  rw [← List.take_append_drop n requests, answerAll_append]
  exact List.mem_append_left _ hanswer

omit hdepth hfuel in
/-- A session that needs four levels, against one that has many. -/
theorem answerAll_of_no_overflow_of_four_levels :
    let tight : Limits := ⟨4, 9⟩
    let roomy : Limits := ⟨250, 9⟩
    let prelude := "(def! f (fn* (n) (+ n 1)))"
    let requests : List Request :=
      [.openText "(f (f 1)) (= (list (list)) (list (list)))", .next 0, .next 0,
        .rep "(list (list 1))", .eval "(f nil)"]
    (∀ st, (Program.load tight prelude).run .initial ≠ .error .stackOverflow st) ∧
      (∀ answer ∈ ((start tight prelude).answerAll tight requests).1,
        answer.1 ≠ .failed .stackOverflow) ∧
      ∀ n, (start roomy prelude).answerAll roomy (requests.take n) =
        (start tight prelude).answerAll tight (requests.take n) := by
  intro tight roomy prelude requests
  have hprelude : ∀ st, (Program.load tight prelude).run .initial ≠ .error .stackOverflow st := by
    have hends : ((Program.load tight prelude).run .initial matches .ok _ _) = true := by
      decide +kernel
    intro st hrun
    rw [hrun] at hends
    exact nomatch hends
  have hrequests : ∀ answer ∈ ((start tight prelude).answerAll tight requests).1,
      answer.1 ≠ .failed .stackOverflow := by
    decide +kernel
  refine ⟨hprelude, hrequests, ?_⟩
  have hdepth : tight.depth ≤ roomy.depth := by decide
  refine (answerAll_of_no_overflow hdepth rfl prelude requests ?_ hrequests).2
  rintro source ⟨⟩
  exact hprelude

end Session

end Limits

end TailLisp
