import TailLisp.Proofs.Chains
import TailLisp.Proofs.Composition
import TailLisp.Proofs.Independence
import TailLisp.Proofs.TailSteps
import TailLisp.Prelude

/-! # Tail recursion — loops in constant depth

    Five functions are defined in the root frame: a sum with an accumulator, a loop through a
    `let*` and a `do`, two functions that call each other, and a sum that is added up only
    after the call has come back.

    * **`Definition`** — a function, as it is written and as it is read.
    * **`Equipped`** — a store in whose root frame the functions and the builtins they call are
      bound; **`runs_definitions`** makes one.
    * **`Sees`** — the loop invariant: what is seen from the frame of a call.  The bodies depend
      on nothing else, however many frames there are by then.
    * **`sumTo_ends`**, **`countDown_ends`**, **`parity_ends`** — inductions on the number within
      one depth, **`sumDown_ends`** within a depth that grows with the number, and
      **`sumDown_overflows`** within a depth that is too small for it.
    * **`tail_recursion_in_constant_depth`** — all of it for calls from the root frame. -/

namespace TailLisp.TailRecursion

open Eval

/-! ## The functions -/

/-- A function that is bound to a name, and the text of the definition. -/
structure Definition where
  name : String
  params : List String
  body : Value
  source : String

/-- A call by name. -/
def call (name : String) (args : List Value) : Value := .list none (.sym name :: args)

/-- `(if (= n 0) yes no)` -/
def ifZero (yes no : Value) : Value :=
  SpecialForm.branch.applied none [call "=" [.sym "n", .int 0], yes, no]

/-- `(- n 1)` -/
def predecessor : Value := call "-" [.sym "n", .int 1]

/-- Adds the numbers from `n` down to `acc`. -/
def sumTo : Definition where
  name := "sum-to"
  params := ["n", "acc"]
  body := ifZero (.sym "acc") (call "sum-to" [predecessor, call "+" [.sym "n", .sym "acc"]])
  source :=
    "\n        (def! sum-to (fn* (n acc)\n" ++
      "          (if (= n 0)\n" ++
      "              acc\n" ++
      "              (sum-to (- n 1) (+ n acc)))))\n        "

/-- Counts `n` down below zero. -/
def countDown : Definition where
  name := "count-down"
  params := ["n"]
  body := SpecialForm.letStar.applied none
    [.list none (bindingForms [("m", predecessor)]),
      SpecialForm.sequence.applied none ([.int 1] ++
        [SpecialForm.branch.applied none
          [call "<" [.sym "m", .int 0], .bool true, call "count-down" [.sym "m"]]])]
  source :=
    "\n        (def! count-down (fn* (n)\n" ++
      "          (let* (m (- n 1))\n" ++
      "            (do 1\n" ++
      "                (if (< m 0) true (count-down m))))))\n        "

/-- The names of two functions that call each other. -/
def parityName (even : Bool) : String := if even then "even?" else "odd?"

/-- One of the two, which asks the other about the number before. -/
def parity (even : Bool) : Definition where
  name := parityName even
  params := ["n"]
  body := ifZero (.bool even) (call (parityName !even) [predecessor])
  source := "(def! " ++ parityName even ++ " (fn* (n) (if (= n 0) " ++
    (Value.bool even).text .readable ++ " (" ++ parityName (!even) ++ " (- n 1)))))"

/-- Adds `n` to the sum of the numbers below it. -/
def sumDown : Definition where
  name := "sum-down"
  params := ["n"]
  body := ifZero (.int 0) (call "+" [.sym "n", call "sum-down" [predecessor]])
  source := "(def! sum-down (fn* (n) (if (= n 0) 0 (+ n (sum-down (- n 1))))))"

def definitions : List Definition :=
  [sumTo, countDown, parity true, parity false, sumDown]

theorem sumTo_mem : sumTo ∈ definitions := by simp [definitions]

theorem countDown_mem : countDown ∈ definitions := by simp [definitions]

theorem parity_mem (even : Bool) : parity even ∈ definitions := by cases even <;> simp [definitions]

theorem sumDown_mem : sumDown ∈ definitions := by simp [definitions]

/-- The builtins that are called. -/
def natives : List Builtin := [.equal, .add, .sub, .less]

namespace Definition

/-- The form that defines a function. -/
def form (d : Definition) : Value :=
  SpecialForm.define.applied none
    [.sym d.name, SpecialForm.lambda.applied none [.list none (d.params.map .sym), d.body]]

/-- The closure of a function that was defined in the root frame. -/
def closure (d : Definition) (k : Serial) : Value := .closure k d.params d.body Store.root

/-- The text of a definition is read as its form, within six levels of lists. -/
theorem readForm_source {d : Definition} (hd : d ∈ definitions) {limit : Nat} (h : 6 ≤ limit) :
    Value.readForm limit (Token.lex d.source) = (.ok (some d.form), []) := by
  -- Six levels are tried out, and more of them make no difference.
  have hsix : Value.readForm 6 (Token.lex d.source) = (.ok (some d.form), []) := by
    revert d
    decide +kernel
  rcases Value.readFrom_mono h [] (Token.lex d.source) with ⟨rest, hover⟩ | hsame
  · rw [Value.readForm, hover] at hsix
    cases hsix
  · exact hsame.symm.trans hsix

theorem nodup_params {d : Definition} (hd : d ∈ definitions) : d.params.Nodup := by
  revert d
  decide

theorem name_ne {d : Definition} (hd : d ∈ definitions) (kind : SpecialForm) :
    Value.sym d.name ≠ .sym kind.name := by
  revert d
  cases kind <;> decide

/-- What becomes of a store through a definition. -/
def extend (d : Definition) (s : Store) : Store :=
  { s with nextSerial := s.nextSerial + 1 }.define Store.root d.name (d.closure s.nextSerial)

theorem bindings_extend (d : Definition) {s : Store} (hroot : Store.root < s.frames.size) :
    (d.extend s).bindings Store.root =
      (s.bindings Store.root).set d.name (d.closure s.nextSerial) :=
  Store.bindings_define_self { s with nextSerial := s.nextSerial + 1 } hroot _ _

/-- A definition binds its name to the closure, and nothing else. -/
theorem run_eval {d : Definition} (hd : d ∈ definitions) {limits : Limits}
    (hdepth : 6 ≤ limits.depth) (hfuel : 0 < limits.fuel) (s : Store) :
    (Program.eval limits d.source).run s = .ok (d.closure s.nextSerial) (d.extend s) := by
  rw [Program.run_eval_of_readForm (readForm_source hd hdepth)]
  obtain ⟨depth, fuel⟩ := limits
  obtain ⟨fuel, rfl⟩ := Nat.exists_eq_add_one.mpr hfuel
  obtain ⟨depth, rfl⟩ : ∃ m, depth = m + 2 := ⟨depth - 2, by dsimp only at hdepth; omega⟩
  have hclosure : (evaluate (fuel + 1) (depth + 1)
      (SpecialForm.lambda.applied none [.list none (d.params.map .sym), d.body]) Store.root).run s =
        .ok (d.closure s.nextSerial) { s with nextSerial := s.nextSerial + 1 } :=
    follow_of_value (step_lambda (nodup_params hd) _ _ none none d.body) fuel
  refine follow_of_value ?_ fuel
  simp only [form, step_special, special, EStateM.run_bind, hclosure]
  rfl

end Definition

/-! ## What the functions find in the root frame -/

/-- The root frame binds the builtins that are called, and all functions. -/
structure Equipped (s : Store) : Prop where
  builtin : ∀ b ∈ natives, (s.bindings Store.root).get? b.name = some (.builtin b)
  closure : ∀ d ∈ definitions, ∃ k, (s.bindings Store.root).get? d.name = some (d.closure k)

theorem Equipped.congr {s t : Store} (h : Equipped s)
    (hsame : t.bindings Store.root = s.bindings Store.root) : Equipped t := by
  obtain ⟨hbuiltin, hclosure⟩ := h
  exact ⟨hsame ▸ hbuiltin, hsame ▸ hclosure⟩

/-- What binds something exists. -/
theorem root_lt_size {s : Store} {name : String} {v : Value}
    (h : (s.bindings Store.root).get? name = some v) : Store.root < s.frames.size := by
  refine Nat.lt_of_not_le fun hsize => ?_
  rw [s.bindings_of_size_le hsize] at h
  exact nomatch h

theorem Equipped.root_lt_size {s : Store} (h : Equipped s) : Store.root < s.frames.size :=
  TailRecursion.root_lt_size (h.builtin .equal (by decide))

/-- Definitions of different names, evaluated one after another. -/
theorem runs_definitions {limits : Limits} (hdepth : 6 ≤ limits.depth) (hfuel : 0 < limits.fuel)
    {ds : List Definition} (hds : ∀ d ∈ ds, d ∈ definitions) (hnames : (ds.map (·.name)).Nodup)
    {s : Store} (hroot : Store.root < s.frames.size) :
    ∃ vs t, (ds.mapM (Program.eval limits ·.source)).run s = .ok vs t ∧
      (∀ d ∈ ds, ∃ k, (t.bindings Store.root).get? d.name = some (d.closure k)) ∧
      ∀ name ∉ ds.map (·.name),
        (t.bindings Store.root).get? name = (s.bindings Store.root).get? name := by
  induction ds generalizing s with
  | nil => exact ⟨[], s, rfl, nofun, fun _ _ => rfl⟩
  | cons d ds ih =>
      obtain ⟨hd, hds⟩ := List.forall_mem_cons.mp hds
      obtain ⟨hnew, hnames⟩ := List.nodup_cons.mp hnames
      have hfirst := Definition.run_eval hd hdepth hfuel s
      have hbindings := d.bindings_extend hroot
      have hroot' : Store.root < (d.extend s).frames.size := by
        rwa [Definition.extend, Store.size_define]
      obtain ⟨vs, t, hrun, hbound, hother⟩ := ih hds hnames hroot'
      refine ⟨d.closure s.nextSerial :: vs, t, ?_, ?_, ?_⟩
      · simp only [List.mapM_cons, EStateM.run_bind, hfirst, hrun]
        rfl
      · refine List.forall_mem_cons.mpr ⟨⟨s.nextSerial, ?_⟩, hbound⟩
        rw [hother d.name hnew, hbindings, Bindings.get?_set, if_pos rfl]
      · intro name hname
        obtain ⟨hne, hname⟩ := not_or.mp (mt List.mem_cons.mpr hname)
        rw [hother name hname, hbindings, Bindings.get?_set, if_neg (Ne.symm hne)]

/-! ## The loop invariant -/

/-- From frame `f` the names `own` are seen, and behind them those of an equipped root frame. -/
structure Sees (s : Store) (f : FrameId) (own : Bindings) : Prop where
  equipped : Equipped s
  exists_frame : f < s.frames.size
  lookup : ∀ name, s.lookup? f name = (own.get? name).or ((s.bindings Store.root).get? name)

/-- The frame of a call. -/
theorem Equipped.sees_addFrame {s : Store} (h : Equipped s) (bindings : Bindings) :
    Sees (s.addFrame Store.root bindings) s.frames.size bindings := by
  have hroot := s.bindings_addFrame_of_lt h.root_lt_size Store.root bindings
  refine ⟨h.congr hroot, s.lt_size_addFrame _ _, fun name => ?_⟩
  rw [Store.lookup?_addFrame_self h.root_lt_size, Store.lookup?_root, hroot]

theorem Equipped.sees_root {s : Store} (h : Equipped s) : Sees s Store.root [] :=
  ⟨h, h.root_lt_size, s.lookup?_root⟩

namespace Sees

variable {s : Store} {f : FrameId} {own : Bindings} {depth : Nat}

/-- The frame of a `let*`, while nothing is bound in it. -/
theorem inside (h : Sees s f own) : Sees (s.addFrame f []) s.frames.size own := by
  obtain ⟨hequipped, hf, hlookup⟩ := h
  have hroot := s.bindings_addFrame_of_lt hequipped.root_lt_size f []
  refine ⟨hequipped.congr hroot, s.lt_size_addFrame f [], fun name => ?_⟩
  rw [Store.lookup?_addFrame_self hf, Bindings.get?, Option.none_or, hlookup, hroot]

/-- The frame of a `let*` with one binding. -/
theorem inside_define (h : Sees s f own) (name : String) (v : Value) :
    Sees ((s.addFrame f []).define s.frames.size name v) s.frames.size ((name, v) :: own) := by
  obtain ⟨hequipped, hnew, hlookup⟩ := h.inside
  have hroot := Store.bindings_define_of_ne (s.addFrame f [])
    (Nat.ne_of_gt h.equipped.root_lt_size) name v
  refine ⟨hequipped.congr hroot, by rwa [Store.size_define], fun other => ?_⟩
  rw [Store.lookup?_define_self hnew (s.outer?_addFrame_self f []) h.exists_frame, hlookup, hroot,
    Bindings.get?]
  by_cases hname : name = other
  · rw [if_pos hname, if_pos hname, Option.some_or]
  · rw [if_neg hname, if_neg hname]

theorem sym (h : Sees s f own) {name : String} {v : Value} (hname : own.get? name = some v) :
    EndsWithin (depth + 1) (.sym name) f s (.ok v s) := by
  refine endsWithin_sym ?_
  rw [h.lookup, hname, Option.some_or]

theorem builtin (h : Sees s f own) {b : Builtin} (hb : b ∈ natives)
    (hname : own.get? b.name = none) :
    EndsWithin (depth + 1) (.sym b.name) f s (.ok (.builtin b) s) := by
  refine endsWithin_sym ?_
  rw [h.lookup, hname, Option.none_or, h.equipped.builtin b hb]

theorem function (h : Sees s f own) {d : Definition} (hd : d ∈ definitions)
    (hname : own.get? d.name = none) (depth : Nat) :
    ∃ k, EndsWithin (depth + 1) (.sym d.name) f s (.ok (d.closure k) s) := by
  obtain ⟨k, hk⟩ := h.equipped.closure d hd
  refine ⟨k, endsWithin_sym ?_⟩
  rw [h.lookup, hname, Option.none_or, hk]

/-- A name and a number. -/
theorem evaluatesEach (h : Sees s f own) {name : String} {v : Value}
    (hname : own.get? name = some v) (n : Int) :
    EvaluatesEach (depth + 1) f s [.sym name, .int n] [v, .int n] s :=
  .cons (h.sym hname) (.cons (endsWithin_self trivial) .nil)

/-- A call of a builtin whose arguments leave the store alone. -/
theorem call_builtin (h : Sees s f own) {b : Builtin} (hb : b ∈ natives)
    (hname : own.get? b.name = none) {args vs : List Value}
    (hargs : EvaluatesEach (depth + 1) f s args vs s) {v : Value}
    (hcall : (b.call (depth + 1) vs).run s = .ok v s) :
    EndsWithin (depth + 2) (call b.name args) f s (.ok v s) :=
  endsWithin_builtin b.sym_name_ne (h.builtin hb hname) hargs hcall none

/-- A call of a function leaves its body, in a frame that sees the arguments. -/
theorem call_iff (h : Sees s f own) {d : Definition} (hd : d ∈ definitions)
    (hname : own.get? d.name = none) {args vs : List Value}
    (hargs : EvaluatesEach (depth + 1) f s args vs s) (hlength : vs.length = d.params.length)
    (o : Outcome Value) :
    EndsWithin (depth + 2) (call d.name args) f s o ↔
      EndsWithin (depth + 2) d.body s.frames.size
        (s.addFrame Store.root (Bindings.ofList (d.params.zip vs))) o := by
  obtain ⟨k, hfn⟩ := h.function hd hname depth
  exact (handsOn_call (Definition.name_ne hd) hfn hargs hlength none).endsWithin_iff o

/-- `(- n 1)` -/
theorem predecessor (h : Sees s f own) {n : Int} (hn : own.get? "n" = some (.int n))
    (hminus : own.get? "-" = none) :
    EndsWithin (depth + 2) TailRecursion.predecessor f s (.ok (.int (n - 1)) s) :=
  h.call_builtin (b := .sub) (by decide) hminus (h.evaluatesEach hn 1) rfl

theorem predecessor_succ (h : Sees s f own) {n : Nat}
    (hn : own.get? "n" = some (.int (n + 1 : Nat))) (hminus : own.get? "-" = none) :
    EndsWithin (depth + 2) TailRecursion.predecessor f s (.ok (.int n) s) := by
  have hpred : ((n + 1 : Nat) : Int) - 1 = n := by omega
  exact hpred ▸ h.predecessor hn hminus

/-- `(if (= n 0) yes no)` -/
theorem ifZero_iff (h : Sees s f own) {n : Nat} (hn : own.get? "n" = some (.int n))
    (hequal : own.get? "=" = none) (yes no : Value) (o : Outcome Value) :
    EndsWithin (depth + 3) (ifZero yes no) f s o ↔
      EndsWithin (depth + 3) (if n = 0 then yes else no) f s o := by
  have hcond : EndsWithin (depth + 2) (call "=" [.sym "n", .int 0]) f s
      (.ok (.bool ((n : Int) == 0)) s) :=
    h.call_builtin (b := .equal) (by decide) hequal (h.evaluatesEach hn 0) rfl
  have hbranch := (handsOn_branch hcond none yes (some no)).endsWithin_iff o
  cases n with
  | zero => exact hbranch
  | succ n => exact hbranch

end Sees

/-! ## The loops -/

/-- A frame in which the body of a function is evaluated for some arguments. -/
abbrev InCall (d : Definition) (vs : List Value) (s : Store) (f : FrameId) : Prop :=
  Sees s f (Bindings.ofList (d.params.zip vs))

/-- Within a limit, a form ends with a value or a fault, whatever store it leaves. -/
def EndsAs (limit : Nat) (form : Value) (f : FrameId) (s : Store) (o : Store → Outcome Value) :
    Prop :=
  ∃ t, EndsWithin limit form f s (o t)

namespace Sees

variable {s : Store} {f : FrameId} {own : Bindings} {depth : Nat} {o : Store → Outcome Value}

theorem endsAs_call (h : Sees s f own) {d : Definition} (hd : d ∈ definitions)
    (hname : own.get? d.name = none) {args vs : List Value}
    (hargs : EvaluatesEach (depth + 1) f s args vs s) (hlength : vs.length = d.params.length)
    (hbody : ∀ {s' f'}, InCall d vs s' f' → EndsAs (depth + 2) d.body f' s' o) :
    EndsAs (depth + 2) (call d.name args) f s o := by
  obtain ⟨t, ht⟩ := hbody (h.equipped.sees_addFrame (Bindings.ofList (d.params.zip vs)))
  exact ⟨t, (h.call_iff hd hname hargs hlength _).mpr ht⟩

theorem endsAs_ifZero (h : Sees s f own) {n : Nat} (hn : own.get? "n" = some (.int n))
    (hequal : own.get? "=" = none) {yes no : Value}
    (hbranch : EndsAs (depth + 3) (if n = 0 then yes else no) f s o) :
    EndsAs (depth + 3) (ifZero yes no) f s o := by
  obtain ⟨t, ht⟩ := hbranch
  exact ⟨t, (h.ifZero_iff hn hequal yes no _).mpr ht⟩

end Sees

/-- The sum of the numbers up to `n`. -/
def triangle (n : Nat) : Nat := n * (n + 1) / 2

theorem triangle_succ (n : Nat) : triangle (n + 1) = triangle n + (n + 1) := by
  have hsplit : (n + 1) * (n + 1 + 1) = n * (n + 1) + (n + 1) * 2 := by
    rw [Nat.mul_add (n + 1) n 2, Nat.mul_comm (n + 1) n]
  rw [triangle, hsplit, Nat.add_mul_div_right _ _ Nat.two_pos, triangle]

section Loops

variable {s : Store} {f : FrameId} {depth : Nat}

theorem sumTo_ends (n : Nat) (acc : Int) (h : InCall sumTo [.int n, .int acc] s f) :
    EndsAs (depth + 3) sumTo.body f s (.ok (.int (acc + triangle n))) := by
  induction n generalizing s f acc with
  | zero =>
      have hacc : acc + triangle 0 = acc := Int.add_zero acc
      rw [hacc]
      exact h.endsAs_ifZero rfl rfl ⟨s, h.sym rfl⟩
  | succ n ih =>
      refine h.endsAs_ifZero rfl rfl ?_
      have hsum : EndsWithin (depth + 2) (call "+" [.sym "n", .sym "acc"]) f s
          (.ok (.int ((n + 1 : Nat) + acc)) s) :=
        h.call_builtin (b := .add) (by decide) rfl (.cons (h.sym rfl) (.cons (h.sym rfl) .nil)) rfl
      have hvalue : acc + triangle (n + 1) = (n + 1 : Nat) + acc + triangle n := by
        rw [triangle_succ]
        omega
      rw [if_neg (Nat.succ_ne_zero n), hvalue]
      exact h.endsAs_call sumTo_mem rfl (.cons (h.predecessor_succ rfl rfl) (.cons hsum .nil)) rfl
        (ih _)

/-- A round of the loop leads through the `let*`, the `do` and the `if`. -/
theorem countDown_iff {n : Int} (h : InCall countDown [.int n] s f) (o : Outcome Value) :
    EndsWithin (depth + 3) countDown.body f s o ↔
      EndsWithin (depth + 3) (if n - 1 < 0 then .bool true else call "count-down" [.sym "m"])
        s.frames.size ((s.addFrame f []).define s.frames.size "m" (.int (n - 1))) o := by
  have hinner := h.inside_define "m" (.int (n - 1))
  have hbinds : BindsEach (depth + 2) s.frames.size (s.addFrame f []) [("m", predecessor)]
      ((s.addFrame f []).define s.frames.size "m" (.int (n - 1))) :=
    .cons (h.inside.predecessor rfl rfl) .nil
  -- From here on only what is seen matters, not how the store was made.
  generalize (s.addFrame f []).define s.frames.size "m" (.int (n - 1)) = st at hinner hbinds ⊢
  have hone : EvaluatesEach (depth + 2) s.frames.size st [.int 1] [.int 1] st :=
    .cons (endsWithin_self trivial) .nil
  have hcond : EndsWithin (depth + 2) (call "<" [.sym "m", .int 0]) s.frames.size st
      (.ok (.bool (decide (n - 1 < 0))) st) :=
    hinner.call_builtin (b := .less) (by decide) rfl (hinner.evaluatesEach rfl 0) rfl
  have hbranch := (handsOn_branch hcond none (.bool true)
    (some (call "count-down" [.sym "m"]))).endsWithin_iff o
  refine ((handsOn_letStar hbinds none none _).endsWithin_iff o).trans <|
    ((handsOn_sequence hone none _).endsWithin_iff o).trans (hbranch.trans ?_)
  by_cases hneg : n - 1 < 0
  · simp [hneg, Value.isTruthy]
  · simp [hneg, Value.isTruthy]

theorem countDown_ends (n : Nat) (h : InCall countDown [.int n] s f) :
    EndsAs (depth + 3) countDown.body f s (.ok (.bool true)) := by
  induction n generalizing s f with
  | zero => exact ⟨_, (countDown_iff h _).mpr (endsWithin_self trivial)⟩
  | succ n ih =>
      have hpred : ((n + 1 : Nat) : Int) - 1 = n := by omega
      have hinner := h.inside_define "m" (.int n)
      have harg : EvaluatesEach (depth + 2) s.frames.size
          ((s.addFrame f []).define s.frames.size "m" (.int n)) [.sym "m"] [.int n] _ :=
        .cons (hinner.sym rfl) .nil
      obtain ⟨t, ht⟩ := hinner.endsAs_call countDown_mem rfl harg rfl ih
      refine ⟨t, (countDown_iff h _).mpr ?_⟩
      rwa [hpred, if_neg (Int.not_lt.mpr (Int.natCast_nonneg n))]

theorem parity_ends (n : Nat) (even : Bool) (h : InCall (parity even) [.int n] s f) :
    EndsAs (depth + 3) (parity even).body f s (.ok (.bool ((n % 2 == 0) == even))) := by
  induction n generalizing s f even with
  | zero =>
      have hvalue : ((0 % 2 == 0) == even) = even := by simp
      rw [hvalue]
      exact h.endsAs_ifZero rfl rfl ⟨s, endsWithin_self trivial⟩
  | succ n ih =>
      refine h.endsAs_ifZero rfl rfl ?_
      have hname : Bindings.get? (parity !even).name
          (Bindings.ofList ((parity even).params.zip [.int (n + 1 : Nat)])) = none := by
        cases even <;> rfl
      have hvalue : (((n + 1) % 2 == 0) == even) = ((n % 2 == 0) == !even) := by
        rcases Nat.mod_two_eq_zero_or_one n with hn | hn
        · cases even <;> simp [Nat.add_mod, hn]
        · cases even <;> simp [Nat.add_mod, hn]
      rw [if_neg (Nat.succ_ne_zero n), hvalue]
      exact h.endsAs_call (parity_mem !even) hname (.cons (h.predecessor_succ rfl rfl) .nil) rfl
        (ih !even)

theorem sumDown_ends (n : Nat) (h : InCall sumDown [.int n] s f) :
    EndsAs (n + depth + 3) sumDown.body f s (.ok (.int (triangle n))) := by
  induction n generalizing s f with
  | zero => exact h.endsAs_ifZero rfl rfl ⟨s, endsWithin_self trivial⟩
  | succ n ih =>
      rw [Nat.add_right_comm n 1 depth]
      refine h.endsAs_ifZero rfl rfl ?_
      have hcall : EndsAs (n + depth + 3) (call "sum-down" [predecessor]) f s
          (.ok (.int (triangle n))) :=
        h.endsAs_call sumDown_mem rfl (.cons (h.predecessor_succ rfl rfl) .nil) rfl ih
      obtain ⟨t, hrest⟩ := hcall
      have hvalue : ((n + 1 : Nat) : Int) + triangle n = triangle (n + 1) := by
        rw [triangle_succ]
        omega
      rw [if_neg (Nat.succ_ne_zero n), ← hvalue]
      exact ⟨t, endsWithin_builtin (Builtin.sym_name_ne .add)
        (h.builtin (b := .add) (by decide) rfl) (.cons (h.sym rfl) (.cons hrest .nil)) rfl none⟩

/-- The sum overflows where the call does that is to be added. -/
theorem sumDown_overflows_of_call {n : Nat} (hn : n ≠ 0) (h : InCall sumDown [.int n] s f)
    (hcall : EndsAs (depth + 2) (call "sum-down" [predecessor]) f s (.error .stackOverflow)) :
    EndsAs (depth + 3) sumDown.body f s (.error .stackOverflow) := by
  obtain ⟨t, ht⟩ := hcall
  refine h.endsAs_ifZero rfl rfl ⟨t, ?_⟩
  rw [if_neg hn]
  exact endsWithin_of_arg_error (Builtin.sym_name_ne .add) (h.builtin (b := .add) (by decide) rfl)
    (.cons (h.sym rfl) .nil) ht none []

/-- The numbers that are still to be added wait in the depth, one in a level. -/
theorem sumDown_overflows {k n : Nat} (hn : k < n) (h : InCall sumDown [.int n] s f) :
    EndsAs (k + 3) sumDown.body f s (.error .stackOverflow) := by
  induction k generalizing s f n with
  | zero =>
      -- The call has two levels left: one for its argument, and none for what that calls.
      refine sumDown_overflows_of_call (Nat.ne_zero_of_lt hn) h ?_
      obtain ⟨i, hfn⟩ := h.function sumDown_mem rfl 0
      have hpred : EndsWithin 1 predecessor f s (.error .stackOverflow s) :=
        endsWithin_of_head_error (Builtin.sym_name_ne .sub) (endsWithin_zero _ f s) none _
      exact ⟨s, endsWithin_of_arg_error (Definition.name_ne sumDown_mem) hfn .nil hpred none []⟩
  | succ k ih =>
      obtain ⟨n, rfl⟩ := Nat.exists_eq_add_one_of_ne_zero (Nat.ne_zero_of_lt hn)
      refine sumDown_overflows_of_call (Nat.succ_ne_zero n) h ?_
      exact h.endsAs_call sumDown_mem rfl (.cons (h.predecessor_succ rfl rfl) .nil) rfl
        (ih (Nat.lt_of_succ_lt_succ hn))

end Loops

/-! ## Calls from the root frame -/

/-- Within a limit, a form ends in the root frame with a value or a fault, and the bindings there
    are afterwards what they were. -/
def EndsAtRoot (limit : Nat) (form : Value) (s : Store) (o : Store → Outcome Value) : Prop :=
  ∃ t, EndsWithin limit form Store.root s (o t) ∧ t.bindings Store.root = s.bindings Store.root

section Calls

variable {s : Store} {d : Definition} {numbers : List Int} {limit depth : Nat}
  {o : Store → Outcome Value}

/-- The call of a function for some numbers. -/
abbrev Definition.on (d : Definition) (numbers : List Int) : Value :=
  call d.name (numbers.map .int)

/-- A call defines nothing in the frame that it stands in. -/
theorem not_occurs_define (hd : d ∈ definitions) (numbers : List Int) :
    ¬ (d.on numbers).Occurs SpecialForm.define.name := by
  rw [Definition.on, call, Value.occurs_list_iff]
  rintro ⟨form, hmem, hoccurs⟩
  rcases List.mem_cons.mp hmem with rfl | hmem
  · exact Definition.name_ne hd .define (congrArg Value.sym (Value.occurs_sym_iff.mp hoccurs))
  · obtain ⟨n, -, rfl⟩ := List.mem_map.mp hmem
    exact nomatch hoccurs

theorem endsAtRoot_of_endsWithin (hs : Equipped s) (hd : d ∈ definitions)
    (ho : ∀ {x : Eval Value} {s t : Store}, x.run s = o t → x.after s = t) {t : Store}
    (h : EndsWithin limit (d.on numbers) Store.root s (o t)) :
    EndsAtRoot limit (d.on numbers) s o := by
  have hroot := hs.root_lt_size
  have hseals : (d.on numbers).Seals 1 s Store.root :=
    ⟨hroot, fun _ => not_occurs_define hd numbers⟩
  obtain ⟨-, n, hn⟩ := id h
  have hspares := spares_evaluate n limit hseals
  rw [ho (hn n (Nat.le_refl n))] at hspares
  refine ⟨t, h, ?_⟩
  rw [Store.bindings, hspares.frame hroot Store.root Nat.one_pos, Store.bindings]

theorem evaluatesEach_numbers (f : FrameId) (s : Store) (numbers : List Int) :
    EvaluatesEach (depth + 1) f s (numbers.map .int) (numbers.map .int) s := by
  induction numbers with
  | nil => exact .nil
  | cons n rest ih => exact .cons (endsWithin_self trivial) ih

/-- A call ends as the body of the function does for the numbers. -/
theorem endsAs_on (hs : Equipped s) (hd : d ∈ definitions) (numbers : List Int)
    (hlength : numbers.length = d.params.length)
    (hbody : ∀ {s' f'}, InCall d (numbers.map .int) s' f' → EndsAs (depth + 2) d.body f' s' o) :
    EndsAs (depth + 2) (d.on numbers) Store.root s o := by
  have hvalues : (numbers.map Value.int).length = d.params.length := by rwa [List.length_map]
  exact hs.sees_root.endsAs_call hd rfl (evaluatesEach_numbers _ _ numbers) hvalues hbody

theorem endsAtRoot_of_ends (hs : Equipped s) (hd : d ∈ definitions) (numbers : List Int)
    (hlength : numbers.length = d.params.length) {v : Value}
    (hbody : ∀ {s' f'}, InCall d (numbers.map .int) s' f' →
      EndsAs (depth + 2) d.body f' s' (.ok v)) :
    EndsAtRoot (depth + 2) (d.on numbers) s (.ok v) := by
  obtain ⟨t, ht⟩ := endsAs_on hs hd numbers hlength hbody
  exact endsAtRoot_of_endsWithin hs hd after_of_ok ht

/-- A call that overflows within some limit also overflows within a lower one. -/
theorem endsAtRoot_of_overflows (hs : Equipped s) (hd : d ∈ definitions) (numbers : List Int)
    (hlength : numbers.length = d.params.length) (hlimit : limit ≤ depth + 2)
    (hbody : ∀ {s' f'}, InCall d (numbers.map .int) s' f' →
      EndsAs (depth + 2) d.body f' s' (.error .stackOverflow)) :
    EndsAtRoot limit (d.on numbers) s (.error .stackOverflow) := by
  obtain ⟨t, ht⟩ := endsAs_on hs hd numbers hlength hbody
  rcases ht.or_overflows hlimit with hsame | ⟨t', hlower⟩
  · exact endsAtRoot_of_endsWithin hs hd after_of_error hsame
  · exact endsAtRoot_of_endsWithin hs hd after_of_error hlower

theorem natCast_triangle (n : Nat) : (triangle n : Int) = n * (n + 1) / 2 := by
  simp [triangle]

end Calls

/-- **Tail recursion runs in constant depth, and other recursion does not.**  After the
    definitions, whose texts are six levels deep, and whatever was called since, there is one
    limit within which the functions that call each other in tail position give the right result
    for every number.  The sum that is added up after the call overflows within any limit for all
    large numbers, and for any number is right within all large limits.  The bindings of the root
    frame stay as they are. -/
theorem tail_recursion_in_constant_depth (limits : Limits) (s : Store)
    (hdepth : 6 ≤ limits.depth) (hfuel : 0 < limits.fuel)
    (hnatives : ∀ b ∈ natives, (s.bindings Store.root).get? b.name = some (.builtin b)) :
    ∃ vs s', (definitions.mapM (Program.eval limits ·.source)).run s = .ok vs s' ∧
      (∃ K, ∀ t : Store, t.bindings Store.root = s'.bindings Store.root → ∀ (n : Nat) (acc : Int),
        EndsAtRoot K (call "sum-to" [.int n, .int acc]) t (.ok (.int (acc + n * (n + 1) / 2))) ∧
        EndsAtRoot K (call "count-down" [.int n]) t (.ok (.bool true)) ∧
        EndsAtRoot K (call "even?" [.int n]) t (.ok (.bool (n % 2 = 0))) ∧
        EndsAtRoot K (call "odd?" [.int n]) t (.ok (.bool (n % 2 = 1)))) ∧
      ∀ t : Store, t.bindings Store.root = s'.bindings Store.root →
        (∀ L, ∃ N, ∀ n : Nat, N ≤ n →
          EndsAtRoot L (call "sum-down" [.int n]) t (.error .stackOverflow)) ∧
        ∀ n : Nat, ∃ L₀, ∀ L, L₀ ≤ L →
          EndsAtRoot L (call "sum-down" [.int n]) t (.ok (.int (n * (n + 1) / 2))) := by
  have hroot := root_lt_size (hnatives .equal (by decide))
  obtain ⟨vs, s', hrun, hclosures, hothers⟩ :=
    runs_definitions hdepth hfuel (fun _ hd => hd) (by decide) hroot
  have hs : Equipped s' := by
    refine ⟨fun b hb => ?_, hclosures⟩
    have hother : b.name ∉ definitions.map (·.name) := by
      revert b
      decide
    rw [hothers b.name hother, hnatives b hb]
  refine ⟨vs, s', hrun, ⟨3, fun t ht n acc => ?_⟩, fun t ht => ⟨fun L => ⟨L + 1, ?_⟩, fun n => ?_⟩⟩
  · have hequipped := hs.congr ht
    refine ⟨?_, ?_, ?_, ?_⟩
    · rw [← natCast_triangle]
      exact endsAtRoot_of_ends hequipped sumTo_mem [n, acc] rfl (sumTo_ends n acc)
    · exact endsAtRoot_of_ends hequipped countDown_mem [n] rfl (countDown_ends n)
    · have hvalue : decide (n % 2 = 0) = ((n % 2 == 0) == true) := by
        simp [beq_eq_decide]
      rw [hvalue]
      exact endsAtRoot_of_ends hequipped (parity_mem true) [n] rfl (parity_ends n true)
    · have hvalue : decide (n % 2 = 1) = ((n % 2 == 0) == false) := by
        rcases Nat.mod_two_eq_zero_or_one n with hn | hn
        · simp [hn]
        · simp [hn]
      rw [hvalue]
      exact endsAtRoot_of_ends hequipped (parity_mem false) [n] rfl (parity_ends n false)
  · intro n hn
    exact endsAtRoot_of_overflows (hs.congr ht) sumDown_mem [n] rfl (by omega)
      (sumDown_overflows hn)
  · refine ⟨n + 3, fun L hL => ?_⟩
    obtain ⟨depth, rfl⟩ := Nat.exists_eq_add_of_le hL
    rw [← natCast_triangle, Nat.add_right_comm n 3 depth]
    exact endsAtRoot_of_ends (hs.congr ht) sumDown_mem [n] rfl (sumDown_ends n)

/-- The functions in a session that has the built-in prelude. -/
theorem tail_recursion_in_constant_depth_of_session :
    let s := (Session.start .standard (some Prelude.core)).store
    ∃ vs s', (definitions.mapM (Program.eval .standard ·.source)).run s = .ok vs s' ∧
      (∃ K,
        EndsAtRoot K (call "sum-to" [.int 50000, .int 0]) s' (.ok (.int 1250025000)) ∧
        EndsAtRoot K (call "count-down" [.int 20000]) s' (.ok (.bool true)) ∧
        EndsAtRoot K (call "even?" [.int 30001]) s' (.ok (.bool false))) ∧
      ∃ n : Nat, EndsAtRoot Limits.standard.depth (call "sum-down" [.int n]) s'
        (.error .stackOverflow) := by
  intro s
  have hnatives : ∀ b ∈ natives, (s.bindings Store.root).get? b.name = some (.builtin b) := by
    decide +kernel
  obtain ⟨vs, s', hrun, ⟨K, htail⟩, hother⟩ :=
    tail_recursion_in_constant_depth .standard s (by decide) (by decide) hnatives
  obtain ⟨N, hover⟩ := (hother s' rfl).1 Limits.standard.depth
  exact ⟨vs, s', hrun, ⟨K, (htail s' rfl 50000 0).1, (htail s' rfl 20000 0).2.1,
    (htail s' rfl 30001 0).2.2.1⟩, N, hover N (Nat.le_refl N)⟩

end TailLisp.TailRecursion
