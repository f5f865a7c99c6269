import TailLisp.Eval.Step

/-! # Runs — forms evaluated to the end

    `follow` repeats steps for as long as there is a form left to do in place of
    the last one.  `evaluate` ties the knot: what a step needs on the way is again
    a run, one level deeper.  So depth counts nested evaluations only, and a
    chain of tail calls costs no depth however long it is.

    Fuel bounds the length of each chain and makes the definition total. -/

namespace TailLisp.Eval

/-- Repeats a step until it yields a value. -/
def follow (step : Value → FrameId → Eval Step) : Nat → Evaluator
  | 0, _, _ => throw .outOfFuel
  | fuel + 1, form, frame => do
    match ← step form frame with
    | .value v => return v
    | .tail form frame => follow step fuel form frame

/-- Evaluates a form in a frame, with at most `depth` evaluations inside each other. -/
def evaluate (fuel : Nat) : Nat → Evaluator
  | 0, _, _ => throw .stackOverflow
  | depth + 1, form, frame => follow (step (evaluate fuel depth) depth) fuel form frame

end TailLisp.Eval
