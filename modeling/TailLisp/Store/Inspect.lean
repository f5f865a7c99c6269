import TailLisp.Store
import TailLisp.Value.Inspect

/-! # Inspecting frames — bindings as they are shown to a programmer

    A frame shows its own bindings and whether there is a frame around it; a
    chain shows every frame but the root in full. -/

namespace TailLisp

/-- Bindings in braces, in their order. -/
def Bindings.inspect (room : Nat) (bindings : Bindings) : Except Fault String := do
  let entries ← bindings.mapM fun (name, value) => do
    return name ++ ": " ++ (← value.inspect room)
  return "\x7b" ++ ", ".intercalate entries ++ "\x7d"

namespace Store

/-- A frame by itself. -/
def inspectFrame (s : Store) (room : Nat) (f : FrameId) : Except Fault String := do
  let own ← (s.bindings f).inspect room
  return if (s.outer? f).isSome then own ++ " -> ..." else own

/-- One frame of a chain. -/
def inspectLink (s : Store) (room : Nat) (f : FrameId) : Except Fault String :=
  if (s.outer? f).isSome then (s.bindings f).inspect room
  else .ok ("<root: " ++ (s.bindings f).length.repr ++ " bindings>")

/-- A frame with all frames around it. -/
def inspectChain (s : Store) (room : Nat) (f : FrameId) : Except Fault String := do
  let links ← (s.chain f).mapM (s.inspectLink room)
  return "<Environment chain: " ++ " -> ".intercalate links ++ ">"

end Store

end TailLisp
