/-! # Limits — how deep and how long a program may run

    One depth bounds the nested levels of reading, printing, comparing and
    evaluating alike.  It follows from a recursion limit, which counts single
    calls: a level is worth four of them.  The fuel is more than any program uses
    up in a lifetime. -/

namespace TailLisp

/-- The nested levels allowed, and the length of each chain of tail calls. -/
structure Limits where
  depth : Nat
  fuel : Nat

namespace Limits

/-- The limits that go with a recursion limit. -/
def ofRecursionLimit (n : Nat) : Limits where
  depth := n / 4
  fuel := Nat.pow 2 62

/-- The limits of a session that was given none. -/
def standard : Limits := ofRecursionLimit 1000

end Limits

end TailLisp
