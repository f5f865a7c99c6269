/-! # Blanks — the characters that only separate

    The set is the one of Unicode white space together with the four
    information separators U+001C to U+001F. -/

namespace TailLisp.Text

/-- The blank characters. -/
def isBlank (c : Char) : Bool :=
  let n := c.toNat
  (0x09 ≤ n && n ≤ 0x0D) || (0x1C ≤ n && n ≤ 0x20) || n == 0x85 || n == 0xA0 || n == 0x1680 ||
    (0x2000 ≤ n && n ≤ 0x200A) || n == 0x2028 || n == 0x2029 || n == 0x202F || n == 0x205F ||
    n == 0x3000

/-- A list without the elements for which `p` holds at either end. -/
def trim {α : Type} (p : α → Bool) (xs : List α) : List α :=
  ((xs.dropWhile p).reverse.dropWhile p).reverse

end TailLisp.Text
