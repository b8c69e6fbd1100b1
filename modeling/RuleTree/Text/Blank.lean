/-!
# White space

Two sets of blanks are in use: the White_Space property of the Unicode standard, which trimming
removes, and the four blanks that separate the parts of a tag in markup.
-/

namespace RuleTree.Text

/-- The White_Space property. -/
def isBlank (c : Char) : Bool :=
  let n := c.toNat
  (9 ≤ n && n ≤ 13) || n == 0x20 || n == 0x85 || n == 0xA0 || n == 0x1680
    || (0x2000 ≤ n && n ≤ 0x200A) || n == 0x2028 || n == 0x2029 || n == 0x202F || n == 0x205F
    || n == 0x3000

/-- Space, tab, carriage return and line feed. -/
def isMarkupBlank (c : Char) : Bool := c == ' ' || c == '\t' || c == '\r' || c == '\n'

/-- Drops blanks at the front. -/
def trimLeft (text : List Char) : List Char := text.dropWhile isBlank

/-- Drops blanks at both ends. -/
def trim (text : List Char) : List Char := (trimLeft (trimLeft text).reverse).reverse

end RuleTree.Text
