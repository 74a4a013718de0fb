/-!
# Blank characters

The characters that count as white space when a setting is read, and the removal of blanks from
both ends of a text.

## Main definitions

* `Text.isBlank` — the white space characters of the Unicode property `White_Space`.
* `Text.trim` — a text without its leading and trailing blanks.
-/

set_option autoImplicit false

namespace Pointwise.Text

/-- The ranges of the Unicode property `White_Space`, ascending, both ends included. -/
def blankRanges : List (Nat × Nat) :=
  [(0x09, 0x0d), (0x20, 0x20), (0x85, 0x85), (0xa0, 0xa0), (0x1680, 0x1680), (0x2000, 0x200a),
    (0x2028, 0x2029), (0x202f, 0x202f), (0x205f, 0x205f), (0x3000, 0x3000)]

/-- Whether a character is white space. -/
def isBlank (c : Char) : Bool :=
  blankRanges.any fun range => range.1 ≤ c.toNat && c.toNat ≤ range.2

/-- A text without its leading and trailing blanks. -/
def trim (text : List Char) : List Char :=
  ((text.dropWhile isBlank).reverse.dropWhile isBlank).reverse

end Pointwise.Text
