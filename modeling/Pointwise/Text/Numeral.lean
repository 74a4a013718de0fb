/-!
# Counts and names in settings

A count is written in decimal, with an optional plus sign in front. A name is matched without
regard to the case of its ASCII letters.

## Main definitions

* `Text.readCount` — the count that a numeral denotes, if it is one and fits 64 bits.
* `Text.sameName` — equality up to the case of ASCII letters.
-/

set_option autoImplicit false

namespace Pointwise.Text

/-- The value of a digit. -/
def digitValue (c : Char) : Nat := c.toNat - '0'.toNat

/-- The value of a row of digits, most significant first. -/
def digitsValue (digits : List Char) : Nat :=
  digits.foldl (fun value c => 10 * value + digitValue c) 0

/-- The count that a numeral denotes: at least one digit after an optional plus sign, and a value
below `2 ^ 64`. -/
def readCount (text : List Char) : Option Nat :=
  let digits := match text with
    | '+' :: rest => rest
    | _ => text
  if digits.isEmpty || !digits.all Char.isDigit then none
  else
    let value := digitsValue digits
    if value < 0x10000000000000000 then some value else none

/-- Whether two names are equal up to the case of ASCII letters. -/
def sameName (left right : List Char) : Bool :=
  left.map Char.toLower == right.map Char.toLower

end Pointwise.Text
