/-!
# Numerals

Decimal numerals as they are written in output and read from source.

* `Text.intText`, `Text.zeroPadded`, `Text.hexByte` write numbers; `Text.padRight` fills a column.
* `Text.digitsValue?` reads a run of ASCII digits, `Text.int32OfText?` a signed 32-bit number and
  `Text.natOfText?` a natural number below a bound, each with an optional sign.
* `Text.isNumeral` is the narrower form that a source operand may have.
-/

namespace RegisterLang.Text

/-! ## Writing -/

/-- Decimal text of an integer, with `-` before a negative one. -/
def intText : Int → String
  | .ofNat n => n.repr
  | .negSucc n => "-" ++ (n + 1).repr

/-- Decimal text, filled with zeros on the left up to the width. -/
def zeroPadded (width n : Nat) : String :=
  String.ofList (List.replicate (width - n.repr.length) '0') ++ n.repr

/-- The text, filled with spaces on the right up to the width. -/
def padRight (width : Nat) (text : String) : String :=
  text ++ String.ofList (List.replicate (width - text.length) ' ')

/-- Two hexadecimal digits, letters in lower case. -/
def hexByte (b : UInt8) : String :=
  String.ofList [Nat.digitChar (b.toNat / 16), Nat.digitChar (b.toNat % 16)]

/-! ## Reading -/

/-- The value of one or more ASCII digits; leading zeros are allowed. -/
def digitsValue? (digits : List Char) : Option Nat :=
  if digits ≠ [] ∧ digits.all Char.isDigit then some (Nat.ofDigitChars 10 digits 0) else none

/-- An integer: an optional `+` or `-`, then digits. -/
def intOfText? (text : String) : Option Int :=
  match text.toList with
  | '-' :: digits => (digitsValue? digits).map fun n => -(n : Int)
  | '+' :: digits => (digitsValue? digits).map Int.ofNat
  | digits => (digitsValue? digits).map Int.ofNat

/-- The integer as a signed 32-bit word, if it fits. -/
def int32OfInt? (n : Int) : Option Int32 :=
  if -0x80000000 ≤ n ∧ n < 0x80000000 then some (Int32.ofInt n) else none

/-- A signed numeral that fits in 32 bits. -/
def int32OfText? (text : String) : Option Int32 := (intOfText? text).bind int32OfInt?

/-- A natural number below the bound, with an optional `+`. -/
def natOfText? (bound : Nat) (text : String) : Option Nat :=
  let digits := match text.toList with
    | '+' :: digits => digits
    | digits => digits
  (digitsValue? digits).filter (· < bound)

/-- Whether a source operand is a numeral: an optional `-`, then one or more digits. -/
def isNumeral (text : String) : Bool :=
  match text.toList with
  | '-' :: digits => !digits.isEmpty && digits.all Char.isDigit
  | digits => !digits.isEmpty && digits.all Char.isDigit

end RegisterLang.Text
