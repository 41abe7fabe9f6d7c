/-!
# Blank characters

Blanks separate the words of a source text and are otherwise skipped.

* `Text.within` tests a character against a list of code point ranges.
* `Text.isBlank` is the Unicode property White_Space.
-/

namespace RegisterLang.Text

/-- Whether the character lies in one of the ranges, both ends included. -/
def within (ranges : List (Nat × Nat)) (c : Char) : Bool :=
  ranges.any fun r => r.1 ≤ c.toNat && c.toNat ≤ r.2

/-- The code points with the property White_Space. -/
def blankRanges : List (Nat × Nat) :=
  [(0x0009, 0x000D), (0x0020, 0x0020), (0x0085, 0x0085), (0x00A0, 0x00A0), (0x1680, 0x1680),
   (0x2000, 0x200A), (0x2028, 0x2029), (0x202F, 0x202F), (0x205F, 0x205F), (0x3000, 0x3000)]

/-- White space: what may stand between two words. -/
def isBlank (c : Char) : Bool := within blankRanges c

end RegisterLang.Text
