import RegisterLang.Operator

/-!
# Arithmetic on register values

Registers hold signed 64-bit numbers. An operation gives the exact result over the integers, or no
result when that does not fit.

* `narrow?` takes an integer back to a register value.
* `quotient?` and `remainder?` divide words toward zero, where they can be divided.
* `floorDiv?` rounds the quotient toward negative infinity, `floorMod?` gives the matching
  remainder, which has the sign of the divisor. Division of words rounds toward zero, so both
  correct its result by one divisor when the signs differ and the division is not exact.
* `Operator.apply?` is the meaning of the five operators.
-/

namespace RegisterLang

namespace Arithmetic

/-- The integer as a register value, if it fits. -/
def narrow? (n : Int) : Option Int64 :=
  if -0x8000000000000000 ≤ n ∧ n < 0x8000000000000000 then some (Int64.ofInt n) else none

/-- The words can be divided: the divisor is not zero, and it is not the least value divided by -1, whose
quotient does not fit. -/
def Divisible (a b : Int64) : Prop := ¬ (b = 0 ∨ (a = Int64.minValue ∧ b = -1))

instance (a b : Int64) : Decidable (Divisible a b) := inferInstanceAs (Decidable (¬ _))

/-- The quotient rounded toward zero, where the words can be divided. -/
def quotient? (a b : Int64) : Option Int64 := if Divisible a b then some (a / b) else none

/-- The remainder of `quotient?`, none where that is none. -/
def remainder? (a b : Int64) : Option Int64 := if Divisible a b then some (a % b) else none

/-- The quotient rounded toward negative infinity: none for a zero divisor, and none for the one
quotient that does not fit. -/
def floorDiv? (a b : Int64) : Option Int64 := do
  let q ← quotient? a b
  let r ← remainder? a b
  if r ≠ 0 ∧ (decide (a < 0) ≠ decide (b < 0)) then narrow? (q.toInt - 1) else some q

/-- The remainder of `floorDiv?`: none only for a zero divisor. The divisor -1 leaves nothing over, also
where the quotient does not fit. -/
def floorMod? (a b : Int64) : Option Int64 :=
  if b = -1 then some 0
  else do
    let r ← remainder? a b
    if r ≠ 0 ∧ (decide (r < 0) ≠ decide (b < 0)) then some (r + b) else some r

end Arithmetic

open Arithmetic in
/-- The result of an operator on two register values; none when it does not fit or the divisor is
zero. -/
def Operator.apply? : Operator → Int64 → Int64 → Option Int64
  | .add, a, b => narrow? (a.toInt + b.toInt)
  | .sub, a, b => narrow? (a.toInt - b.toInt)
  | .mul, a, b => narrow? (a.toInt * b.toInt)
  | .div, a, b => floorDiv? a b
  | .mod, a, b => floorMod? a b

end RegisterLang
