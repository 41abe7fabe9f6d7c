/-!
# Operators

The five arithmetic operators of an assignment, with their signs in source text and their names in
listings and messages. Their meaning is `Operator.apply?`.
-/

namespace RegisterLang

/-- Arithmetic operator of an assignment. -/
inductive Operator
  | add | sub | mul | div | mod
deriving DecidableEq, Repr

namespace Operator

/-- The operator's sign in source text. -/
def symbol : Operator → Char
  | add => '+'
  | sub => '-'
  | mul => '*'
  | div => '/'
  | mod => '%'

/-- The operator with the given sign. -/
def ofSymbol? : Char → Option Operator
  | '+' => some add
  | '-' => some sub
  | '*' => some mul
  | '/' => some div
  | '%' => some mod
  | _ => none

/-- The operator's name in listings and messages. -/
def mnemonic : Operator → String
  | add => "ADD"
  | sub => "SUB"
  | mul => "MUL"
  | div => "DIV"
  | mod => "MOD"

/-- Whether the right operand is a divisor, which must not be zero. -/
def divides : Operator → Bool
  | div | mod => true
  | _ => false

theorem ofSymbol?_symbol (op : Operator) : ofSymbol? op.symbol = some op := by cases op <;> rfl

end Operator

end RegisterLang
