/-!
# Relations

The six relations of a condition, with their signs in source text, their numbers in an encoded program
and their meaning on register values, which is their meaning on the integers.
-/

namespace RegisterLang

/-- Relation between two values in a condition. -/
inductive Relation
  | eq | ne | lt | le | gt | ge
deriving DecidableEq, Repr

namespace Relation

/-- The relation's sign in source text. -/
def symbol : Relation → String
  | eq => "=="
  | ne => "!="
  | lt => "<"
  | le => "<="
  | gt => ">"
  | ge => ">="

/-- The relation with the given sign. -/
def ofSymbol? : String → Option Relation
  | "==" => some eq
  | "!=" => some ne
  | "<" => some lt
  | "<=" => some le
  | ">" => some gt
  | ">=" => some ge
  | _ => none

/-- The relation's number in an encoded program. -/
def code : Relation → Int32
  | eq => 0
  | ne => 1
  | lt => 2
  | le => 3
  | gt => 4
  | ge => 5

/-- The relation with the given number. -/
def ofCode? (n : Int32) : Option Relation :=
  if n = 0 then some eq
  else if n = 1 then some ne
  else if n = 2 then some lt
  else if n = 3 then some le
  else if n = 4 then some gt
  else if n = 5 then some ge
  else none

/-- The relation between two integers. -/
def Relates : Relation → Int → Int → Prop
  | eq, a, b => a = b
  | ne, a, b => a ≠ b
  | lt, a, b => a < b
  | le, a, b => a ≤ b
  | gt, a, b => a > b
  | ge, a, b => a ≥ b

instance : (r : Relation) → (a b : Int) → Decidable (r.Relates a b)
  | eq, a, b => inferInstanceAs (Decidable (a = b))
  | ne, a, b => inferInstanceAs (Decidable (a ≠ b))
  | lt, a, b => inferInstanceAs (Decidable (a < b))
  | le, a, b => inferInstanceAs (Decidable (a ≤ b))
  | gt, a, b => inferInstanceAs (Decidable (a > b))
  | ge, a, b => inferInstanceAs (Decidable (a ≥ b))

/-- Whether the relation holds between two values. -/
def holds : Relation → Int64 → Int64 → Bool
  | eq, a, b => a = b
  | ne, a, b => a ≠ b
  | lt, a, b => a < b
  | le, a, b => a ≤ b
  | gt, a, b => b < a
  | ge, a, b => b ≤ a

theorem ofSymbol?_symbol (r : Relation) : ofSymbol? r.symbol = some r := by cases r <;> rfl

/-- **A relation holds between two values exactly if it holds between the integers.** -/
theorem holds_iff {r : Relation} {a b : Int64} : r.holds a b = true ↔ r.Relates a.toInt b.toInt := by
  cases r with
  | eq => simp only [holds, Relates, decide_eq_true_eq, Int64.toInt_inj]
  | ne => simp only [holds, Relates, decide_eq_true_eq, ne_eq, Int64.toInt_inj]
  | lt => simp only [holds, Relates, decide_eq_true_eq, Int64.lt_iff_toInt_lt]
  | le => simp only [holds, Relates, decide_eq_true_eq, Int64.le_iff_toInt_le]
  | gt => simp only [holds, Relates, decide_eq_true_eq, Int64.lt_iff_toInt_lt, gt_iff_lt]
  | ge => simp only [holds, Relates, decide_eq_true_eq, Int64.le_iff_toInt_le, ge_iff_le]

theorem ofCode?_code (r : Relation) : ofCode? r.code = some r := by cases r <;> decide

end Relation

end RegisterLang
