import RegisterLang.Operator
import RegisterLang.Relation
import RegisterLang.Text.Numeral

/-!
# Instructions

A program is a list of instructions; the address of an instruction is its index.

* `Operand`: a literal or the value of a slot.
* `Instr`: the instruction set.
* `Opcode`: the kind of an instruction, with its number, its count of operand words and its
  mnemonic.
-/

namespace RegisterLang

/-- A value that an instruction reads: a constant, or the register of a slot. -/
inductive Operand
  | literal (value : Int32)
  | slot (index : Nat)
deriving DecidableEq, Repr

namespace Operand

/-- Whether the operand is a constant. -/
def isLiteral : Operand → Bool
  | literal _ => true
  | slot _ => false

/-- Text without symbol names: `#5` for a constant, `r5` for a slot. -/
def text : Operand → String
  | literal value => "#" ++ Text.intText value.toInt
  | slot index => "r" ++ index.repr

end Operand

/-- One instruction of the register machine. Jump targets are absolute addresses. -/
inductive Instr
  /-- Stores a constant. -/
  | set (dest : Nat) (value : Int32)
  /-- Stores the result of an arithmetic operation. -/
  | arith (op : Operator) (dest : Nat) (lhs rhs : Operand)
  /-- Sets the flag to the truth of a relation. -/
  | compare (relation : Relation) (lhs rhs : Operand)
  /-- Jumps when the flag is down. -/
  | jumpIfFalse (target : Nat)
  /-- Jumps always. -/
  | jump (target : Nat)
  /-- Ends the run with the value of a slot. -/
  | ret (source : Nat)
deriving DecidableEq, Repr

/-- A program: an instruction's address is its index. -/
abbrev Program := List Instr

/-- The kind of an instruction. -/
inductive Opcode
  | set
  | arith (op : Operator)
  | compare
  | jumpIfFalse
  | jump
  | ret
deriving DecidableEq, Repr

namespace Opcode

/-- The opcode's number in an encoded program. -/
def number : Opcode → Nat
  | set => 0
  | arith .add => 1
  | arith .sub => 2
  | arith .mul => 3
  | arith .div => 4
  | arith .mod => 5
  | compare => 6
  | jumpIfFalse => 7
  | jump => 8
  | ret => 9

/-- The opcode with the given number. -/
def ofNumber? : Nat → Option Opcode
  | 0 => some set
  | 1 => some (arith .add)
  | 2 => some (arith .sub)
  | 3 => some (arith .mul)
  | 4 => some (arith .div)
  | 5 => some (arith .mod)
  | 6 => some compare
  | 7 => some jumpIfFalse
  | 8 => some jump
  | 9 => some ret
  | _ => none

/-- How many operand words follow the opcode in an encoded program. -/
def arity : Opcode → Nat
  | set => 2
  | arith _ | compare => 3
  | jumpIfFalse | jump | ret => 1

/-- Whether the opcode takes two operands, each a literal or a slot. -/
def hasOperands : Opcode → Bool
  | arith _ | compare => true
  | _ => false

/-- The opcode's name in listings and messages. -/
def mnemonic : Opcode → String
  | set => "SET"
  | arith op => op.mnemonic
  | compare => "CMP"
  | jumpIfFalse => "JUMP_IF_FALSE"
  | jump => "JUMP"
  | ret => "RETURN"

theorem ofNumber?_number (o : Opcode) : ofNumber? o.number = some o := by
  cases o with
  | arith op => cases op <;> rfl
  | _ => rfl

end Opcode

namespace Instr

/-- The kind of the instruction. -/
def opcode : Instr → Opcode
  | set .. => .set
  | arith op .. => .arith op
  | compare .. => .compare
  | jumpIfFalse _ => .jumpIfFalse
  | jump _ => .jump
  | ret _ => .ret

/-- The address that a jump names. -/
def jumpTarget? : Instr → Option Nat
  | jumpIfFalse target | jump target => some target
  | _ => none

/-- The two operands of an arithmetic or comparing instruction. -/
def operands : Instr → List Operand
  | arith _ _ lhs rhs | compare _ lhs rhs => [lhs, rhs]
  | _ => []

end Instr

end RegisterLang
