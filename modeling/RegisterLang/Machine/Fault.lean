import RegisterLang.Operator

/-!
# Faults of a run

A fault stops a run at an instruction. `Fault.message` is the text that reports it, and
`Fault.address?` the address of the instruction; the step limit concerns the run as a whole and
names none.
-/

namespace RegisterLang

/-- The number of registers of a machine. -/
def registerCount : Nat := 256

/-- What stops a run. -/
inductive Fault
  | registerOutOfRange (address slot : Nat)
  | divisionByZero (address : Nat) (op : Operator)
  | jumpOutOfRange (address target size : Nat)
  | overflow (address : Nat) (op : Operator)
  | stepLimitExceeded (limit : Nat)
deriving DecidableEq, Repr

namespace Fault

/-- The address of the instruction at fault. -/
def address? : Fault → Option Nat
  | registerOutOfRange address _ => some address
  | divisionByZero address _ => some address
  | jumpOutOfRange address _ _ => some address
  | overflow address _ => some address
  | stepLimitExceeded _ => none

/-- The text that reports the fault. -/
def message : Fault → String
  | registerOutOfRange address slot =>
    "runtime error: pc " ++ address.repr ++ ": register r" ++ slot.repr ++ " out of range (0.."
      ++ registerCount.repr ++ ")"
  | divisionByZero address op =>
    "runtime error: pc " ++ address.repr ++ ": " ++ op.mnemonic ++ " by zero"
  | jumpOutOfRange address target size =>
    "runtime error: pc " ++ address.repr ++ ": jump target " ++ target.repr
      ++ " outside program of " ++ size.repr ++ " instructions"
  | overflow address op =>
    "runtime error: pc " ++ address.repr ++ ": " ++ op.mnemonic ++ " overflowed"
  | stepLimitExceeded limit =>
    "runtime error: execution step limit exceeded (" ++ limit.repr ++ ")"

end Fault

end RegisterLang
