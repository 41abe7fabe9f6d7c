import RegisterLang.Instr
import RegisterLang.Machine.Arithmetic
import RegisterLang.Machine.Fault

/-!
# The register machine

A machine has 256 registers, a flag that comparisons set, the address of the next instruction and
a count of the instructions begun.

* `Machine.effect` decides what an instruction does: one change to the machine, the end of the run,
  or a fault. It changes nothing, so a fault leaves the machine as it was.
* `Machine.apply` carries out the change.
-/

namespace RegisterLang

/-- The state of the register machine. -/
structure Machine where
  registers : Vector Int64 registerCount
  flag : Bool
  address : Nat
  steps : Nat
deriving DecidableEq, Repr

/-- What an instruction does. -/
inductive Effect
  /-- Stores a value and goes on. -/
  | store (slot : Fin registerCount) (value : Int64)
  /-- Sets the flag and goes on. -/
  | setFlag (value : Bool)
  /-- Goes to an address. -/
  | moveTo (address : Nat)
  /-- Ends the run with a value. -/
  | halt (value : Int64)
deriving DecidableEq, Repr

namespace Machine

/-- The machine before a run. -/
def initial : Machine := ⟨Vector.replicate registerCount 0, false, 0, 0⟩

/-! ## Operands and destinations -/

/-- The value of a register. -/
def read (m : Machine) (slot : Nat) : Except Fault Int64 :=
  if h : slot < registerCount then .ok m.registers[slot]
  else .error (.registerOutOfRange m.address slot)

/-- The value of an operand. -/
def value (m : Machine) : Operand → Except Fault Int64
  | .literal n => .ok n.toInt64
  | .slot index => m.read index

/-- The effect of storing a value. -/
def storing (m : Machine) (slot : Nat) (value : Int64) : Except Fault Effect :=
  if h : slot < registerCount then .ok (.store ⟨slot, h⟩ value)
  else .error (.registerOutOfRange m.address slot)

/-- The effect of a jump. The target may be the end of the program but not lie beyond it. -/
def jumping (m : Machine) (size target : Nat) : Except Fault Effect :=
  if target ≤ size then .ok (.moveTo target)
  else .error (.jumpOutOfRange m.address target size)

/-- The two values of an arithmetic instruction. A divisor is read first and must not be zero. -/
def arguments (m : Machine) (op : Operator) (lhs rhs : Operand) : Except Fault (Int64 × Int64) :=
  if op.divides then do
    let b ← m.value rhs
    if b = 0 then .error (.divisionByZero m.address op)
    else
      let a ← m.value lhs
      .ok (a, b)
  else do
    let a ← m.value lhs
    let b ← m.value rhs
    .ok (a, b)

/-! ## One instruction -/

/-- What an instruction does in a program of the given size. -/
def effect (m : Machine) (size : Nat) : Instr → Except Fault Effect
  | .set dest constant => m.storing dest constant.toInt64
  | .arith op dest lhs rhs => do
    let (a, b) ← m.arguments op lhs rhs
    match op.apply? a b with
    | none => .error (.overflow m.address op)
    | some result => m.storing dest result
  | .compare relation lhs rhs => do
    let a ← m.value lhs
    let b ← m.value rhs
    .ok (.setFlag (relation.holds a b))
  | .jumpIfFalse target => if m.flag then .ok (.moveTo (m.address + 1)) else m.jumping size target
  | .jump target => m.jumping size target
  | .ret source => do
    let result ← m.read source
    .ok (.halt result)

/-- The machine after an effect. -/
def apply (m : Machine) : Effect → Machine
  | .store slot value =>
    { m with registers := m.registers.set slot value, address := m.address + 1 }
  | .setFlag value => { m with flag := value, address := m.address + 1 }
  | .moveTo address => { m with address := address }
  | .halt _ => m

end Machine

end RegisterLang
