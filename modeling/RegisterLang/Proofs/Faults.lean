import RegisterLang.Proofs.Exactness
import RegisterLang.Proofs.Results
import RegisterLang.Proofs.Runs

/-!
# Faults

Why an instruction faults, and what a fault leaves behind. A fault is found before anything is changed, so
it names the instruction at fault and leaves the machine as that instruction found it.

* `Machine.arithFault?`, `Operator.checks`: the checks of an arithmetic instruction and their order.
* `Machine.effect_arith_cases`: an arithmetic instruction faults by its first check that fails, or stores.
* `Machine.step_arith_exact`: every arithmetic instruction gives the exact result or its fault.
* `Machine.Justifies`: what an instruction and a machine must be like for a fault, and
  `Machine.justifies_of_effect`, which says that every fault is so.
* `Machine.address_of_step`: where an instruction leads.
* `Program.run_precise`: where runs end, and with which machine.
-/

namespace RegisterLang

/-! ## Operands -/

/-- The slot that the operand reads. -/
def Operand.slots : Operand → List Nat
  | literal _ => []
  | slot index => [index]

/-- The slots that the instruction reads or writes. -/
def Instr.slots : Instr → List Nat
  | set dest _ => [dest]
  | arith _ dest lhs rhs => dest :: (lhs.slots ++ rhs.slots)
  | compare _ lhs rhs => lhs.slots ++ rhs.slots
  | jumpIfFalse _ | jump _ => []
  | ret source => [source]

namespace Machine

/-- The integer that an operand stands for, if it is a literal or there is a register for it. -/
def number? (m : Machine) : Operand → Option Int
  | .literal n => some n.toInt
  | .slot index => m.registers[index]?.map Int64.toInt

/-- The fault of a slot for which there is no register. -/
def slotFault? (m : Machine) (slot : Nat) : Option Fault :=
  if slot < registerCount then none else some (.registerOutOfRange m.address slot)

/-- The fault of an operand that cannot be read. -/
def operandFault? (m : Machine) : Operand → Option Fault
  | .literal _ => none
  | .slot index => m.slotFault? index

/-- The fault reports one of the slots, for which there is no register. -/
def OutOfRange (m : Machine) (slots : List Nat) (fault : Fault) : Prop :=
  ∃ slot ∈ slots, registerCount ≤ slot ∧ fault = .registerOutOfRange m.address slot

theorem OutOfRange.mono {m : Machine} {slots more : List Nat} {fault : Fault}
    (h : m.OutOfRange slots fault) (hslots : slots ⊆ more) : m.OutOfRange more fault := by
  obtain ⟨slot, hmem, hcount, hfault⟩ := h
  exact ⟨slot, hslots hmem, hcount, hfault⟩

/-- An operand has a value, or there is no register for it. -/
theorem value_cases (m : Machine) (o : Operand) :
    (∃ a, m.value o = .ok a ∧ m.number? o = some a.toInt ∧ m.operandFault? o = none)
      ∨ ∃ fault, m.value o = .error fault ∧ m.number? o = none ∧ m.operandFault? o = some fault := by
  cases o with
  | literal n => exact .inl ⟨n.toInt64, rfl, by simp [number?], rfl⟩
  | slot index =>
    by_cases h : index < registerCount
    · left
      refine ⟨m.registers[index], dif_pos h, ?_, if_pos h⟩
      simp [number?, h]
    · right
      refine ⟨.registerOutOfRange m.address index, dif_neg h, ?_, if_neg h⟩
      simp [number?, h]

theorem operandFault?_eq_none {m : Machine} {o : Operand} {a : Int} (h : m.number? o = some a) :
    m.operandFault? o = none := by
  rcases m.value_cases o with ⟨_, -, -, hread⟩ | ⟨fault, -, hnone, -⟩
  · exact hread
  · rw [hnone] at h
    cases h

theorem slotFault?_eq_some {m : Machine} {slot : Nat} {fault : Fault}
    (h : m.slotFault? slot = some fault) : m.OutOfRange [slot] fault := by
  unfold slotFault? at h
  split at h
  · cases h
  · rename_i hcount
    cases h
    exact ⟨slot, List.mem_singleton_self _, Nat.le_of_not_lt hcount, rfl⟩

theorem operandFault?_eq_some {m : Machine} {o : Operand} {fault : Fault}
    (h : m.operandFault? o = some fault) : m.OutOfRange o.slots fault := by
  cases o with
  | literal n => cases h
  | slot index => exact slotFault?_eq_some h

theorem value_eq_error {m : Machine} {o : Operand} {fault : Fault} (h : m.value o = .error fault) :
    m.OutOfRange o.slots fault := by
  rcases m.value_cases o with ⟨_, hvalue, -, -⟩ | ⟨_, hvalue, -, hfault⟩
  · rw [hvalue] at h
    cases h
  · rw [hvalue] at h
    cases h
    exact operandFault?_eq_some hfault

theorem storing_eq_error {m : Machine} {slot : Nat} {value : Int64} {fault : Fault}
    (h : m.storing slot value = .error fault) : m.OutOfRange [slot] fault := by
  unfold storing at h
  split at h
  · cases h
  · rename_i hcount
    cases h
    exact ⟨slot, List.mem_singleton_self _, Nat.le_of_not_lt hcount, rfl⟩

end Machine

/-! ## Arithmetic instructions -/

namespace Operator

/-- What an arithmetic instruction is checked for. -/
inductive Check
  | lhs | rhs | divisor | result | dest
deriving DecidableEq, Repr

/-- The checks of an arithmetic instruction in their order. A divisor comes before the number that it
divides. -/
def checks (op : Operator) : List Check :=
  if op.divides then [.rhs, .divisor, .lhs, .result, .dest] else [.lhs, .rhs, .result, .dest]

end Operator

namespace Machine

open Arithmetic

variable {code : Array Instr} {limit : Option Nat}

/-- What a check of an arithmetic instruction finds. -/
def arithFault? (m : Machine) (op : Operator) (dest : Nat) (lhs rhs : Operand) :
    Operator.Check → Option Fault
  | .lhs => m.operandFault? lhs
  | .rhs => m.operandFault? rhs
  | .divisor => if m.number? rhs = some 0 then some (.divisionByZero m.address op) else none
  | .result =>
    match m.number? lhs, m.number? rhs with
    | some a, some b => if Fits (op.exact a b) then none else some (.overflow m.address op)
    | _, _ => none
  | .dest => m.slotFault? dest

/-- The two numbers of an arithmetic instruction are read, or one of the checks before the last two
fails. -/
theorem arguments_cases (m : Machine) (op : Operator) (dest : Nat) (lhs rhs : Operand) :
    (∃ fault, m.arguments op lhs rhs = .error fault
        ∧ op.checks.findSome? (m.arithFault? op dest lhs rhs) = some fault)
      ∨ ∃ a b, m.arguments op lhs rhs = .ok (a, b) ∧ m.number? lhs = some a.toInt
        ∧ m.number? rhs = some b.toInt ∧ (op.divides = true → b ≠ 0)
        ∧ op.checks.findSome? (m.arithFault? op dest lhs rhs)
          = [.result, .dest].findSome? (m.arithFault? op dest lhs rhs) := by
  unfold arguments Operator.checks
  -- the operands are read in the order of the checks, so the first that fails decides both sides
  by_cases hdivides : op.divides = true
  · rw [if_pos hdivides, if_pos hdivides]
    rcases m.value_cases rhs with ⟨b, hb, hrhs, hread⟩ | ⟨fault, hb, hrhs, hfault⟩
    · by_cases hzero : b = 0
      · subst hzero
        refine .inl ⟨.divisionByZero m.address op, ?_, by simp [arithFault?, hread, hrhs]⟩
        exact bind_eq_error_iff.mpr (.inr ⟨0, hb, if_pos rfl⟩)
      · have hne := toInt_ne_zero hzero
        rcases m.value_cases lhs with ⟨a, ha, hlhs, hread'⟩ | ⟨fault, ha, hlhs, hfault⟩
        · refine .inr ⟨a, b, ?_, hlhs, hrhs, fun _ => hzero,
            by simp [arithFault?, hread, hread', hrhs, hne]⟩
          refine bind_eq_ok_iff.mpr ⟨b, hb, ?_⟩
          rw [if_neg hzero]
          exact bind_eq_ok_iff.mpr ⟨a, ha, rfl⟩
        · refine .inl ⟨fault, ?_, by simp [arithFault?, hread, hrhs, hne, hfault]⟩
          refine bind_eq_error_iff.mpr (.inr ⟨b, hb, ?_⟩)
          rw [if_neg hzero]
          exact bind_eq_error_iff.mpr (.inl ha)
    · exact .inl ⟨fault, bind_eq_error_iff.mpr (.inl hb), by simp [arithFault?, hfault]⟩
  · rw [if_neg hdivides, if_neg hdivides]
    rcases m.value_cases lhs with ⟨a, ha, hlhs, hread⟩ | ⟨fault, ha, hlhs, hfault⟩
    · rcases m.value_cases rhs with ⟨b, hb, hrhs, hread'⟩ | ⟨fault, hb, hrhs, hfault⟩
      · refine .inr ⟨a, b, ?_, hlhs, hrhs, fun h => absurd h hdivides,
          by simp [arithFault?, hread, hread']⟩
        exact bind_eq_ok_iff.mpr ⟨a, ha, bind_eq_ok_iff.mpr ⟨b, hb, rfl⟩⟩
      · refine .inl ⟨fault, ?_, by simp [arithFault?, hread, hfault]⟩
        exact bind_eq_error_iff.mpr (.inr ⟨a, ha, bind_eq_error_iff.mpr (.inl hb)⟩)
    · exact .inl ⟨fault, bind_eq_error_iff.mpr (.inl ha), by simp [arithFault?, hfault]⟩

/-- **An arithmetic instruction faults with the first of its checks that fails, or stores the exact
result.** -/
theorem effect_arith_cases (m : Machine) (size : Nat) (op : Operator) (dest : Nat)
    (lhs rhs : Operand) :
    (∃ fault, m.effect size (.arith op dest lhs rhs) = .error fault
        ∧ op.checks.findSome? (m.arithFault? op dest lhs rhs) = some fault)
      ∨ ∃ (a b result : Int64) (h : dest < registerCount), m.number? lhs = some a.toInt
        ∧ m.number? rhs = some b.toInt ∧ (op.divides = true → b ≠ 0)
        ∧ result.toInt = op.exact a.toInt b.toInt
        ∧ m.effect size (.arith op dest lhs rhs) = .ok (.store ⟨dest, h⟩ result)
        ∧ op.checks.findSome? (m.arithFault? op dest lhs rhs) = none := by
  rcases m.arguments_cases op dest lhs rhs
    with ⟨fault, harguments, hfirst⟩ | ⟨a, b, harguments, hlhs, hrhs, hdivisor, hfirst⟩
  · exact .inl ⟨fault, bind_eq_error_iff.mpr (.inl harguments), hfirst⟩
  · have hexact : op.apply? a b = narrow? (op.exact a.toInt b.toInt) :=
      Operator.apply?_eq_narrow? hdivisor
    rw [effect, harguments, ok_bind, hfirst]
    cases hnarrow : narrow? (op.exact a.toInt b.toInt) with
    | none =>
      have hlarge := narrow?_eq_none_iff.mp hnarrow
      simp only [hexact, hnarrow]
      exact .inl ⟨.overflow m.address op, rfl, by simp [arithFault?, hlhs, hrhs, hlarge]⟩
    | some result =>
      have hresult := narrow?_eq_some_iff.mp hnarrow
      have hfits : Fits (op.exact a.toInt b.toInt) := hresult ▸ fits_toInt result
      simp only [hexact, hnarrow]
      by_cases hdest : dest < registerCount
      · refine .inr ⟨a, b, result, hdest, hlhs, hrhs, hdivisor, hresult, dif_pos hdest, ?_⟩
        simp [arithFault?, hlhs, hrhs, hfits, slotFault?, hdest]
      · refine .inl ⟨.registerOutOfRange m.address dest, dif_neg hdest, ?_⟩
        simp [arithFault?, hlhs, hrhs, hfits, slotFault?, hdest]

/-- What a check finds is a slot without a register, a divisor of zero or a result that does not fit. -/
theorem arithFault?_eq_some {m : Machine} {op : Operator} {dest : Nat} {lhs rhs : Operand}
    {check : Operator.Check} {fault : Fault} (h : m.arithFault? op dest lhs rhs check = some fault) :
    m.OutOfRange (Instr.arith op dest lhs rhs).slots fault
      ∨ (check = .divisor ∧ m.number? rhs = some 0 ∧ fault = .divisionByZero m.address op)
      ∨ ∃ a b : Int64, m.number? lhs = some a.toInt ∧ m.number? rhs = some b.toInt
        ∧ ¬ Fits (op.exact a.toInt b.toInt) ∧ fault = .overflow m.address op := by
  cases check with
  | lhs => exact .inl ((operandFault?_eq_some h).mono (by simp [Instr.slots]))
  | rhs => exact .inl ((operandFault?_eq_some h).mono (by simp [Instr.slots]))
  | dest => exact .inl ((slotFault?_eq_some h).mono (by simp [Instr.slots]))
  | divisor =>
    obtain ⟨hzero, hfault⟩ := Option.ite_none_right_eq_some.mp h
    cases hfault
    exact .inr (.inl ⟨rfl, hzero, rfl⟩)
  | result =>
    rcases m.value_cases lhs with ⟨a, -, hlhs, -⟩ | ⟨_, -, hlhs, -⟩
    · rcases m.value_cases rhs with ⟨b, -, hrhs, -⟩ | ⟨_, -, hrhs, -⟩
      · simp only [arithFault?, hlhs, hrhs] at h
        split at h
        · cases h
        · rename_i hlarge
          cases h
          exact .inr (.inr ⟨a, b, hlhs, hrhs, hlarge, rfl⟩)
      · simp [arithFault?, hlhs, hrhs] at h
    · simp [arithFault?, hlhs] at h

/-- What the checks of an arithmetic instruction find when it names existing registers only. -/
theorem findSome?_arithFault? {m : Machine} {op : Operator} {dest : Nat} {lhs rhs : Operand}
    {a b : Int} (hlhs : m.number? lhs = some a) (hrhs : m.number? rhs = some b)
    (hdest : dest < registerCount) :
    op.checks.findSome? (m.arithFault? op dest lhs rhs)
      = if op.divides = true ∧ b = 0 then some (.divisionByZero m.address op)
        else if Fits (op.exact a b) then none else some (.overflow m.address op) := by
  have hreadl : m.arithFault? op dest lhs rhs .lhs = none := operandFault?_eq_none hlhs
  have hreadr : m.arithFault? op dest lhs rhs .rhs = none := operandFault?_eq_none hrhs
  have hlast : [.result, .dest].findSome? (m.arithFault? op dest lhs rhs)
      = if Fits (op.exact a b) then none else some (.overflow m.address op) := by
    by_cases hfits : Fits (op.exact a b) <;>
      simp [arithFault?, slotFault?, hlhs, hrhs, hdest, hfits]
  unfold Operator.checks
  by_cases hdivides : op.divides = true
  · have hdivisor : m.arithFault? op dest lhs rhs .divisor
        = if b = 0 then some (.divisionByZero m.address op) else none := by
      simp [arithFault?, hrhs]
    by_cases hzero : b = 0
    · simp [hdivides, hreadr, hdivisor, hzero]
    · rw [if_pos hdivides, if_neg fun h => hzero h.2, ← hlast]
      simp [hreadl, hreadr, hdivisor, hzero]
  · rw [if_neg hdivides, if_neg fun h => hdivides h.1, ← hlast]
    simp [hreadl, hreadr]

/-- The machine has stored a number in one register and goes on with the next instruction. -/
structure Stores (m : Machine) (dest : Nat) (n : Int) (m' : Machine) : Prop where
  stored : m'.registers[dest]?.map Int64.toInt = some n
  others : ∀ slot, slot ≠ dest → m'.registers[slot]? = m.registers[slot]?
  flag : m'.flag = m.flag
  address : m'.address = m.address + 1

theorem stores_apply (m : Machine) (dest : Fin registerCount) (result : Int64) :
    m.Stores dest result.toInt (m.begin.apply (.store dest result)) where
  stored := by simp [apply]
  others slot hslot := Vector.getElem?_set_ne dest.isLt (Ne.symm hslot)
  flag := rfl
  address := rfl

/-- A machine at an arithmetic instruction stops with the first check that fails, or stores. -/
theorem step_arith_cases {m : Machine} {op : Operator} {dest : Nat} {lhs rhs : Operand}
    (hinstr : code[m.address]? = some (.arith op dest lhs rhs)) (hlimit : m.limitFault? limit = none) :
    (∃ fault, m.step code limit = .stopped ⟨.faulted fault, m.begin⟩
        ∧ op.checks.findSome? (m.arithFault? op dest lhs rhs) = some fault)
      ∨ ∃ a b m', m.step code limit = .running m' ∧ m.number? lhs = some a ∧ m.number? rhs = some b
        ∧ m.Stores dest (op.exact a b) m'
        ∧ op.checks.findSome? (m.arithFault? op dest lhs rhs) = none := by
  rcases m.effect_arith_cases code.size op dest lhs rhs
    with ⟨fault, heffect, hfirst⟩ | ⟨a, b, result, hdest, hlhs, hrhs, -, hresult, heffect, hfirst⟩
  · exact .inl ⟨fault, step_of_error hinstr hlimit heffect, hfirst⟩
  · right
    refine ⟨_, _, _, ?_, hlhs, hrhs, hresult ▸ m.stores_apply ⟨dest, hdest⟩ result, hfirst⟩
    exact step_eq_running_iff.mpr ⟨_, _, hinstr, hlimit, heffect, by simp, rfl⟩

/-- The fault of an arithmetic instruction is what the first check finds that fails. -/
theorem step_arith_faulted_iff {m : Machine} {op : Operator} {dest : Nat} {lhs rhs : Operand}
    {fault : Fault} (hinstr : code[m.address]? = some (.arith op dest lhs rhs))
    (hlimit : m.limitFault? limit = none) :
    m.step code limit = .stopped ⟨.faulted fault, m.begin⟩
      ↔ op.checks.findSome? (m.arithFault? op dest lhs rhs) = some fault := by
  rcases step_arith_cases hinstr hlimit
    with ⟨other, hstep, hfirst⟩ | ⟨a, b, m', hstep, -, -, -, hfirst⟩
  · rw [hstep, hfirst]
    simp
  · rw [hstep, hfirst]
    simp

/-- An arithmetic instruction that names existing registers only. -/
theorem step_arith_of_numbers {m : Machine} {op : Operator} {dest : Nat} {lhs rhs : Operand}
    {a b : Int} (hinstr : code[m.address]? = some (.arith op dest lhs rhs))
    (hlimit : m.limitFault? limit = none) (hlhs : m.number? lhs = some a)
    (hrhs : m.number? rhs = some b) (hdest : dest < registerCount) :
    if op.divides = true ∧ b = 0 then
      m.step code limit = .stopped ⟨.faulted (.divisionByZero m.address op), m.begin⟩
    else if Fits (op.exact a b) then
      ∃ m', m.step code limit = .running m' ∧ m.Stores dest (op.exact a b) m'
    else m.step code limit = .stopped ⟨.faulted (.overflow m.address op), m.begin⟩ := by
  have hfound : op.checks.findSome? (m.arithFault? op dest lhs rhs) = _ :=
    findSome?_arithFault? hlhs hrhs hdest
  split
  · rename_i hzero
    rw [if_pos hzero] at hfound
    exact (step_arith_faulted_iff hinstr hlimit).mpr hfound
  · rename_i hzero
    rw [if_neg hzero] at hfound
    split
    · rename_i hfits
      rw [if_pos hfits] at hfound
      rcases step_arith_cases hinstr hlimit
        with ⟨fault, -, hfirst⟩ | ⟨a', b', m', hstep, hlhs', hrhs', hstores, -⟩
      · rw [hfound] at hfirst
        cases hfirst
      · obtain rfl := Option.some.inj (hlhs.symm.trans hlhs')
        obtain rfl := Option.some.inj (hrhs.symm.trans hrhs')
        exact ⟨m', hstep, hstores⟩
    · rename_i hlarge
      rw [if_neg hlarge] at hfound
      exact (step_arith_faulted_iff hinstr hlimit).mpr hfound

/-- **Arithmetic instructions are exact.** A machine that comes to one, with registers for all its slots,
faults when it divides by zero; otherwise the result over the integers is stored, and nothing else, or it
does not fit and the instruction overflows. A remainder never overflows, and a quotient only where the
least value is divided by -1. Where several checks fail, the first in the order of the operator decides.
Quotient and remainder are those of division toward negative infinity, and no word on the way to them is
cut off. -/
theorem step_arith_exact :
    (∀ (m : Machine) (code : Array Instr) (limit : Option Nat) (op : Operator) (dest : Nat)
        (lhs rhs : Operand), code[m.address]? = some (.arith op dest lhs rhs) →
        m.limitFault? limit = none →
        (∀ a b, m.number? lhs = some a → m.number? rhs = some b → dest < registerCount →
          if op.divides = true ∧ b = 0 then
            m.step code limit = .stopped ⟨.faulted (.divisionByZero m.address op), m.begin⟩
          else if Fits (op.exact a b) then
            ∃ m', m.step code limit = .running m' ∧ m.Stores dest (op.exact a b) m'
          else m.step code limit = .stopped ⟨.faulted (.overflow m.address op), m.begin⟩)
        ∧ (∀ fault, m.step code limit = .stopped ⟨.faulted fault, m.begin⟩
            ↔ op.checks.findSome? (m.arithFault? op dest lhs rhs) = some fault)
        ∧ ∀ address other, m.step code limit
              = .stopped ⟨.faulted (.overflow address other), m.begin⟩ →
            op ≠ .mod ∧ (op = .div →
              m.number? lhs = some Int64.minValue.toInt ∧ m.number? rhs = some (-1)))
      ∧ (∀ a b : Int64, (floorDiv? a b = none ↔ b = 0 ∨ (a = Int64.minValue ∧ b = -1))
          ∧ ∀ q, floorDiv? a b = some q → q.toInt = a.toInt.fdiv b.toInt)
      ∧ (∀ a b : Int64, (floorMod? a b = none ↔ b = 0)
          ∧ ∀ r, floorMod? a b = some r → r.toInt = a.toInt - b.toInt * a.toInt.fdiv b.toInt
            ∧ (r = 0 ∨ (r < 0 ↔ b < 0)))
      ∧ ∀ a b : Int64, b ≠ 0 → ¬ (a = Int64.minValue ∧ b = -1) → ExactSteps a b := by
  refine ⟨?_, ?_, ?_, fun a b => exactSteps⟩
  · intro m code limit op dest lhs rhs hinstr hlimit
    refine ⟨fun a b => step_arith_of_numbers hinstr hlimit,
      fun fault => step_arith_faulted_iff hinstr hlimit, ?_⟩
    intro address other hstep
    have hfirst := (step_arith_faulted_iff hinstr hlimit).mp hstep
    obtain ⟨check, -, hcheck⟩ := List.exists_of_findSome?_eq_some hfirst
    rcases arithFault?_eq_some hcheck
      with ⟨_, -, -, hfault⟩ | ⟨-, -, hfault⟩ | ⟨a, b, hlhs, hrhs, hlarge, -⟩
    · cases hfault
    · cases hfault
    · obtain ⟨hmod, hdiv⟩ := Operator.edge_of_not_fits hlarge
      refine ⟨hmod, fun hop => ?_⟩
      obtain ⟨rfl, rfl⟩ := hdiv hop
      exact ⟨hlhs, hrhs⟩
  · exact fun a b => ⟨floorDiv?_eq_none_iff, fun q => toInt_of_floorDiv?⟩
  · exact fun a b => ⟨floorMod?_eq_none_iff, fun r => toInt_of_floorMod?⟩

/-- A machine with the least value in its first register. -/
def lowest : Machine := initial.apply (.store ⟨0, by decide⟩ Int64.minValue)

/-- An operation on the first register and -1, at the address of `lowest`. -/
def onLowest (op : Operator) : Array Instr :=
  #[.ret 0, .arith op 1 (.slot 0) (.literal (-1))]

theorem step_arith_exact_lowest :
    (onLowest .mod)[lowest.address]? = some (.arith .mod 1 (.slot 0) (.literal (-1)))
      ∧ lowest.number? (.slot 0) = some Int64.minValue.toInt
      ∧ (∃ m', lowest.step (onLowest .mod) none = .running m' ∧ lowest.Stores 1 0 m')
      ∧ lowest.step (onLowest .div) none = .stopped ⟨.faulted (.overflow 1 .div), lowest.begin⟩
      ∧ ExactSteps Int64.minValue 2 := by
  have hlhs : lowest.number? (.slot 0) = some (-0x8000000000000000) := by
    simp [lowest, apply, number?]
  have hrhs : lowest.number? (.literal (-1)) = some (-1) := rfl
  obtain ⟨hall, -, -, hsteps⟩ := step_arith_exact
  obtain ⟨hmod, -, -⟩ := hall lowest (onLowest .mod) none .mod 1 (.slot 0) (.literal (-1)) rfl rfl
  obtain ⟨hdiv, -, hoverflow⟩ :=
    hall lowest (onLowest .div) none .div 1 (.slot 0) (.literal (-1)) rfl rfl
  have hstep := hdiv _ _ hlhs hrhs (by decide)
  refine ⟨rfl, ((hoverflow 1 .div hstep).2 rfl).1, hmod _ _ hlhs hrhs (by decide), hstep, ?_⟩
  exact hsteps Int64.minValue 2 (by decide) (by decide)

/-! ## Why an instruction faults -/

/-- The instruction, run on the machine in a program of the given size, is the reason for the fault: a slot
of its own has no register, its divisor is zero, its result does not fit, or it jumps out of the program.
The step limit is no matter of an instruction. -/
def Justifies (m : Machine) (size : Nat) (instr : Instr) : Fault → Prop
  | .registerOutOfRange address slot =>
    address = m.address ∧ slot ∈ instr.slots ∧ registerCount ≤ slot
  | .divisionByZero address op =>
    address = m.address ∧ op.divides = true
      ∧ ∃ dest lhs rhs, instr = .arith op dest lhs rhs ∧ m.number? rhs = some 0
  | .overflow address op =>
    address = m.address
      ∧ ∃ dest lhs rhs a b, instr = .arith op dest lhs rhs ∧ m.number? lhs = some a
        ∧ m.number? rhs = some b ∧ ¬ Fits (op.exact a b)
  | .jumpOutOfRange address target length =>
    address = m.address ∧ length = size ∧ size < target
      ∧ (instr = .jump target ∨ (instr = .jumpIfFalse target ∧ m.flag = false))
  | .stepLimitExceeded _ => False

theorem OutOfRange.justifies {m : Machine} {slots : List Nat} {fault : Fault} {size : Nat}
    {instr : Instr} (h : m.OutOfRange slots fault) (hslots : slots ⊆ instr.slots) :
    m.Justifies size instr fault := by
  obtain ⟨slot, hmem, hcount, rfl⟩ := h
  exact ⟨rfl, hslots hmem, hcount⟩

theorem Justifies.address_eq {m : Machine} {size address : Nat} {instr : Instr} {fault : Fault}
    (h : m.Justifies size instr fault) (haddress : fault.address? = some address) :
    address = m.address := by
  cases fault with
  | stepLimitExceeded most => cases haddress
  | _ =>
    cases haddress
    exact h.1

theorem divides_of_mem_checks {op : Operator} (h : Operator.Check.divisor ∈ op.checks) :
    op.divides = true := by
  cases op with
  | div | mod => rfl
  | add | sub | mul => simp [Operator.checks, Operator.divides] at h

theorem justifies_of_findSome? {m : Machine} {op : Operator} {dest size : Nat} {lhs rhs : Operand}
    {fault : Fault} (h : op.checks.findSome? (m.arithFault? op dest lhs rhs) = some fault) :
    m.Justifies size (.arith op dest lhs rhs) fault := by
  obtain ⟨check, hmem, hcheck⟩ := List.exists_of_findSome?_eq_some h
  rcases arithFault?_eq_some hcheck
    with hslot | ⟨rfl, hzero, rfl⟩ | ⟨a, b, hlhs, hrhs, hlarge, rfl⟩
  · exact hslot.justifies (List.Subset.refl _)
  · exact ⟨rfl, divides_of_mem_checks hmem, dest, lhs, rhs, rfl, hzero⟩
  · exact ⟨rfl, dest, lhs, rhs, _, _, rfl, hlhs, hrhs, hlarge⟩

theorem jumping_eq_error {m : Machine} {size target : Nat} {fault : Fault}
    (h : m.jumping size target = .error fault) :
    fault = .jumpOutOfRange m.address target size ∧ size < target := by
  unfold jumping at h
  split at h
  · cases h
  · rename_i htarget
    cases h
    exact ⟨rfl, Nat.lt_of_not_le htarget⟩

/-- **An instruction that faults justifies its fault.** -/
theorem justifies_of_effect {m : Machine} {size : Nat} {instr : Instr} {fault : Fault}
    (h : m.effect size instr = .error fault) : m.Justifies size instr fault := by
  cases instr with
  | set dest constant => exact (storing_eq_error h).justifies (List.Subset.refl _)
  | arith op dest lhs rhs =>
    rcases m.effect_arith_cases size op dest lhs rhs
      with ⟨other, heffect, hfirst⟩ | ⟨_, _, _, _, -, -, -, -, heffect, -⟩
    · cases h.symm.trans heffect
      exact justifies_of_findSome? hfirst
    · cases h.symm.trans heffect
  | compare relation lhs rhs =>
    rcases bind_eq_error_iff.mp h with h | ⟨a, -, h⟩
    · exact (value_eq_error h).justifies (List.subset_append_left _ _)
    · rcases bind_eq_error_iff.mp h with h | ⟨b, -, h⟩
      · exact (value_eq_error h).justifies (List.subset_append_right _ _)
      · cases h
  | jumpIfFalse target =>
    simp only [effect] at h
    split at h
    · cases h
    · rename_i hflag
      obtain ⟨rfl, htarget⟩ := jumping_eq_error h
      exact ⟨rfl, rfl, htarget, .inr ⟨rfl, eq_false_of_ne_true hflag⟩⟩
  | jump target =>
    obtain ⟨rfl, htarget⟩ := jumping_eq_error h
    exact ⟨rfl, rfl, htarget, .inl rfl⟩
  | ret source =>
    rcases bind_eq_error_iff.mp h with h | ⟨result, -, h⟩
    · have hvalue : m.value (.slot source) = .error fault := h
      exact (value_eq_error hvalue).justifies (List.Subset.refl _)
    · cases h

/-! ## Where an instruction leads -/

theorem storing_eq_ok {m : Machine} {slot : Nat} {value : Int64} {effect : Effect}
    (h : m.storing slot value = .ok effect) : ∃ index, effect = .store index value := by
  unfold storing at h
  split at h
  · cases h
    exact ⟨_, rfl⟩
  · cases h

theorem jumping_eq_ok {m : Machine} {size target : Nat} {effect : Effect}
    (h : m.jumping size target = .ok effect) : effect = .moveTo target ∧ target ≤ size := by
  unfold jumping at h
  split at h
  · rename_i htarget
    cases h
    exact ⟨rfl, htarget⟩
  · cases h

/-- An instruction that goes to an address goes to the next one, or is a jump there. -/
theorem moveTo_of_effect {m : Machine} {size address : Nat} {instr : Instr}
    (h : m.effect size instr = .ok (.moveTo address)) :
    address = m.address + 1 ∨ (instr.jumpTarget? = some address ∧ address ≤ size) := by
  cases instr with
  | set dest constant =>
    obtain ⟨index, hstore⟩ := storing_eq_ok h
    cases hstore
  | arith op dest lhs rhs =>
    rcases m.effect_arith_cases size op dest lhs rhs
      with ⟨_, heffect, -⟩ | ⟨_, _, _, _, -, -, -, -, heffect, -⟩ <;> cases h.symm.trans heffect
  | compare relation lhs rhs =>
    obtain ⟨a, -, h⟩ := bind_eq_ok_iff.mp h
    obtain ⟨b, -, h⟩ := bind_eq_ok_iff.mp h
    cases h
  | jumpIfFalse target =>
    simp only [effect] at h
    split at h
    · cases h
      exact .inl rfl
    · obtain ⟨heffect, htarget⟩ := jumping_eq_ok h
      cases heffect
      exact .inr ⟨rfl, htarget⟩
  | jump target =>
    obtain ⟨heffect, htarget⟩ := jumping_eq_ok h
    cases heffect
    exact .inr ⟨rfl, htarget⟩
  | ret source =>
    obtain ⟨result, -, h⟩ := bind_eq_ok_iff.mp h
    cases h

/-- **A run goes to the next instruction or to the target of a jump.** -/
theorem address_of_step {m m' : Machine} (h : m.step code limit = .running m') :
    ∃ instr, code[m.address]? = some instr
      ∧ (m'.address = m.address + 1
        ∨ (instr.jumpTarget? = some m'.address ∧ m'.address ≤ code.size)) := by
  obtain ⟨instr, effect, hinstr, -, heffect, hhalt, rfl⟩ := step_eq_running_iff.mp h
  refine ⟨instr, hinstr, ?_⟩
  cases effect with
  | store slot value => exact .inl rfl
  | setFlag value => exact .inl rfl
  | halt result => exact absurd rfl (hhalt result)
  | moveTo address => exact moveTo_of_effect heffect

/-- No instruction leads past the end of the program. -/
theorem address_le_of_step {m m' : Machine} (h : m.step code limit = .running m') :
    m'.address ≤ code.size := by
  obtain ⟨instr, hinstr, hnext | ⟨-, htarget⟩⟩ := address_of_step h
  · obtain ⟨hlt, -⟩ := Array.getElem?_eq_some_iff.mp hinstr
    omega
  · exact htarget

theorem address_of_stopped {m : Machine} {run : Run} (h : m.step code limit = .stopped run) :
    run.machine.address = m.address := by
  obtain ⟨-, rfl⟩ | ⟨_, -, rfl⟩ | ⟨_, -, -, ⟨_, -, rfl⟩ | ⟨_, -, rfl⟩⟩ := step_eq_stopped h <;> rfl

/-- A run that ends without a value has no instruction left. -/
theorem size_le_of_finished {m : Machine} {run : Run} (h : m.step code limit = .stopped run)
    (hrun : run.outcome = .finished none) : code.size ≤ m.address := by
  obtain ⟨hend, -⟩ | ⟨_, -, rfl⟩ | ⟨_, -, -, ⟨_, -, rfl⟩ | ⟨_, -, rfl⟩⟩ := step_eq_stopped h
  · exact Array.getElem?_eq_none_iff.mp hend
  all_goals cases hrun

/-- **A fault that names an address is that of the instruction there**, which has changed nothing. -/
theorem justifies_of_faulted {m : Machine} {run : Run} {fault : Fault} {address : Nat}
    (h : m.step code limit = .stopped run) (hrun : run.outcome = .faulted fault)
    (haddress : fault.address? = some address) :
    address = m.address ∧ run.machine = m.begin
      ∧ ∃ instr, code[m.address]? = some instr ∧ m.Justifies code.size instr fault := by
  obtain ⟨-, rfl⟩ | ⟨_, hlimit, rfl⟩ | ⟨instr, hinstr, -, ⟨_, heffect, rfl⟩ | ⟨_, -, rfl⟩⟩ :=
    step_eq_stopped h <;> cases hrun
  · -- the step limit names no address
    obtain ⟨most, rfl⟩ := limitFault?_eq_some hlimit
    cases haddress
  · have hjustified := justifies_of_effect heffect
    exact ⟨hjustified.address_eq haddress, rfl, instr, hinstr, hjustified⟩

theorem Reaches.address_le {n : Nat} {m m' : Machine} (h : Reaches code limit n m m')
    (hm : m.address ≤ code.size) : m'.address ≤ code.size := by
  induction h with
  | refl m => exact hm
  | step first rest ih => exact ih (address_le_of_step first)

end Machine

/-! ## Runs -/

namespace Program

/-- **Faults are precise, and a run stays in its program.** Under every limit, and for however many
instructions a run is followed, its address is at most the size of the program. A fault that names an
address names that of the instruction to which the run got; that instruction justifies the fault, and
registers and flag are as it found them. A run that ends without a value ends at the end of the program. -/
theorem run_precise (program : Program) (limit : Option Nat) :
    (∀ n m, Machine.Reaches program.toArray limit n .initial m → m.address ≤ program.length)
      ∧ ∀ budget run, Machine.initial.advance program.toArray limit budget = run →
        run.machine.address ≤ program.length
          ∧ (∀ fault address, run.outcome = .faulted fault → fault.address? = some address →
              address < program.length ∧ ∃ n before instr,
                Machine.Reaches program.toArray limit n .initial before ∧ before.address = address
                  ∧ program[address]? = some instr ∧ before.Justifies program.length instr fault
                  ∧ run.machine.registers = before.registers ∧ run.machine.flag = before.flag
                  ∧ run.machine.address = address)
          ∧ (run.outcome = .finished none → run.machine.address = program.length) := by
  have hbound : ∀ n m, Machine.Reaches program.toArray limit n .initial m →
      m.address ≤ program.length := fun n m h => h.address_le (Nat.zero_le _)
  refine ⟨hbound, ?_⟩
  rintro budget run rfl
  rcases Machine.advance_cases program.toArray limit budget .initial
    with ⟨m, hreaches, hrun⟩ | ⟨n, m, hreaches, hstop⟩
  · rw [hrun]
    exact ⟨hbound budget m hreaches, by simp, by simp⟩
  · have hle := hbound n m hreaches
    rw [Machine.address_of_stopped hstop]
    refine ⟨hle, ?_, fun hrun => Nat.le_antisymm hle (Machine.size_le_of_finished hstop hrun)⟩
    intro fault address hrun haddress
    obtain ⟨rfl, hmachine, instr, hinstr, hjustified⟩ :=
      Machine.justifies_of_faulted hstop hrun haddress
    rw [List.getElem?_toArray] at hinstr
    obtain ⟨hlt, -⟩ := List.getElem?_eq_some_iff.mp hinstr
    rw [hmachine]
    exact ⟨hlt, n, m, instr, hreaches, rfl, hinstr, hjustified, rfl, rfl, rfl⟩

/-- A program whose second instruction jumps too far. -/
def overshooting : Program := [.set 0 7, .jump 3]

/-- A program that jumps to its end. -/
def skipping : Program := [.jump 2, .ret 0]

theorem run_precise_overshooting :
    (Machine.initial.advance overshooting.toArray none 5).outcome = .faulted (.jumpOutOfRange 1 3 2)
      ∧ (∃ n before instr, Machine.Reaches overshooting.toArray none n .initial before
        ∧ overshooting[1]? = some instr ∧ before.Justifies 2 instr (.jumpOutOfRange 1 3 2)
        ∧ (Machine.initial.advance overshooting.toArray none 5).machine.registers = before.registers)
      ∧ (Machine.initial.advance skipping.toArray none 5).outcome = .finished none
      ∧ (Machine.initial.advance skipping.toArray none 5).machine.address = 2 := by
  have hfault : (Machine.initial.advance overshooting.toArray none 5).outcome
      = .faulted (.jumpOutOfRange 1 3 2) := rfl
  have hend : (Machine.initial.advance skipping.toArray none 5).outcome = .finished none := rfl
  obtain ⟨-, hfaults, -⟩ := (run_precise overshooting none).2 5 _ rfl
  obtain ⟨-, n, before, instr, hreaches, -, hinstr, hjustified, hregisters, -, -⟩ :=
    hfaults _ 1 hfault rfl
  obtain ⟨-, -, hends⟩ := (run_precise skipping none).2 5 _ rfl
  exact ⟨hfault, ⟨n, before, instr, hreaches, hinstr, hjustified, hregisters⟩, hend, hends hend⟩

end Program

end RegisterLang
