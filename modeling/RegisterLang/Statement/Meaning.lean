import RegisterLang.Machine.Run
import RegisterLang.Statement.Layout

/-!
# The meaning of statements

An interpreter of bodies that knows no registers and no jumps: it works on the values of variables by
name. It counts steps as a register machine would: one for a declaration, an assignment or a return, two
for a condition, and one to go back to the condition of a loop. Addresses serve only to say where a fault
lies, as the number of instructions that stand before the statement.

* `Body.interpret` interprets a body, with a bound on the rounds of each loop.
-/

namespace RegisterLang

/-- The values of the variables, and the number of steps taken. -/
structure Store where
  values : String → Int64
  steps : Nat

/-- How the interpretation of a body ends. -/
inductive Ending
  /-- At its end, and the statements behind it follow. -/
  | passed
  /-- With a return. -/
  | returned (value : Int64)
  /-- With a fault. -/
  | faulted (fault : Fault)
  /-- In a loop that has more rounds than were followed. -/
  | unfinished
deriving DecidableEq, Repr

namespace Store

/-- Every variable is zero at the start. -/
def initial : Store := ⟨fun _ => 0, 0⟩

/-- The value of an operand's text: that of the numeral, or of the variable. -/
def value (s : Store) (text : String) : Int64 :=
  if Text.isNumeral text then ((Text.int32OfText? text).getD 0).toInt64 else s.values text

/-- The store after an assignment. -/
def assign (s : Store) (name : String) (value : Int64) : Store :=
  { s with values := fun other => if other = name then value else s.values other }

/-- Whether the condition holds, as a relation between integers. -/
def holds (s : Store) (c : Condition) : Bool :=
  ((Relation.ofSymbol? c.relation).getD .eq).Relates (s.value c.lhs).toInt (s.value c.rhs).toInt

/-- The result of an operation at an address. -/
def result (s : Store) (address : Nat) (op : Operator) (lhs rhs : String) : Except Fault Int64 :=
  if op.divides ∧ s.value rhs = 0 then .error (.divisionByZero address op)
  else
    match op.apply? (s.value lhs) (s.value rhs) with
    | none => .error (.overflow address op)
    | some value => .ok value

/-- Takes a step if the limit allows one more, and goes on. -/
def step (s : Store) (limit : Option Nat) (next : Store → Ending × Store) : Ending × Store :=
  match limit with
  | some limit =>
    if limit ≤ s.steps then (.faulted (.stepLimitExceeded limit), s)
    else next { s with steps := s.steps + 1 }
  | none => next { s with steps := s.steps + 1 }

end Store

namespace Body

/-- The rounds of a loop, up to the given number. A round tests the condition, interprets the body and
goes back. -/
def rounds (limit : Option Nat) (c : Condition) (body : Store → Ending × Store) :
    Nat → Store → Ending × Store
  | 0, s => (.unfinished, s)
  | fuel + 1, s =>
    s.step limit fun s => s.step limit fun s =>
      if s.holds c then
        match body s with
        | (.passed, s) => s.step limit fun s => rounds limit c body fuel s
        | stopped => stopped
      else (.passed, s)

/-- Interprets a body whose first instruction has the given address. -/
def interpret (limit : Option Nat) (fuel : Nat) : (address : Nat) → Body → Store → Ending × Store
  | _, done, s => (.passed, s)
  | address, declare name value rest, s =>
    s.step limit fun s =>
      rest.interpret limit fuel (address + 1)
        (s.assign name ((Text.int32OfText? value).getD 0).toInt64)
  | address, assign target lhs op rhs rest, s =>
    s.step limit fun s =>
      match s.result address op lhs rhs with
      | .error fault => (.faulted fault, s)
      | .ok value => rest.interpret limit fuel (address + 1) (s.assign target value)
  | _, give name _, s => s.step limit fun s => (.returned (s.values name), s)
  | address, branch c body rest, s =>
    s.step limit fun s => s.step limit fun s =>
      if s.holds c then
        match body.interpret limit fuel (address + 2) s with
        | (.passed, s) => rest.interpret limit fuel (address + 2 + body.size) s
        | stopped => stopped
      else rest.interpret limit fuel (address + 2 + body.size) s
  | address, loop c body rest, s =>
    match rounds limit c (body.interpret limit fuel (address + 2)) fuel s with
    | (.passed, s) => rest.interpret limit fuel (address + 3 + body.size) s
    | stopped => stopped

end Body

end RegisterLang
