import RegisterLang.Machine.Basic

/-!
# Runs

A run starts on a fresh machine and ends with a return, at the end of the program or with a fault.

* `Machine.step` takes a run one instruction further, `Machine.advance` a bounded number of them.
* `Program.run` runs a program from its start. With a step limit it always comes to an end: the
  fault `stepLimitExceeded` stops it before it begins one instruction too many. Without a limit the
  run is followed up to the capacity of a 64-bit step counter.
-/

namespace RegisterLang

/-- How a run ends. -/
inductive Outcome
  /-- A return with its value, or the end of the program without one. -/
  | finished (value : Option Int64)
  /-- A fault. -/
  | faulted (fault : Fault)
  /-- The program has more instructions to run than were followed. -/
  | unfinished
deriving DecidableEq, Repr

/-- The outcome of a run and the machine that it leaves. -/
structure Run where
  outcome : Outcome
  machine : Machine
deriving DecidableEq, Repr

/-- Where one instruction takes a run. -/
inductive Progress
  | running (machine : Machine)
  | stopped (run : Run)
deriving DecidableEq, Repr

namespace Machine

/-- The machine when it begins one more instruction. -/
def begin (m : Machine) : Machine := { m with steps := m.steps + 1 }

/-- The fault of a machine that may begin no further instruction. -/
def limitFault? (m : Machine) : Option Nat → Option Fault
  | some limit => if limit ≤ m.steps then some (.stepLimitExceeded limit) else none
  | none => none

/-- Takes a run one instruction further. The end of the program comes before the step limit. -/
def step (code : Array Instr) (limit : Option Nat) (m : Machine) : Progress :=
  match code[m.address]? with
  | none => .stopped ⟨.finished none, m⟩
  | some instr =>
    match m.limitFault? limit with
    | some fault => .stopped ⟨.faulted fault, m⟩
    | none =>
      match m.effect code.size instr with
      | .error fault => .stopped ⟨.faulted fault, m.begin⟩
      | .ok (.halt result) => .stopped ⟨.finished (some result), m.begin⟩
      | .ok effect => .running (m.begin.apply effect)

/-- Takes a run at most the given number of instructions further. -/
def advance (code : Array Instr) (limit : Option Nat) : Nat → Machine → Run
  | 0, m => ⟨.unfinished, m⟩
  | fuel + 1, m =>
    match step code limit m with
    | .running m => advance code limit fuel m
    | .stopped run => run

end Machine

/-- The number of instructions for which a run is followed: one more than the limit, so that the
limit comes to bear, or else the capacity of the step counter. -/
def stepBudget : Option Nat → Nat
  | some limit => limit + 1
  | none => UInt64.size

/-- Runs a program from its start on a fresh machine. -/
def Program.run (program : Program) (limit : Option Nat) : Run :=
  Machine.advance program.toArray limit (stepBudget limit) Machine.initial

end RegisterLang
