import RegisterLang.Proofs.Runs

/-!
# Runs under a step limit

A step limit cuts a run short and changes nothing else. The limit is looked at only when an instruction
is about to begin, so up to there the run with a limit and the run without one are the same run.

* `Machine.step_some_of_lt`, `Machine.step_some_of_le`: what a limit does to one instruction.
* `Machine.advance_some`: a run under a limit, in terms of the run without one.
* `Program.Ends`: the run without a limit comes to an end. `Program.CutShort`: a run is stopped by its
  limit, after exactly as many instructions.
* `Program.run_limited`: which of the two happens, for every program and every limit.
-/

namespace RegisterLang

namespace Machine

variable {code : Array Instr} {limit : Option Nat}

/-! ## One instruction -/

/-- A limit that is not used up makes no difference. -/
theorem step_some_of_lt {m : Machine} {most : Nat} (h : m.steps < most) :
    m.step code (some most) = m.step code none := by
  have hlimit : m.limitFault? (some most) = m.limitFault? none := if_neg (Nat.not_le_of_lt h)
  unfold step
  rw [hlimit]

/-- A limit that is used up stops the run before its next instruction. -/
theorem step_some_of_le {m : Machine} {most : Nat} {instr : Instr} (h : most ≤ m.steps)
    (hinstr : code[m.address]? = some instr) :
    m.step code (some most) = .stopped ⟨.faulted (.stepLimitExceeded most), m⟩ := by
  have hlimit : m.limitFault? (some most) = some (.stepLimitExceeded most) := if_pos h
  simp only [step, hinstr, hlimit]

/-- The end of the program is seen whatever the limit. -/
theorem step_of_end {m : Machine} (h : code[m.address]? = none) :
    m.step code limit = .stopped ⟨.finished none, m⟩ := by
  simp only [step, h]

/-- A run that stops has an outcome. -/
theorem outcome_of_stopped {m : Machine} {run : Run} (h : m.step code limit = .stopped run) :
    run.outcome ≠ .unfinished := by
  obtain ⟨-, rfl⟩ | ⟨_, -, rfl⟩ | ⟨_, -, -, ⟨_, -, rfl⟩ | ⟨_, -, rfl⟩⟩ := step_eq_stopped h <;> simp

/-- The last instruction of a run without a limit counts as begun. -/
theorem steps_of_stopped_none {m : Machine} {run : Run} {instr : Instr}
    (hinstr : code[m.address]? = some instr) (h : m.step code none = .stopped run) :
    run.machine.steps = m.steps + 1 := by
  simp only [step, hinstr, limitFault?] at h
  split at h <;> cases h <;> rfl

/-! ## Whole runs -/

/-- **A run under a limit is the run without one, or is cut short.** Either the run without a limit ends
while the limit still allows it, and then the two are the same. Or there is an instruction to run when
the limit is used up, and the limit stops the run there. -/
theorem advance_some {m : Machine} {most left : Nat} (h : m.steps + left = most) :
    (m.advance code (some most) (left + 1) = m.advance code none (left + 1)
        ∧ (m.advance code none (left + 1)).outcome ≠ .unfinished
        ∧ (m.advance code none (left + 1)).machine.steps ≤ most)
      ∨ ∃ m' instr, Reaches code none left m m' ∧ code[m'.address]? = some instr
        ∧ m.advance code (some most) (left + 1) = ⟨.faulted (.stepLimitExceeded most), m'⟩ := by
  -- on how many instructions the limit still allows
  induction left generalizing m with
  | zero =>
    cases hinstr : code[m.address]? with
    | none =>
      left
      simp only [advance, step_of_end hinstr]
      exact ⟨trivial, by simp, Nat.le_of_eq h⟩
    | some instr =>
      right
      refine ⟨m, instr, .refl m, hinstr, ?_⟩
      simp only [advance, step_some_of_le (Nat.le_of_eq h.symm) hinstr]
  | succ left ih =>
    have hsame : m.step code (some most) = m.step code none := step_some_of_lt (by omega)
    rw [advance, advance, hsame]
    cases hstep : m.step code none with
    | running next =>
      have hnext : next.steps = m.steps + 1 := (Reaches.single hstep).steps_eq
      rcases ih (show next.steps + left = most by omega) with hends | ⟨m', instr, hreaches, hcut⟩
      · exact .inl hends
      · exact .inr ⟨m', instr, .step hstep hreaches, hcut⟩
    | stopped run =>
      have hbegun := steps_of_stopped hstep
      exact .inl ⟨rfl, outcome_of_stopped hstep, show run.machine.steps ≤ most by omega⟩

end Machine

namespace Program

variable {program : Program} {run : Run}

/-- The run without a limit comes to an end, and this is how: it is what one gets by following the run
for long enough. -/
def Ends (program : Program) (run : Run) : Prop :=
  run.outcome ≠ .unfinished ∧ ∃ count, Machine.initial.advance program.toArray none count = run

/-- The limit stops the run, on the machine that there is after exactly as many instructions. -/
structure CutShort (program : Program) (limit : Nat) : Prop where
  outcome : (program.run (some limit)).outcome = .faulted (.stepLimitExceeded limit)
  reaches : Machine.Reaches program.toArray none limit .initial (program.run (some limit)).machine

/-- A run that ends is followed to its end by every count that is larger than its steps. -/
theorem Ends.advance_eq (h : program.Ends run) {count : Nat} (hcount : run.machine.steps < count) :
    Machine.initial.advance program.toArray none count = run := by
  obtain ⟨houtcome, enough, rfl⟩ := h
  obtain ⟨n, m, hreaches, hstop⟩ := Machine.exists_stopped_of_advance houtcome
  have hn : m.steps = 0 + n := hreaches.steps_eq
  have hlast := Machine.steps_of_stopped hstop
  exact Machine.advance_eq_of_stopped hreaches hstop (by omega)

theorem Ends.unique {other : Run} (h : program.Ends run) (hother : program.Ends other) :
    run = other := by
  have hrun := Nat.le_max_left run.machine.steps other.machine.steps
  have hlarge := Nat.le_max_right run.machine.steps other.machine.steps
  rw [← h.advance_eq (Nat.lt_succ_of_le hrun), hother.advance_eq (Nat.lt_succ_of_le hlarge)]

/-- A run that ends begins every instruction that it gets to. -/
theorem Ends.lt_steps (h : program.Ends run) {n : Nat} {m : Machine} {instr : Instr}
    (hreaches : Machine.Reaches program.toArray none n .initial m)
    (hinstr : program.toArray[m.address]? = some instr) : n < run.machine.steps := by
  apply Nat.lt_of_not_le
  intro hle
  -- then one more instruction would be followed to the end of the run
  have hend := h.advance_eq (Nat.lt_succ_of_le hle)
  rw [Machine.advance_of_reaches hreaches 1] at hend
  have hn : m.steps = 0 + n := hreaches.steps_eq
  cases hstep : m.step program.toArray none with
  | running next =>
    simp only [Machine.advance, hstep] at hend
    exact h.1 (by rw [← hend])
  | stopped last =>
    simp only [Machine.advance, hstep] at hend
    have hbegun := Machine.steps_of_stopped_none hinstr hstep
    rw [hend] at hbegun
    omega

/-- **A run under a limit ends as it does without one, or is cut short.** It is cut short only if it is
longer than the limit. -/
theorem run_some_cases (program : Program) (limit : Nat) :
    (program.Ends (program.run (some limit)) ∧ (program.run (some limit)).machine.steps ≤ limit)
      ∨ (program.CutShort limit ∧ ∀ run, program.Ends run → limit < run.machine.steps) := by
  have hrun : program.run (some limit)
      = Machine.initial.advance program.toArray (some limit) (limit + 1) := rfl
  have hstart : Machine.initial.steps + limit = limit := Nat.zero_add limit
  rcases @Machine.advance_some program.toArray _ _ _ hstart
    with ⟨hsame, houtcome, hsteps⟩ | ⟨m, instr, hreaches, hinstr, hcut⟩
  · left
    rw [hrun, hsame]
    exact ⟨⟨houtcome, limit + 1, rfl⟩, hsteps⟩
  · right
    refine ⟨⟨?_, ?_⟩, fun run h => h.lt_steps hreaches hinstr⟩
    · rw [hrun, hcut]
    · rw [hrun, hcut]
      exact hreaches

/-- **A step limit only cuts runs short.** A run that ends without a limit, after some number of
instructions, ends in the same way under every limit from that number on, and every smaller limit cuts it
short. A run that never ends is cut short by every limit. So a run under a limit always ends, after at most
as many instructions. -/
theorem run_limited (program : Program) :
    (∀ run, program.Ends run →
        (∀ limit, run.machine.steps ≤ limit → program.run (some limit) = run)
          ∧ (∀ limit, limit < run.machine.steps → program.CutShort limit)
          ∧ (run.machine.steps < UInt64.size → program.run none = run))
      ∧ ((∀ run, ¬ program.Ends run) →
          (program.run none).outcome = .unfinished ∧ ∀ limit, program.CutShort limit)
      ∧ ∀ limit, (program.run (some limit)).outcome ≠ .unfinished
          ∧ (program.run (some limit)).machine.steps ≤ limit := by
  refine ⟨?_, ?_, ?_⟩
  · intro run h
    refine ⟨?_, ?_, h.advance_eq⟩
    · intro limit hlimit
      rcases run_some_cases program limit with ⟨hends, -⟩ | ⟨-, hlong⟩
      · exact hends.unique h
      · exact absurd hlimit (Nat.not_le_of_lt (hlong run h))
    · intro limit hlimit
      rcases run_some_cases program limit with ⟨hends, hsteps⟩ | ⟨hshort, -⟩
      · rw [hends.unique h] at hsteps
        exact absurd hlimit (Nat.not_lt_of_le hsteps)
      · exact hshort
  · intro h
    refine ⟨Classical.byContradiction fun houtcome => h _ ⟨houtcome, _, rfl⟩, ?_⟩
    intro limit
    rcases run_some_cases program limit with ⟨hends, -⟩ | ⟨hshort, -⟩
    · exact absurd hends (h _)
    · exact hshort
  · intro limit
    rcases run_some_cases program limit with ⟨hends, hsteps⟩ | ⟨hshort, -⟩
    · exact ⟨hends.1, hsteps⟩
    · have hsteps : (program.run (some limit)).machine.steps = 0 + limit := hshort.reaches.steps_eq
      exact ⟨by simp [hshort.outcome], by omega⟩

/-- A program whose second instruction faults. -/
def dividing : Program := [.set 0 7, .arith .div 0 (.slot 0) (.literal 0)]

/-- A program that never gets past its first instruction. -/
def circling : Program := [.jump 0]

theorem advance_circling (count : Nat) {m : Machine} (h : m.address = 0) :
    (m.advance circling.toArray none count).outcome = .unfinished := by
  induction count generalizing m with
  | zero => rfl
  | succ count ih =>
    have hstep : m.step circling.toArray none = .running (m.begin.apply (.moveTo 0)) := by
      simp only [Machine.step, h]
      rfl
    rw [Machine.advance, hstep]
    exact ih rfl

theorem not_ends_circling (run : Run) : ¬ circling.Ends run := by
  rintro ⟨houtcome, count, rfl⟩
  exact houtcome (advance_circling count rfl)

/-- The faulting instruction is the second: a limit of two lets it fault, a limit of one does not. -/
theorem run_limited_dividing :
    ∃ run, dividing.Ends run ∧ run.outcome = .faulted (.divisionByZero 1 .div)
      ∧ run.machine.steps = 2 ∧ dividing.run (some 2) = run ∧ dividing.CutShort 1
      ∧ (∀ run, ¬ circling.Ends run) ∧ circling.CutShort 1000 := by
  have hends : dividing.Ends (Machine.initial.advance dividing.toArray none 2) := by
    exact ⟨by decide, 2, rfl⟩
  obtain ⟨hlarge, hsmall, -⟩ := (run_limited dividing).1 _ hends
  refine ⟨_, hends, rfl, rfl, hlarge 2 (by decide), hsmall 1 (by decide), not_ends_circling, ?_⟩
  exact ((run_limited circling).2.1 not_ends_circling).2 1000

end Program

end RegisterLang
