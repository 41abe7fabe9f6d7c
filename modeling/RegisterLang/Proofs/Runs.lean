import RegisterLang.Machine.Run

/-!
# Counted runs

A run as a sequence of instructions, each of which leaves a machine that goes on.

* `Machine.Reaches`: a machine gets to another one in a given number of instructions.
  `Machine.Reaches.remaining` says that it gets there on one way only.
* `Machine.step_eq_running_iff`: what an instruction does when the run goes on after it.
* `Machine.step_eq_stopped`: how a run stops.
* `Machine.advance_eq_of_stopped`: a machine that stops somewhere stops there for every budget that is
  large enough, and `Machine.advance_of_le` says that no smaller budget comes to an end.
* `Machine.Reaches.steps_le`: a run never begins more instructions than its limit allows.
-/

namespace RegisterLang.Machine

variable {code : Array Instr} {limit : Option Nat}

/-- The machine goes on for the given number of instructions and becomes the other one. -/
inductive Reaches (code : Array Instr) (limit : Option Nat) : Nat → Machine → Machine → Prop
  | refl (m : Machine) : Reaches code limit 0 m m
  | step {n : Nat} {m m' m'' : Machine} (first : m.step code limit = .running m')
      (rest : Reaches code limit n m' m'') : Reaches code limit (n + 1) m m''

namespace Reaches

theorem single {m m' : Machine} (h : m.step code limit = .running m') :
    Reaches code limit 1 m m' := .step h (.refl m')

theorem trans {j k : Nat} {m m' m'' : Machine} (h : Reaches code limit j m m')
    (h' : Reaches code limit k m' m'') : Reaches code limit (j + k) m m'' := by
  induction h with
  | refl m => rwa [Nat.zero_add]
  | step first rest ih =>
    rw [Nat.add_right_comm]
    exact .step first (ih h')

/-- From where a run is after some instructions it goes on as it did. -/
theorem remaining {j k : Nat} {m m' m'' : Machine} (h : Reaches code limit j m m')
    (hlater : Reaches code limit (j + k) m m'') : Reaches code limit k m' m'' := by
  induction h with
  | refl m => rwa [Nat.zero_add] at hlater
  | step first rest ih =>
    rw [Nat.add_right_comm] at hlater
    cases hlater with
    | step first' rest' =>
      cases first.symm.trans first'
      exact ih rest'

/-- The last instruction of a run. -/
theorem exists_last {n : Nat} {m m'' : Machine} (h : Reaches code limit (n + 1) m m'') :
    ∃ m', Reaches code limit n m m' ∧ m'.step code limit = .running m'' := by
  induction n generalizing m with
  | zero =>
    cases h with
    | step first rest =>
      cases rest
      exact ⟨m, .refl m, first⟩
  | succ n ih =>
    cases h with
    | step first rest =>
      obtain ⟨m', hbefore, hlast⟩ := ih rest
      exact ⟨m', .step first hbefore, hlast⟩

end Reaches

/-! ## One instruction -/

/-- **An instruction after which the run goes on**: it is in the program, the limit allows it, and it
has an effect other than the end of the run. -/
theorem step_eq_running_iff {m m' : Machine} :
    m.step code limit = .running m'
      ↔ ∃ instr effect, code[m.address]? = some instr ∧ m.limitFault? limit = none
        ∧ m.effect code.size instr = .ok effect ∧ (∀ result, effect ≠ .halt result)
        ∧ m' = m.begin.apply effect := by
  unfold step
  split
  · rename_i hnone
    simp [hnone]
  · rename_i instr hinstr
    split
    · rename_i fault hfault
      simp [hfault]
    · rename_i hlimit
      split
      · rename_i fault heffect
        simp [hinstr, heffect]
      · rename_i result heffect
        constructor
        · intro h
          cases h
        · rintro ⟨_, _, hinstr', -, heffect', hhalt, -⟩
          cases hinstr.symm.trans hinstr'
          cases heffect.symm.trans heffect'
          exact absurd rfl (hhalt result)
      · rename_i effect hhalt heffect
        constructor
        · intro h
          cases h
          exact ⟨instr, effect, hinstr, hlimit, heffect, hhalt, rfl⟩
        · rintro ⟨_, _, hinstr', -, heffect', -, rfl⟩
          cases hinstr.symm.trans hinstr'
          cases heffect.symm.trans heffect'
          rfl

/-- An instruction that ends the run with a value. -/
theorem step_of_halt {m : Machine} {instr : Instr} {result : Int64}
    (hinstr : code[m.address]? = some instr) (hlimit : m.limitFault? limit = none)
    (heffect : m.effect code.size instr = .ok (.halt result)) :
    m.step code limit = .stopped ⟨.finished (some result), m.begin⟩ := by
  simp only [step, hinstr, hlimit, heffect]

/-- An instruction that faults. -/
theorem step_of_error {m : Machine} {instr : Instr} {fault : Fault}
    (hinstr : code[m.address]? = some instr) (hlimit : m.limitFault? limit = none)
    (heffect : m.effect code.size instr = .error fault) :
    m.step code limit = .stopped ⟨.faulted fault, m.begin⟩ := by
  simp only [step, hinstr, hlimit, heffect]

/-- **How a run stops**: at the end of the program, because of its limit, or with an instruction that
faults or returns. -/
theorem step_eq_stopped {m : Machine} {run : Run} (h : m.step code limit = .stopped run) :
    (code[m.address]? = none ∧ run = ⟨.finished none, m⟩)
      ∨ (∃ fault, m.limitFault? limit = some fault ∧ run = ⟨.faulted fault, m⟩)
      ∨ ∃ instr, code[m.address]? = some instr ∧ m.limitFault? limit = none
        ∧ ((∃ fault, m.effect code.size instr = .error fault ∧ run = ⟨.faulted fault, m.begin⟩)
          ∨ ∃ result, m.effect code.size instr = .ok (.halt result)
            ∧ run = ⟨.finished (some result), m.begin⟩) := by
  unfold step at h
  split at h
  · rename_i hend
    cases h
    exact .inl ⟨hend, rfl⟩
  · rename_i instr hinstr
    split at h
    · rename_i fault hfault
      cases h
      exact .inr (.inl ⟨fault, hfault, rfl⟩)
    · rename_i hlimit
      split at h
      · rename_i fault heffect
        cases h
        exact .inr (.inr ⟨instr, hinstr, hlimit, .inl ⟨fault, heffect, rfl⟩⟩)
      · rename_i result heffect
        cases h
        exact .inr (.inr ⟨instr, hinstr, hlimit, .inr ⟨result, heffect, rfl⟩⟩)
      · cases h

/-- The last instruction of a run counts, unless the limit forbids it or the program has ended. -/
theorem steps_of_stopped {m : Machine} {run : Run} (h : m.step code limit = .stopped run) :
    run.machine.steps = m.steps
      ∨ run.machine.steps = m.steps + 1 ∧ m.limitFault? limit = none := by
  obtain ⟨-, rfl⟩ | ⟨_, -, rfl⟩ | ⟨_, -, hlimit, ⟨_, -, rfl⟩ | ⟨_, -, rfl⟩⟩ := step_eq_stopped h
  · exact .inl rfl
  · exact .inl rfl
  · exact .inr ⟨rfl, hlimit⟩
  · exact .inr ⟨rfl, hlimit⟩

/-- The limit has a fault of its own, which names no address. -/
theorem limitFault?_eq_some {m : Machine} {fault : Fault} (h : m.limitFault? limit = some fault) :
    ∃ most, fault = .stepLimitExceeded most := by
  cases limit with
  | none => cases h
  | some most =>
    obtain ⟨-, hfault⟩ := Option.ite_none_right_eq_some.mp h
    cases hfault
    exact ⟨most, rfl⟩

theorem limitFault?_some_eq_none {m : Machine} {most : Nat}
    (h : m.limitFault? (some most) = none) : m.steps < most := by
  unfold limitFault? at h
  simpa using h

@[simp] theorem steps_begin (m : Machine) : m.begin.steps = m.steps + 1 := rfl

@[simp] theorem steps_apply (m : Machine) (effect : Effect) : (m.apply effect).steps = m.steps := by
  cases effect <;> rfl

/-! ## Runs of many instructions -/

theorem Reaches.steps_eq {n : Nat} {m m' : Machine} (h : Reaches code limit n m m') :
    m'.steps = m.steps + n := by
  induction h with
  | refl m => rfl
  | step first rest ih =>
    obtain ⟨_, effect, -, -, -, -, rfl⟩ := step_eq_running_iff.mp first
    rw [ih, steps_apply, steps_begin]
    omega

/-- **A run begins no more instructions than its limit allows.** -/
theorem Reaches.steps_le {most n : Nat} {m m' : Machine} (h : Reaches code (some most) n m m')
    (hm : m.steps ≤ most) : m'.steps ≤ most := by
  induction h with
  | refl m => exact hm
  | step first rest ih =>
    obtain ⟨_, effect, -, hlimit, -, -, rfl⟩ := step_eq_running_iff.mp first
    apply ih
    rw [steps_apply, steps_begin]
    exact limitFault?_some_eq_none hlimit

theorem advance_of_reaches {n : Nat} {m m' : Machine} (h : Reaches code limit n m m') (budget : Nat) :
    m.advance code limit (n + budget) = m'.advance code limit budget := by
  induction h with
  | refl m => rw [Nat.zero_add]
  | step first rest ih => rw [Nat.add_right_comm, advance, first, ← ih]

/-- A run that stops has the same end for every budget that lets it stop. -/
theorem advance_eq_of_stopped {n budget : Nat} {m m' : Machine} {run : Run}
    (h : Reaches code limit n m m') (hstop : m'.step code limit = .stopped run) (hn : n < budget) :
    m.advance code limit budget = run := by
  obtain ⟨more, rfl⟩ : ∃ more, budget = n + (more + 1) := ⟨budget - n - 1, by omega⟩
  rw [advance_of_reaches h, advance, hstop]

/-- **A run uses up its budget, or stops at a machine that it reaches.** -/
theorem advance_cases (code : Array Instr) (limit : Option Nat) (budget : Nat) (m : Machine) :
    (∃ m', Reaches code limit budget m m' ∧ m.advance code limit budget = ⟨.unfinished, m'⟩)
      ∨ ∃ n m', Reaches code limit n m m'
        ∧ m'.step code limit = .stopped (m.advance code limit budget) := by
  induction budget generalizing m with
  | zero => exact .inl ⟨m, .refl m, rfl⟩
  | succ budget ih =>
    rw [advance]
    cases hstep : m.step code limit with
    | stopped run => exact .inr ⟨0, m, .refl m, hstep⟩
    | running next =>
      rcases ih next with ⟨m', hreaches, hadvance⟩ | ⟨n, m', hreaches, hstopped⟩
      · exact .inl ⟨m', .step hstep hreaches, hadvance⟩
      · exact .inr ⟨n + 1, m', .step hstep hreaches, hstopped⟩

theorem exists_stopped_of_advance {budget : Nat} {m : Machine}
    (h : (m.advance code limit budget).outcome ≠ .unfinished) :
    ∃ n m', Reaches code limit n m m'
      ∧ m'.step code limit = .stopped (m.advance code limit budget) := by
  rcases advance_cases code limit budget m with ⟨m', -, hadvance⟩ | hstopped
  · rw [hadvance] at h
    exact absurd rfl h
  · exact hstopped

/-- A budget that is used up before the run stops leaves it unfinished. -/
theorem advance_of_le {n budget : Nat} {m m' : Machine} (h : Reaches code limit n m m')
    (hn : budget ≤ n) : (m.advance code limit budget).outcome = .unfinished := by
  induction h generalizing budget with
  | refl m =>
    obtain rfl := Nat.le_zero.mp hn
    rfl
  | step first rest ih =>
    cases budget with
    | zero => rfl
    | succ budget =>
      rw [advance, first]
      exact ih (Nat.le_of_succ_le_succ hn)

end RegisterLang.Machine
