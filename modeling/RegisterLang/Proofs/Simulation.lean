import RegisterLang.Proofs.Emission
import RegisterLang.Proofs.Runs
import RegisterLang.Statement.Meaning

/-!
# Compiled programs do what their statements mean

The interpreter of statements knows variables by name and no addresses; the machine knows registers and
jumps. A machine that starts on the code of a body with the values of a store goes through the
interpretation of that body, instruction by instruction.

* `Machine.Holds`: the machine has the values and the step count of the store.
* `Simulates`: a machine follows an interpretation to its end.
* `Body.simulates`: every machine that stands at the code of a body simulates its interpretation.
* `CodeUnit.run_agrees`: a compiled program and its source have the same outcome.
-/

namespace RegisterLang

/-! ## Machines and stores -/

namespace Store

/-- The store after one more step. -/
def tick (s : Store) : Store := { s with steps := s.steps + 1 }

theorem holds_tick (s : Store) (c : Condition) : s.tick.holds c = s.holds c := rfl

theorem result_tick (s : Store) (address : Nat) (op : Operator) (lhs rhs : String) :
    s.tick.result address op lhs rhs = s.result address op lhs rhs := rfl

end Store

/-- The machine holds the store: each name has its value in its slot, and as many steps were taken. -/
structure Machine.Holds (symbols : SymbolTable) (m : Machine) (s : Store) : Prop where
  steps : m.steps = s.steps
  values : ∀ name ∈ symbols.names, m.registers[symbols.slot name]? = some (s.values name)

namespace Machine.Holds

variable {symbols : SymbolTable} {m : Machine} {s : Store}

theorem initial (hcount : symbols.names.length ≤ registerCount) :
    Machine.initial.Holds symbols Store.initial where
  steps := rfl
  values name hname := by
    have hlt := Nat.lt_of_lt_of_le (SymbolTable.slot_lt_length hname) hcount
    simp [Machine.initial, Store.initial, hlt]

theorem read (hm : m.Holds symbols s) {name : String} (hname : name ∈ symbols.names) :
    m.read (symbols.slot name) = .ok (s.values name) := by
  obtain ⟨hlt, hvalue⟩ := Vector.getElem?_eq_some_iff.mp (hm.values name hname)
  rw [Machine.read, dif_pos hlt, hvalue]

/-- An operand has the value that its text has in the store. -/
theorem value (hm : m.Holds symbols s) {text : String} (htext : symbols.Knows text) :
    m.value (.ofText symbols text) = .ok (s.value text) := by
  unfold Operand.ofText Store.value
  split
  · rfl
  · rename_i hname
    exact hm.read (htext.resolve_left hname)

theorem begin (hm : m.Holds symbols s) :
    m.begin.Holds symbols s.tick where
  steps := congrArg (· + 1) hm.steps
  values := hm.values

theorem setFlag (hm : m.Holds symbols s) (flag : Bool) :
    (m.apply (.setFlag flag)).Holds symbols s := ⟨hm.steps, hm.values⟩

theorem moveTo (hm : m.Holds symbols s) (address : Nat) :
    (m.apply (.moveTo address)).Holds symbols s := ⟨hm.steps, hm.values⟩

/-- Distinct names have distinct slots, so storing one value changes one variable. -/
theorem store (hm : m.Holds symbols s) {name : String} (hname : name ∈ symbols.names)
    (hlt : symbols.slot name < registerCount) (value : Int64) :
    (m.apply (.store ⟨symbols.slot name, hlt⟩ value)).Holds symbols (s.assign name value) where
  steps := hm.steps
  values other hother := by
    simp only [Machine.apply, Store.assign]
    by_cases h : other = name
    · subst h
      simp [hlt]
    · have hslot : symbols.slot name ≠ symbols.slot other := by
        intro heq
        exact h (SymbolTable.eq_of_slot_eq hname hother heq).symm
      rw [if_neg h, ← hm.values other hother]
      exact Vector.getElem?_set_ne hlt hslot

/-- A comparison sets the flag to the truth of the condition. -/
theorem effect_compare (hm : m.Holds symbols s) {c : Condition} (hlhs : symbols.Knows c.lhs)
    (hrhs : symbols.Knows c.rhs) (size : Nat) :
    m.effect size (c.instr symbols) = .ok (.setFlag (s.holds c)) := by
  have hflag : ((Relation.ofSymbol? c.relation).getD .eq).holds (s.value c.lhs) (s.value c.rhs)
      = s.holds c := by
    rw [Bool.eq_iff_iff, Relation.holds_iff, Store.holds, decide_eq_true_iff]
  rw [Condition.instr, Machine.effect, hm.value hlhs, hm.value hrhs, ← hflag]
  rfl

/-- An arithmetic instruction has the result, or the fault, of the operation on the two variables. -/
theorem effect_arith (hm : m.Holds symbols s) {lhs rhs : String} (hlhs : symbols.Knows lhs)
    (hrhs : symbols.Knows rhs) (size dest : Nat) (op : Operator) :
    m.effect size (.arith op dest (.ofText symbols lhs) (.ofText symbols rhs))
      = (s.result m.address op lhs rhs).bind (m.storing dest) := by
  rw [Machine.effect, Machine.arguments, hm.value hlhs, hm.value hrhs, Store.result]
  by_cases hdivides : op.divides = true
  · by_cases hzero : s.value rhs = 0
    · simp [hdivides, hzero, bind, Except.bind]
    · cases happly : op.apply? (s.value lhs) (s.value rhs) <;>
        simp [hdivides, hzero, happly, bind, Except.bind]
  · cases happly : op.apply? (s.value lhs) (s.value rhs) <;>
      simp [hdivides, happly, bind, Except.bind]

theorem storing (hcount : symbols.names.length ≤ registerCount) {name : String}
    (hname : name ∈ symbols.names) (m : Machine) (value : Int64) :
    ∃ hlt, m.storing (symbols.slot name) value
      = .ok (.store ⟨symbols.slot name, hlt⟩ value) := by
  have hlt := Nat.lt_of_lt_of_le (SymbolTable.slot_lt_length hname) hcount
  exact ⟨hlt, dif_pos hlt⟩

/-- The limit stops the machine when it stops the interpretation. -/
theorem step_eq (hm : m.Holds symbols s) (limit : Option Nat) (next : Store → Ending × Store) :
    s.step limit next
      = match m.limitFault? limit with
        | some fault => (.faulted fault, s)
        | none => next s.tick := by
  cases limit with
  | none => rfl
  | some most =>
    simp only [Store.step, Machine.limitFault?, hm.steps]
    split <;> rfl

end Machine.Holds

/-! ## Code in place -/

/-- The code of a body stands at an address of the program, and the table has the names in it. -/
structure Body.Loaded (code : Array Instr) (symbols : SymbolTable) (address : Nat) (body : Body) :
    Prop where
  fits : address + body.size ≤ code.size
  instrs : ∀ entry ∈ body.placed symbols address, code[entry.2]? = some entry.1
  resolved : ∀ lexeme ∈ body.lexemes, lexeme.Resolved symbols

/-- A condition stands at an address of the program, with the jump that it decides. -/
structure Condition.Loaded (code : Array Instr) (symbols : SymbolTable) (address target : Nat)
    (c : Condition) : Prop where
  compare : code[address]? = some (c.instr symbols)
  jump : code[address + 1]? = some (.jumpIfFalse target)
  target_le : target ≤ code.size
  lhs : symbols.Knows c.lhs
  rhs : symbols.Knows c.rhs

namespace Body.Loaded

variable {code : Array Instr} {symbols : SymbolTable} {address : Nat}

/-- A statement of one instruction, and the rest of the body behind it. -/
theorem cons {body rest : Body} {instr : Instr} {lexeme : Lexeme}
    (h : body.Loaded code symbols address)
    (hcode : body.code symbols address = instr :: rest.code symbols (address + 1))
    (hsize : body.size = 1 + rest.size) (hlexemes : body.lexemes = lexeme :: rest.lexemes) :
    code[address]? = some instr ∧ lexeme.Resolved symbols
      ∧ rest.Loaded code symbols (address + 1) := by
  have hinstrs := h.instrs
  have hresolved := h.resolved
  have hfits := h.fits
  rw [placed_cons hcode] at hinstrs
  rw [hlexemes] at hresolved
  exact ⟨hinstrs _ List.mem_cons_self, hresolved _ List.mem_cons_self, by omega,
    fun entry hentry => hinstrs entry (List.mem_cons_of_mem _ hentry),
    fun lexeme hlexeme => hresolved lexeme (List.mem_cons_of_mem _ hlexeme)⟩

theorem branch {c : Condition} {body rest : Body}
    (h : (branch c body rest).Loaded code symbols address) :
    c.Loaded code symbols address (address + 2 + body.size)
      ∧ body.Loaded code symbols (address + 2)
      ∧ rest.Loaded code symbols (address + 2 + body.size) := by
  obtain ⟨hfits, hinstrs, hresolved⟩ := h
  simp only [size] at hfits
  simp only [placed_branch, Block.control, Block.exit, List.cons_append, List.nil_append,
    List.mem_cons, List.mem_append] at hinstrs
  simp only [lexemes, List.cons_append, List.mem_cons, List.mem_append] at hresolved
  obtain ⟨hlhs, hrhs⟩ := hresolved _ (.inl rfl)
  refine ⟨⟨hinstrs _ (.inl rfl), hinstrs _ (.inr (.inl rfl)), by omega, hlhs, hrhs⟩,
    ⟨by omega, ?_, ?_⟩, ⟨by omega, ?_, ?_⟩⟩
  · intro entry hentry
    exact hinstrs entry (.inr (.inr (.inl hentry)))
  · intro lexeme hlexeme
    exact hresolved lexeme (.inr (.inl hlexeme))
  · intro entry hentry
    exact hinstrs entry (.inr (.inr (.inr hentry)))
  · intro lexeme hlexeme
    exact hresolved lexeme (.inr (.inr (.inr hlexeme)))

theorem loop {c : Condition} {body rest : Body}
    (h : (loop c body rest).Loaded code symbols address) :
    c.Loaded code symbols address (address + 3 + body.size)
      ∧ body.Loaded code symbols (address + 2)
      ∧ code[address + 2 + body.size]? = some (.jump address)
      ∧ rest.Loaded code symbols (address + 3 + body.size) := by
  obtain ⟨hfits, hinstrs, hresolved⟩ := h
  simp only [size] at hfits
  simp only [mem_placed_loop, Block.control, Block.exit, List.mem_cons, List.not_mem_nil,
    or_false] at hinstrs
  simp only [lexemes, List.cons_append, List.mem_cons, List.mem_append] at hresolved
  obtain ⟨hlhs, hrhs⟩ := hresolved _ (.inl rfl)
  refine ⟨⟨hinstrs _ (.inl (.inl rfl)), hinstrs _ (.inl (.inr (.inl rfl))), by omega, hlhs, hrhs⟩,
    ⟨by omega, ?_, ?_⟩, hinstrs _ (.inl (.inr (.inr rfl))), ⟨by omega, ?_, ?_⟩⟩
  · intro entry hentry
    exact hinstrs entry (.inr (.inl hentry))
  · intro lexeme hlexeme
    exact hresolved lexeme (.inr (.inl hlexeme))
  · intro entry hentry
    exact hinstrs entry (.inr (.inr hentry))
  · intro lexeme hlexeme
    exact hresolved lexeme (.inr (.inr (.inr hlexeme)))

end Body.Loaded

/-! ## Following an interpretation -/

/-- The machine follows an interpretation that ends with the given result. One that passes leaves the
machine at the exit. One that is given up in a loop leaves it running, after at least the given number
of instructions. -/
inductive Simulates (code : Array Instr) (limit : Option Nat) (symbols : SymbolTable)
    (least exit : Nat) (m : Machine) : Ending × Store → Prop
  | passed {n : Nat} {m' : Machine} {s : Store} (reaches : m.Reaches code limit n m')
      (address : m'.address = exit) (holds : m'.Holds symbols s) :
      Simulates code limit symbols least exit m (.passed, s)
  | returned {n : Nat} {m' last : Machine} {s : Store} {value : Int64}
      (reaches : m.Reaches code limit n m')
      (stops : m'.step code limit = .stopped ⟨.finished (some value), last⟩)
      (holds : last.Holds symbols s) :
      Simulates code limit symbols least exit m (.returned value, s)
  | faulted {n : Nat} {m' last : Machine} {s : Store} {fault : Fault}
      (reaches : m.Reaches code limit n m')
      (stops : m'.step code limit = .stopped ⟨.faulted fault, last⟩)
      (holds : last.Holds symbols s) :
      Simulates code limit symbols least exit m (.faulted fault, s)
  | unfinished {n : Nat} {m' : Machine} {s : Store} (reaches : m.Reaches code limit n m')
      (long : least ≤ n) :
      Simulates code limit symbols least exit m (.unfinished, s)

namespace Simulates

variable {code : Array Instr} {limit : Option Nat} {symbols : SymbolTable}
  {least exit : Nat} {m : Machine} {s : Store}

/-- What a later machine follows, the earlier one follows too. -/
theorem of_reaches {n fewer : Nat} {m' : Machine} {result : Ending × Store}
    (hreach : m.Reaches code limit n m') (h : Simulates code limit symbols fewer exit m' result)
    (hleast : least ≤ fewer + n) : Simulates code limit symbols least exit m result := by
  cases h with
  | passed reaches address holds => exact .passed (hreach.trans reaches) address holds
  | returned reaches stops holds => exact .returned (hreach.trans reaches) stops holds
  | faulted reaches stops holds => exact .faulted (hreach.trans reaches) stops holds
  | unfinished reaches long => exact .unfinished (hreach.trans reaches) (by omega)

/-- Statements in sequence. -/
theorem andThen {middle : Nat} {result : Ending × Store} {next : Store → Ending × Store}
    (h : Simulates code limit symbols least middle m result)
    (hnext : ∀ m' s', m'.address = middle → m'.Holds symbols s' →
      Simulates code limit symbols least exit m' (next s')) :
    Simulates code limit symbols least exit m
      (match result with
        | (.passed, s) => next s
        | stopped => stopped) := by
  cases h with
  | passed reaches address holds =>
    exact of_reaches reaches (hnext _ _ address holds) (Nat.le_add_right _ _)
  | returned reaches stops holds => exact .returned reaches stops holds
  | faulted reaches stops holds => exact .faulted reaches stops holds
  | unfinished reaches long => exact .unfinished reaches long

/-- One step: the limit stops both, or neither. -/
theorem of_step (hm : m.Holds symbols s) {instr : Instr} (hinstr : code[m.address]? = some instr)
    {next : Store → Ending × Store}
    (hnext : m.limitFault? limit = none →
      Simulates code limit symbols least exit m (next s.tick)) :
    Simulates code limit symbols least exit m (s.step limit next) := by
  rw [hm.step_eq limit next]
  split
  · rename_i fault hfault
    have hstops : m.step code limit = .stopped ⟨.faulted fault, m⟩ := by
      simp only [Machine.step, hinstr, hfault]
    exact .faulted (.refl m) hstops hm
  · rename_i hlimit
    exact hnext hlimit

/-- An instruction with an effect, and what follows it. -/
theorem of_effect (effect : Effect) (hm : m.Holds symbols s) {instr : Instr}
    (hinstr : code[m.address]? = some instr) (heffect : m.effect code.size instr = .ok effect)
    (hhalt : ∀ result, effect ≠ .halt result) {fewer : Nat} (hleast : least ≤ fewer + 1)
    {next : Store → Ending × Store}
    (hnext : m.begin.Holds symbols s.tick →
      Simulates code limit symbols fewer exit (m.begin.apply effect) (next s.tick)) :
    Simulates code limit symbols least exit m (s.step limit next) := by
  refine of_step hm hinstr ?_
  intro hlimit
  have hstep : m.step code limit = .running (m.begin.apply effect) :=
    Machine.step_eq_running_iff.mpr ⟨instr, effect, hinstr, hlimit, heffect, hhalt, rfl⟩
  exact of_reaches (.single hstep) (hnext hm.begin) hleast

/-- A condition: the comparison, and the jump that it decides. -/
theorem condition {address target : Nat} {c : Condition}
    (hc : c.Loaded code symbols address target) (haddress : m.address = address)
    (hm : m.Holds symbols s) (yes no : Store → Ending × Store)
    (hyes : ∀ m' s', m'.address = address + 2 → m'.Holds symbols s' →
      Simulates code limit symbols least exit m' (yes s'))
    (hno : ∀ m' s', m'.address = target → m'.Holds symbols s' →
      Simulates code limit symbols least exit m' (no s')) :
    Simulates code limit symbols least exit m
      (s.step limit fun s => s.step limit fun s => if s.holds c then yes s else no s) := by
  subst haddress
  refine of_effect (.setFlag (s.holds c)) hm hc.compare (hm.effect_compare hc.lhs hc.rhs code.size)
    (by simp) (Nat.le_succ least) ?_
  intro hm₁
  have hm₂ := hm₁.setFlag (s.holds c)
  cases hholds : s.holds c with
  | true =>
    rw [hholds] at hm₂
    refine of_effect (.moveTo (m.address + 2)) hm₂ hc.jump rfl (by simp) (Nat.le_succ least) ?_
    intro hm₃
    rw [Store.holds_tick, Store.holds_tick, hholds]
    exact hyes _ _ rfl (hm₃.moveTo _)
  | false =>
    rw [hholds] at hm₂
    refine of_effect (.moveTo target) hm₂ hc.jump (if_pos hc.target_le) (by simp)
      (Nat.le_succ least) ?_
    intro hm₃
    rw [Store.holds_tick, Store.holds_tick, hholds]
    exact hno _ _ rfl (hm₃.moveTo _)

/-- **The rounds of a loop**, by induction on how many are followed: each takes the condition, the body
and the jump back. -/
theorem rounds {address most : Nat} {c : Condition} {size : Nat} {body : Store → Ending × Store}
    (hc : c.Loaded code symbols address exit)
    (hback : code[address + 2 + size]? = some (.jump address)) (hfits : address ≤ code.size)
    (hbody : ∀ m' s', m'.address = address + 2 → m'.Holds symbols s' →
      Simulates code limit symbols most (address + 2 + size) m' (body s'))
    (count : Nat) (hcount : count ≤ most) (haddress : m.address = address)
    (hm : m.Holds symbols s) :
    Simulates code limit symbols count exit m (Body.rounds limit c body count s) := by
  induction count generalizing m s with
  | zero => exact .unfinished (.refl m) (Nat.le_refl 0)
  | succ count ih =>
    rw [Body.rounds]
    refine condition hc haddress hm _ (fun s => (.passed, s)) ?_ ?_
    · intro m₁ s₁ haddress₁ hm₁
      have hround : Simulates code limit symbols (count + 1) (address + 2 + size) m₁ (body s₁) :=
        of_reaches (.refl m₁) (hbody m₁ s₁ haddress₁ hm₁) hcount
      refine hround.andThen ?_
      intro m₂ s₂ haddress₂ hm₂
      rw [← haddress₂] at hback
      refine of_effect (.moveTo address) hm₂ hback (if_pos hfits) (by simp)
        (Nat.le_refl (count + 1)) ?_
      intro hm₃
      exact ih (Nat.le_of_succ_le hcount) rfl (hm₃.moveTo address)
    · intro m₁ s₁ haddress₁ hm₁
      exact .passed (.refl m₁) haddress₁ hm₁

end Simulates

/-- **A machine at the code of a body follows the interpretation of the body.** -/
theorem Body.simulates {code : Array Instr} {limit : Option Nat} {symbols : SymbolTable}
    (hcount : symbols.names.length ≤ registerCount) (fuel : Nat) (body : Body) {address exit : Nat}
    {m : Machine} {s : Store} (hbody : body.Loaded code symbols address)
    (hexit : exit = address + body.size) (haddress : m.address = address)
    (hm : m.Holds symbols s) :
    Simulates code limit symbols fuel exit m (body.interpret limit fuel address s) := by
  induction body generalizing address exit m s with
  | done => exact .passed (.refl m) (haddress.trans hexit.symm) hm
  | declare name value rest ih =>
    subst haddress
    obtain ⟨hinstr, hname, hrest⟩ := hbody.cons rfl rfl rfl
    obtain ⟨hlt, hstore⟩ := Machine.Holds.storing hcount hname m
      ((Text.int32OfText? value).getD 0).toInt64
    refine .of_effect _ hm hinstr hstore (by simp) (Nat.le_succ fuel) ?_
    intro hm₁
    have hexit' : exit = m.address + 1 + rest.size := by
      rw [hexit, size]
      omega
    exact ih hrest hexit' rfl (hm₁.store hname hlt _)
  | assign target lhs op rhs rest ih =>
    subst haddress
    obtain ⟨hinstr, ⟨htarget, hlhs, hrhs⟩, hrest⟩ := hbody.cons rfl rfl rfl
    have heffect := hm.effect_arith hlhs hrhs code.size (symbols.slot target) op
    refine .of_step hm hinstr ?_
    intro hlimit
    rw [Store.result_tick]
    cases hvalue : s.result m.address op lhs rhs with
    | error fault =>
      rw [hvalue] at heffect
      exact .faulted (.refl m) (Machine.step_of_error hinstr hlimit heffect) hm.begin
    | ok value =>
      rw [hvalue] at heffect
      obtain ⟨hlt, hstore⟩ := Machine.Holds.storing hcount htarget m value
      have hstep := Machine.step_eq_running_iff.mpr
        ⟨_, _, hinstr, hlimit, heffect.trans hstore, by simp, rfl⟩
      have hexit' : exit = m.address + 1 + rest.size := by
        rw [hexit, size]
        omega
      have hnext := ih hrest hexit' rfl (hm.begin.store htarget hlt value)
      exact .of_reaches (.single hstep) hnext (Nat.le_succ fuel)
  | give name rest ih =>
    subst haddress
    obtain ⟨hinstr, hname, -⟩ := hbody.cons rfl rfl rfl
    refine .of_step hm hinstr ?_
    intro hlimit
    have heffect : m.effect code.size (.ret (symbols.slot name)) = .ok (.halt (s.values name)) := by
      rw [Machine.effect, hm.read hname]
      rfl
    exact .returned (.refl m) (Machine.step_of_halt hinstr hlimit heffect) hm.begin
  | branch c body rest ihb ihr =>
    obtain ⟨hc, hbody, hrest⟩ := hbody.branch
    rw [size] at hexit
    refine .condition hc haddress hm _ _ ?_ ?_
    · intro m₁ s₁ haddress₁ hm₁
      refine (ihb hbody rfl haddress₁ hm₁).andThen ?_
      intro m₂ s₂ haddress₂ hm₂
      exact ihr hrest (by omega) haddress₂ hm₂
    · intro m₁ s₁ haddress₁ hm₁
      exact ihr hrest (by omega) haddress₁ hm₁
  | loop c body rest ihb ihr =>
    obtain ⟨hc, hbody, hback, hrest⟩ := hbody.loop
    have hfits := hrest.fits
    rw [size] at hexit
    have hrounds := Simulates.rounds hc hback (by omega)
      (fun m₁ s₁ haddress₁ hm₁ => ihb hbody rfl haddress₁ hm₁) fuel (Nat.le_refl fuel) haddress hm
    refine hrounds.andThen ?_
    intro m₁ s₁ haddress₁ hm₁
    exact ihr hrest (by omega) haddress₁ hm₁

/-! ## Whole programs -/

/-- The outcome of a run that ends in this way; none for an interpretation that was given up. -/
def Ending.outcome? : Ending → Option Outcome
  | passed => some (.finished none)
  | returned value => some (.finished (some value))
  | faulted fault => some (.faulted fault)
  | unfinished => none

/-- A run and an interpretation agree: both came to the same end after the same number of steps, and each
name of the table has its value in its register. -/
structure Run.Agrees (symbols : SymbolTable) (run : Run) (result : Ending × Store) : Prop where
  outcome : result.1.outcome? = some run.outcome
  steps : run.machine.steps = result.2.steps
  values : ∀ name slot, symbols.slotOf? name = some slot →
    run.machine.registers[slot]? = some (result.2.values name)

theorem Run.Agrees.ended {symbols : SymbolTable} {run : Run} {result : Ending × Store}
    (h : run.Agrees symbols result) : run.outcome ≠ .unfinished := by
  intro hunfinished
  have houtcome := h.outcome
  rw [hunfinished] at houtcome
  cases hending : result.1 <;> simp [hending, Ending.outcome?] at houtcome

namespace Simulates

variable {code : Array Instr} {limit : Option Nat} {symbols : SymbolTable} {least : Nat}
  {m : Machine} {result : Ending × Store}

/-- A machine that follows a whole program to its end stops there. -/
theorem exists_stopped (h : Simulates code limit symbols least code.size m result)
    (hended : result.1 ≠ .unfinished) :
    ∃ n m' run, m.Reaches code limit n m' ∧ m'.step code limit = .stopped run
      ∧ result.1.outcome? = some run.outcome ∧ run.machine.Holds symbols result.2 := by
  cases h with
  | passed reaches address holds =>
    refine ⟨_, _, ⟨.finished none, _⟩, reaches, ?_, rfl, holds⟩
    rw [Machine.step, address, Array.getElem?_eq_none (Nat.le_refl _)]
  | returned reaches stops holds => exact ⟨_, _, _, reaches, stops, rfl, holds⟩
  | faulted reaches stops holds => exact ⟨_, _, _, reaches, stops, rfl, holds⟩
  | unfinished reaches long => exact absurd rfl hended

/-- The run of a program agrees with the interpretation that its machine follows. -/
theorem agrees (h : Simulates code limit symbols least code.size .initial result)
    (hended : result.1 ≠ .unfinished) {budget : Nat} (hbudget : result.2.steps < budget) :
    (Machine.initial.advance code limit budget).Agrees symbols result := by
  obtain ⟨n, m', run, hreaches, hstops, houtcome, hholds⟩ := h.exists_stopped hended
  have hn : m'.steps = 0 + n := hreaches.steps_eq
  have hlast := Machine.steps_of_stopped hstops
  have hsteps := hholds.steps
  rw [Machine.advance_eq_of_stopped hreaches hstops (by omega)]
  refine ⟨houtcome, hsteps, ?_⟩
  intro name slot hslot
  obtain ⟨hname, rfl⟩ := SymbolTable.slotOf?_eq_some_iff.mp hslot
  exact hholds.values name hname

/-- Under a step limit, following more rounds than the limit has steps is following all of them. -/
theorem ended_of_limit {most : Nat}
    (h : Simulates code (some most) symbols least code.size .initial result) (hleast : most < least) :
    result.1 ≠ .unfinished ∧ result.2.steps ≤ most := by
  have hended : result.1 ≠ .unfinished := by
    cases h with
    | unfinished reaches long =>
      have hsteps := reaches.steps_eq
      have hmost := reaches.steps_le (Nat.zero_le most)
      have : Machine.initial.steps = 0 := rfl
      omega
    | _ => simp
  obtain ⟨n, m', run, hreaches, hstops, -, hholds⟩ := h.exists_stopped hended
  have hmost : m'.steps ≤ most := hreaches.steps_le (Nat.zero_le most)
  refine ⟨hended, ?_⟩
  rw [← hholds.steps]
  rcases Machine.steps_of_stopped hstops with hlast | ⟨hlast, hlimit⟩
  · omega
  · have := Machine.limitFault?_some_eq_none hlimit
    omega

end Simulates

theorem Body.loaded_code {symbols : SymbolTable} {body : Body}
    (h : ∀ lexeme ∈ body.lexemes, lexeme.Resolved symbols) :
    body.Loaded (body.code symbols 0).toArray symbols 0 where
  fits := by simp [length_code]
  instrs entry hentry := by
    rw [List.getElem?_toArray]
    exact List.mem_zipIdx_iff_getElem?.mp hentry
  resolved := h

/-- **A compiled program means what its source means.** The tokens of a program with a register for
each name stand for a body, and the program is the layout of that body. Under every step limit its run
agrees with the interpretation of the body, which comes to an end. Without a limit the run is finite
exactly if the interpretation is, and then they agree. -/
theorem CodeUnit.run_agrees {tokens : List Token} {unit : CodeUnit}
    (h : CodeUnit.ofTokens tokens = .ok unit)
    (hcount : unit.symbols.names.length ≤ registerCount) :
    ∃ body, Body.ofLexemes? (tokens.map Token.lexeme) = some body
      ∧ unit.program = body.code unit.symbols 0
      ∧ (∀ limit fuel, limit < fuel →
          (unit.program.run (some limit)).Agrees unit.symbols
            (body.interpret (some limit) fuel 0 Store.initial))
      ∧ (∀ fuel, (body.interpret none fuel 0 Store.initial).1 ≠ .unfinished →
          ∀ budget, (body.interpret none fuel 0 Store.initial).2.steps < budget →
            (Machine.initial.advance unit.program.toArray none budget).Agrees unit.symbols
              (body.interpret none fuel 0 Store.initial))
      ∧ ((∃ budget, (Machine.initial.advance unit.program.toArray none budget).outcome ≠ .unfinished)
          ↔ ∃ fuel, (body.interpret none fuel 0 Store.initial).1 ≠ .unfinished) := by
  obtain ⟨body, hbody, hprogram, hresolved⟩ := exists_body h
  have hloaded := Body.loaded_code hresolved
  rw [← hprogram] at hloaded
  have hsize : unit.program.toArray.size = 0 + body.size := by
    simp [hprogram, Body.length_code]
  have hfollows : ∀ limit fuel, Simulates unit.program.toArray limit unit.symbols fuel
      unit.program.toArray.size .initial (body.interpret limit fuel 0 Store.initial) := by
    intro limit fuel
    exact body.simulates hcount fuel hloaded hsize rfl (.initial hcount)
  refine ⟨body, hbody, hprogram, ?_, ?_, ?_, ?_⟩
  · intro limit fuel hfuel
    obtain ⟨hended, hsteps⟩ := (hfollows (some limit) fuel).ended_of_limit hfuel
    exact (hfollows (some limit) fuel).agrees hended (Nat.lt_succ_of_le hsteps)
  · intro fuel hended budget hbudget
    exact (hfollows none fuel).agrees hended hbudget
  · -- an interpretation that is given up after as many rounds as the run has steps has not ended
    rintro ⟨budget, hfinite⟩
    refine ⟨budget, ?_⟩
    intro hunfinished
    apply hfinite
    generalize hresult : body.interpret none budget 0 Store.initial = result at hunfinished
    have hlong := hfollows none budget
    rw [hresult] at hlong
    cases hlong with
    | unfinished reaches long => exact Machine.advance_of_le reaches long
    | _ => cases hunfinished
  · rintro ⟨fuel, hended⟩
    exact ⟨_, ((hfollows none fuel).agrees hended (Nat.lt_succ_self _)).ended⟩

theorem CodeUnit.run_agrees_sum :
    ofTokens sumTokens = .ok sumUnit ∧ sumUnit.symbols.names.length ≤ registerCount
      ∧ (∃ body, Body.ofLexemes? (sumTokens.map Token.lexeme) = some body
        ∧ (sumUnit.program.run (some 30)).Agrees sumUnit.symbols
          (body.interpret (some 30) 31 0 Store.initial))
      ∧ (sumUnit.program.run (some 30)).outcome = .finished (some 2)
      ∧ (sumUnit.program.run (some 30)).machine.steps = 28 := by
  have h : ofTokens sumTokens = .ok sumUnit := rfl
  have hcount : sumUnit.symbols.names.length ≤ registerCount := by decide
  obtain ⟨body, hbody, -, hlimited, -⟩ := run_agrees h hcount
  have hagrees := hlimited 30 31 (by decide)
  cases hbody
  refine ⟨h, hcount, ⟨_, rfl, hagrees⟩, ?_, ?_⟩
  · exact Option.some.inj (hagrees.outcome.symm.trans (by decide))
  · exact hagrees.steps.trans (by decide)

end RegisterLang
