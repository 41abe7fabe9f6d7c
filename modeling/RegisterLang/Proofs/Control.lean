import RegisterLang.Proofs.Emission
import RegisterLang.Proofs.Faults

/-!
# Control flow of compiled programs

A run goes from an instruction to the next one or to the target of a jump. In a compiled program every
target is the start of a statement or the end of the program, so no jump leads between a comparison and
the conditional jump behind it.

* `Instr.CanFault`: what an instruction must be like to fault in a given way.
* `Body.starts`: where the statements of a body start; `Body.head_succ_notMem_starts` says that the
  conditional jump of a block stands nowhere there.
* `Program.Sound`: slots, targets and conditional jumps are as a compiler leaves them.
* `Program.Sound.compared_before`: in a run of a sound program a conditional jump comes right after its
  comparison.
* `CodeUnit.run_controlled`: what can go wrong in a run of a compiled program.
-/

namespace RegisterLang

/-! ## Instructions that fault -/

/-- The instruction has what the fault is about, in a program of the given size. The step limit is no
matter of an instruction. -/
def Instr.CanFault (size : Nat) (instr : Instr) : Fault → Prop
  | .registerOutOfRange _ slot => slot ∈ instr.slots ∧ registerCount ≤ slot
  | .jumpOutOfRange _ target _ => instr.jumpTarget? = some target ∧ size < target
  | .divisionByZero .. | .overflow .. => True
  | .stepLimitExceeded _ => False

/-- **An instruction faults only with a slot or a target of its own.** -/
theorem Machine.canFault_of_effect {m : Machine} {size : Nat} {instr : Instr} {fault : Fault}
    (h : m.effect size instr = .error fault) : instr.CanFault size fault := by
  have hjustified := justifies_of_effect h
  cases fault with
  | registerOutOfRange address slot => exact hjustified.2
  | jumpOutOfRange address target size =>
    obtain ⟨-, -, htarget, rfl | ⟨rfl, -⟩⟩ := hjustified <;> exact ⟨rfl, htarget⟩
  | divisionByZero address op | overflow address op => trivial
  | stepLimitExceeded most => exact hjustified

/-! ## Where statements start -/

namespace Body

/-- The addresses at which the statements of a body start, and the address behind the body. -/
def starts : (address : Nat) → Body → List Nat
  | address, done => [address]
  | address, declare _ _ rest => address :: rest.starts (address + 1)
  | address, assign _ _ _ _ rest => address :: rest.starts (address + 1)
  | address, give _ rest => address :: rest.starts (address + 1)
  | address, branch _ body rest =>
    address :: (body.starts (address + 2) ++ rest.starts (address + 2 + body.size))
  | address, loop _ body rest =>
    address :: (body.starts (address + 2) ++ rest.starts (address + 3 + body.size))

theorem address_mem_starts (address : Nat) (body : Body) : address ∈ body.starts address := by
  cases body <;> simp [starts]

theorem starts_bounds {body : Body} {address start : Nat} (h : start ∈ body.starts address) :
    address ≤ start ∧ start ≤ address + body.size := by
  induction body generalizing address with
  | done =>
    simp only [starts, List.mem_singleton] at h
    simp only [size]
    omega
  | declare _ _ rest ih | assign _ _ _ _ rest ih | give _ rest ih =>
    simp only [size]
    rcases List.mem_cons.mp h with rfl | h
    · omega
    · have := ih h
      omega
  | branch c body rest ihb ihr | loop c body rest ihb ihr =>
    simp only [size]
    rcases List.mem_cons.mp h with rfl | h
    · omega
    · rcases List.mem_append.mp h with h | h
      · have := ihb h
        omega
      · have := ihr h
        omega

theorem blocks_bounds {body : Body} {address : Nat} {block : Block}
    (h : block ∈ body.blocks address) :
    address ≤ block.head ∧ block.exit ≤ address + body.size := by
  induction body generalizing address with
  | done => cases h
  | declare _ _ rest ih | assign _ _ _ _ rest ih | give _ rest ih =>
    have := ih h
    simp only [size]
    omega
  | branch c body rest ihb ihr | loop c body rest ihb ihr =>
    simp only [size]
    rcases List.mem_cons.mp h with rfl | h
    · simp only [Block.exit]
      omega
    · rcases List.mem_append.mp h with h | h
      · have := ihb h
        omega
      · have := ihr h
        omega

/-- **A block starts where a statement does, and so does what follows it.** -/
theorem head_exit_mem_starts {body : Body} {address : Nat} {block : Block}
    (h : block ∈ body.blocks address) :
    block.head ∈ body.starts address ∧ block.exit ∈ body.starts address := by
  induction body generalizing address with
  | done => cases h
  | declare _ _ rest ih | assign _ _ _ _ rest ih | give _ rest ih =>
    exact ⟨List.mem_cons_of_mem _ (ih h).1, List.mem_cons_of_mem _ (ih h).2⟩
  | branch c body rest ihb ihr | loop c body rest ihb ihr =>
    simp only [starts, List.mem_cons, List.mem_append]
    rcases List.mem_cons.mp h with rfl | h
    · exact ⟨.inl rfl, .inr (.inr (address_mem_starts _ rest))⟩
    · rcases List.mem_append.mp h with h | h
      · exact ⟨.inr (.inl (ihb h).1), .inr (.inl (ihb h).2)⟩
      · exact ⟨.inr (.inr (ihr h).1), .inr (.inr (ihr h).2)⟩

/-- **No statement starts at the conditional jump of a block.** -/
theorem head_succ_notMem_starts {body : Body} {address : Nat} {block : Block}
    (h : block ∈ body.blocks address) : block.head + 1 ∉ body.starts address := by
  induction body generalizing address with
  | done => cases h
  | declare _ _ rest ih | assign _ _ _ _ rest ih | give _ rest ih =>
    have hrest : block ∈ rest.blocks (address + 1) := h
    have hbounds := blocks_bounds hrest
    intro hstart
    rcases List.mem_cons.mp hstart with hstart | hstart
    · omega
    · exact ih hrest hstart
  | branch c body rest ihb ihr | loop c body rest ihb ihr =>
    intro hstart
    simp only [starts, List.mem_cons, List.mem_append] at hstart
    rcases List.mem_cons.mp h with rfl | h
    · change address + 1 = address ∨ address + 1 ∈ _ ∨ address + 1 ∈ _ at hstart
      rcases hstart with hstart | hstart | hstart
      · omega
      · have := starts_bounds hstart
        omega
      · have := starts_bounds hstart
        omega
    · have hexit := block.head_lt_exit
      rcases List.mem_append.mp h with h | h
      · have hbounds := blocks_bounds h
        rcases hstart with hstart | hstart | hstart
        · omega
        · exact ihb h hstart
        · have := starts_bounds hstart
          omega
      · have hbounds := blocks_bounds h
        rcases hstart with hstart | hstart | hstart
        · omega
        · have := starts_bounds hstart
          omega
        · exact ihr h hstart

end Body

/-! ## Slots and jumps in the code of a body -/

theorem Operand.slots_ofText {symbols : SymbolTable} {text : String} (h : symbols.Knows text) :
    ∀ slot ∈ (ofText symbols text).slots, slot < symbols.names.length := by
  intro slot hslot
  unfold ofText at hslot
  split at hslot
  · cases hslot
  · rename_i hnumeral
    rw [List.mem_singleton.mp hslot]
    exact SymbolTable.slot_lt_length (h.resolve_left hnumeral)

theorem Condition.slots_instr {symbols : SymbolTable} {c : Condition} (hlhs : symbols.Knows c.lhs)
    (hrhs : symbols.Knows c.rhs) :
    ∀ slot ∈ (c.instr symbols).slots, slot < symbols.names.length :=
  List.forall_mem_append.mpr ⟨Operand.slots_ofText hlhs, Operand.slots_ofText hrhs⟩

namespace Body

/-- The slots of the code are those of names in the table. -/
theorem slots_code {symbols : SymbolTable} {body : Body}
    (h : ∀ lexeme ∈ body.lexemes, lexeme.Resolved symbols) {address : Nat} :
    ∀ instr ∈ body.code symbols address, ∀ slot ∈ instr.slots, slot < symbols.names.length := by
  induction body generalizing address with
  | done =>
    intro instr hinstr
    cases hinstr
  | declare name value rest ih | give name rest ih =>
    obtain ⟨hfirst, hrest⟩ := List.forall_mem_cons.mp h
    refine List.forall_mem_cons.mpr ⟨?_, ih hrest⟩
    intro slot hslot
    rw [List.mem_singleton.mp hslot]
    exact SymbolTable.slot_lt_length hfirst
  | assign target lhs op rhs rest ih =>
    obtain ⟨⟨htarget, hlhs, hrhs⟩, hrest⟩ := List.forall_mem_cons.mp h
    refine List.forall_mem_cons.mpr ⟨?_, ih hrest⟩
    refine List.forall_mem_cons.mpr ⟨SymbolTable.slot_lt_length htarget, ?_⟩
    exact List.forall_mem_append.mpr ⟨Operand.slots_ofText hlhs, Operand.slots_ofText hrhs⟩
  | branch c body rest ihb ihr =>
    obtain ⟨⟨hlhs, hrhs⟩, h⟩ := List.forall_mem_cons.mp h
    obtain ⟨hbody, h⟩ := List.forall_mem_append.mp h
    obtain ⟨-, hrest⟩ := List.forall_mem_cons.mp h
    simp only [code, List.cons_append, List.forall_mem_cons, List.forall_mem_append]
    exact ⟨Condition.slots_instr hlhs hrhs, by simp [Instr.slots], ihb hbody, ihr hrest⟩
  | loop c body rest ihb ihr =>
    obtain ⟨⟨hlhs, hrhs⟩, h⟩ := List.forall_mem_cons.mp h
    obtain ⟨hbody, h⟩ := List.forall_mem_append.mp h
    obtain ⟨-, hrest⟩ := List.forall_mem_cons.mp h
    simp only [code, List.cons_append, List.forall_mem_cons, List.forall_mem_append]
    exact ⟨Condition.slots_instr hlhs hrhs, by simp [Instr.slots], ihb hbody, by simp [Instr.slots],
      ihr hrest⟩

theorem getElem?_code_eq_some_iff {symbols : SymbolTable} {body : Body} {instr : Instr}
    {place : Nat} :
    (body.code symbols 0)[place]? = some instr ↔ (instr, place) ∈ body.placed symbols 0 := by
  rw [placed, List.mem_zipIdx_iff_getElem?]

theorem getElem?_code_jumpIfFalse {symbols : SymbolTable} {body : Body} {place target : Nat} :
    (body.code symbols 0)[place]? = some (.jumpIfFalse target)
      ↔ ∃ block ∈ body.blocks 0, place = block.head + 1 ∧ target = block.exit := by
  rw [getElem?_code_eq_some_iff, mem_placed_iff rfl]
  simp only [Block.jumpIfFalse_mem_control]

/-- **Every jump leads to the start of a statement, or to the end.** -/
theorem target_mem_starts {symbols : SymbolTable} {body : Body} {instr : Instr} {target : Nat}
    (hinstr : instr ∈ body.code symbols 0) (htarget : instr.jumpTarget? = some target) :
    target ∈ body.starts 0 := by
  obtain ⟨place, hplace⟩ := List.mem_iff_getElem?.mp hinstr
  cases instr with
  | jumpIfFalse exit =>
    cases htarget
    obtain ⟨block, hblock, -, rfl⟩ := getElem?_code_jumpIfFalse.mp hplace
    exact (head_exit_mem_starts hblock).2
  | jump start =>
    cases htarget
    obtain ⟨block, hblock, hcontrol⟩ := (mem_placed_iff rfl).mp (getElem?_code_eq_some_iff.mp hplace)
    obtain ⟨-, -, rfl⟩ := Block.jump_mem_control.mp hcontrol
    exact (head_exit_mem_starts hblock).1
  | _ => cases htarget

end Body

/-! ## Sound programs -/

/-- What runs need of a program: its slots are below a bound, its jumps stay inside and lead to no
conditional jump, and every conditional jump has a comparison in front of it. -/
structure Program.Sound (program : Program) (bound : Nat) : Prop where
  slot_lt : ∀ instr ∈ program, ∀ slot ∈ instr.slots, slot < bound
  target_le : ∀ instr ∈ program, ∀ target, instr.jumpTarget? = some target → target ≤ program.length
  target_ne : ∀ instr ∈ program, ∀ target, instr.jumpTarget? = some target →
    ∀ exit, program[target]? ≠ some (.jumpIfFalse exit)
  compared : ∀ place exit, program[place]? = some (.jumpIfFalse exit) →
    ∃ head relation lhs rhs, place = head + 1 ∧ program[head]? = some (.compare relation lhs rhs)

/-- The code of a body is sound. -/
theorem Body.sound_code {symbols : SymbolTable} {body : Body}
    (h : ∀ lexeme ∈ body.lexemes, lexeme.Resolved symbols) :
    Program.Sound (body.code symbols 0) symbols.names.length where
  slot_lt := slots_code h
  target_le instr hinstr target htarget := by
    have hbounds := starts_bounds (target_mem_starts hinstr htarget)
    rw [length_code]
    omega
  target_ne instr hinstr target htarget exit hexit := by
    obtain ⟨block, hblock, rfl, -⟩ := getElem?_code_jumpIfFalse.mp hexit
    exact head_succ_notMem_starts hblock (target_mem_starts hinstr htarget)
  compared place exit hexit := by
    obtain ⟨block, hblock, rfl, -⟩ := getElem?_code_jumpIfFalse.mp hexit
    have hhead : (body.code symbols 0)[block.head]? = some (block.condition.instr symbols) := by
      rw [getElem?_code_eq_some_iff, mem_placed_iff rfl]
      exact ⟨block, hblock, List.mem_cons_self⟩
    exact ⟨block.head, _, _, _, rfl, hhead⟩

theorem CodeUnit.sound_of_ofTokens {tokens : List Token} {unit : CodeUnit}
    (h : ofTokens tokens = .ok unit) : unit.program.Sound unit.symbols.names.length := by
  obtain ⟨body, -, hprogram, hresolved⟩ := exists_body h
  rw [hprogram]
  exact Body.sound_code hresolved

/-! ## Runs of sound programs -/

namespace Program

variable {program : Program} {limit : Option Nat}

/-- A run stops with a fault because of its limit or because of an instruction of the program. -/
theorem canFault_of_advance {budget : Nat} {m : Machine} {fault : Fault}
    (h : (m.advance program.toArray limit budget).outcome = .faulted fault) :
    (∃ most, fault = .stepLimitExceeded most)
      ∨ ∃ instr ∈ program, instr.CanFault program.length fault := by
  obtain ⟨n, m', -, hstop⟩ := Machine.exists_stopped_of_advance (by rw [h]; simp)
  generalize m.advance program.toArray limit budget = run at h hstop
  obtain ⟨outcome, last⟩ := run
  cases h
  obtain ⟨-, hrun⟩ | ⟨_, hlimit, hrun⟩ | ⟨instr, hinstr, -, ⟨_, heffect, hrun⟩ | ⟨_, -, hrun⟩⟩ :=
    Machine.step_eq_stopped hstop <;> cases hrun
  · exact .inl (Machine.limitFault?_eq_some hlimit)
  · rw [List.getElem?_toArray] at hinstr
    exact .inr ⟨instr, List.mem_of_getElem? hinstr, Machine.canFault_of_effect heffect⟩

/-- A comparison after which the run goes on has set the flag. -/
theorem flag_of_compare {m m' : Machine} {relation : Relation} {lhs rhs : Operand}
    (hstep : m.step program.toArray limit = .running m')
    (hinstr : program[m.address]? = some (.compare relation lhs rhs)) :
    ∃ a b, m.value lhs = .ok a ∧ m.value rhs = .ok b ∧ m'.flag = relation.holds a b := by
  obtain ⟨instr, effect, hinstr', -, heffect, -, rfl⟩ := Machine.step_eq_running_iff.mp hstep
  rw [List.getElem?_toArray, hinstr] at hinstr'
  cases hinstr'
  obtain ⟨a, ha, heffect⟩ := bind_eq_ok_iff.mp heffect
  obtain ⟨b, hb, heffect⟩ := bind_eq_ok_iff.mp heffect
  cases heffect
  exact ⟨a, b, ha, hb, rfl⟩

/-- **In a run of a sound program a conditional jump comes right after its comparison.** -/
theorem Sound.compared_before {bound n target : Nat} {m : Machine} (h : program.Sound bound)
    (hreaches : Machine.Reaches program.toArray limit n .initial m)
    (hinstr : program[m.address]? = some (.jumpIfFalse target)) :
    ∃ k before relation lhs rhs a b,
      n = k + 1 ∧ Machine.Reaches program.toArray limit k .initial before
        ∧ before.step program.toArray limit = .running m ∧ m.address = before.address + 1
        ∧ program[before.address]? = some (.compare relation lhs rhs)
        ∧ before.value lhs = .ok a ∧ before.value rhs = .ok b ∧ m.flag = relation.holds a b := by
  obtain ⟨head, relation, lhs, rhs, hplace, hcompare⟩ := h.compared m.address target hinstr
  cases n with
  | zero =>
    -- no comparison stands in front of the first instruction
    cases hreaches
    cases hplace
  | succ k =>
    obtain ⟨before, hbefore, hstep⟩ := hreaches.exists_last
    obtain ⟨instr, hinstr', hnext | ⟨hjump, -⟩⟩ := Machine.address_of_step hstep
    · have hhead : before.address = head := by omega
      subst hhead
      obtain ⟨a, b, ha, hb, hflag⟩ := flag_of_compare hstep hcompare
      exact ⟨k, before, relation, lhs, rhs, a, b, rfl, hbefore, hstep, hnext, hcompare, ha, hb, hflag⟩
    · rw [List.getElem?_toArray] at hinstr'
      exact absurd hinstr (h.target_ne instr (List.mem_of_getElem? hinstr') _ hjump target)

end Program

/-- **Compiled programs are safe in their control flow and their flag**, however many names they have.
Under every limit, no run jumps out of the program; only a slot that has a name but no register can be
out of range, so none is when there is a register for each name; and a conditional jump is run only right
after the comparison in front of it, whose result is then in the flag. -/
theorem CodeUnit.run_controlled {tokens : List Token} {unit : CodeUnit}
    (h : ofTokens tokens = .ok unit) (limit : Option Nat) :
    (∀ budget address target size,
        (Machine.initial.advance unit.program.toArray limit budget).outcome
          ≠ .faulted (.jumpOutOfRange address target size))
      ∧ (∀ budget address slot,
        (Machine.initial.advance unit.program.toArray limit budget).outcome
            = .faulted (.registerOutOfRange address slot) →
          registerCount ≤ slot ∧ slot < unit.symbols.names.length)
      ∧ (unit.symbols.names.length ≤ registerCount → ∀ budget address slot,
        (Machine.initial.advance unit.program.toArray limit budget).outcome
          ≠ .faulted (.registerOutOfRange address slot))
      ∧ ∀ n m target, Machine.Reaches unit.program.toArray limit n .initial m →
        unit.program[m.address]? = some (.jumpIfFalse target) →
        ∃ k before relation lhs rhs a b,
          n = k + 1 ∧ Machine.Reaches unit.program.toArray limit k .initial before
            ∧ before.step unit.program.toArray limit = .running m ∧ m.address = before.address + 1
            ∧ unit.program[before.address]? = some (.compare relation lhs rhs)
            ∧ before.value lhs = .ok a ∧ before.value rhs = .ok b
            ∧ m.flag = relation.holds a b := by
  have hsound := sound_of_ofTokens h
  have hregister : ∀ budget address slot,
      (Machine.initial.advance unit.program.toArray limit budget).outcome
          = .faulted (.registerOutOfRange address slot) →
        registerCount ≤ slot ∧ slot < unit.symbols.names.length := by
    intro budget address slot hfault
    rcases Program.canFault_of_advance hfault with ⟨most, hlimit⟩ | ⟨instr, hinstr, hslot, hcount⟩
    · cases hlimit
    · exact ⟨hcount, hsound.slot_lt instr hinstr slot hslot⟩
  refine ⟨?_, hregister, ?_, ?_⟩
  · intro budget address target size hfault
    rcases Program.canFault_of_advance hfault with ⟨most, hlimit⟩ | ⟨instr, hinstr, hjump, hsize⟩
    · cases hlimit
    · have hle := hsound.target_le instr hinstr target hjump
      omega
  · intro hnames budget address slot hfault
    obtain ⟨hcount, hslot⟩ := hregister budget address slot hfault
    omega
  · intro n m target hreaches hinstr
    exact hsound.compared_before hreaches hinstr

/-- The run of `sumUnit` gets to its first conditional jump after one instruction. -/
theorem CodeUnit.run_controlled_sum :
    ofTokens sumTokens = .ok sumUnit ∧ sumUnit.symbols.names.length ≤ registerCount
      ∧ (∀ budget address slot,
        (Machine.initial.advance sumUnit.program.toArray (some 30) budget).outcome
          ≠ .faulted (.registerOutOfRange address slot))
      ∧ ∃ (m before : Machine) (relation : Relation) (lhs rhs : Operand),
        Machine.Reaches sumUnit.program.toArray (some 30) 1 .initial m
          ∧ sumUnit.program[m.address]? = some (.jumpIfFalse 7)
          ∧ m.address = before.address + 1
          ∧ sumUnit.program[before.address]? = some (.compare relation lhs rhs) := by
  have h : ofTokens sumTokens = .ok sumUnit := rfl
  have hcount : sumUnit.symbols.names.length ≤ registerCount := by decide
  obtain ⟨-, -, hslots, hcompared⟩ := run_controlled h (some 30)
  let m : Machine := ⟨Machine.initial.registers, true, 1, 1⟩
  have hreaches : Machine.Reaches sumUnit.program.toArray (some 30) 1 .initial m := .single rfl
  obtain ⟨k, before, relation, lhs, rhs, a, b, -, -, -, haddress, hcompare, -⟩ :=
    hcompared 1 m 7 hreaches rfl
  exact ⟨h, hcount, hslots hcount, m, before, relation, lhs, rhs, hreaches, rfl, haddress, hcompare⟩

end RegisterLang
