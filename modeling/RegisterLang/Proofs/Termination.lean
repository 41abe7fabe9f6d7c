import RegisterLang.Proofs.Balance
import RegisterLang.Proofs.Limits
import RegisterLang.Proofs.Pipeline

/-!
# Programs without loops

Where every jump leads forward, a run gets to a later address with each instruction, so it has come to its
end when it has begun as many instructions as there are. The only jump backward that a compiler emits is
the one at the end of a loop.

* `Program.Forward`: every jump leads to a later address.
* `Program.Forward.address_lt`, `Program.Forward.address_add_le`: how far one instruction and a whole run
  get.
* `Body.forward_code`: the code of statements without a loop is such a program.
* `CodeUnit.run_forward`: the runs of tokens without a loop.
-/

namespace RegisterLang

/-! ## Runs that only go forward -/

namespace Program

/-- Every jump leads to an address behind its own. -/
def Forward (program : Program) : Prop :=
  ∀ (place : Nat) (instr : Instr) (target : Nat),
    program[place]? = some instr → instr.jumpTarget? = some target → place < target

namespace Forward

variable {program : Program} {limit : Option Nat}

/-- **Each instruction leads forward.** -/
theorem address_lt (h : program.Forward) {m m' : Machine}
    (hstep : m.step program.toArray limit = .running m') : m.address < m'.address := by
  obtain ⟨instr, hinstr, hnext | ⟨htarget, -⟩⟩ := Machine.address_of_step hstep
  · omega
  · rw [List.getElem?_toArray] at hinstr
    exact h m.address instr m'.address hinstr htarget

/-- **A run gets on by at least one address with each instruction.** -/
theorem address_add_le (h : program.Forward) {n : Nat} {m m' : Machine}
    (hreaches : Machine.Reaches program.toArray limit n m m') : m.address + n ≤ m'.address := by
  induction hreaches with
  | refl m => exact Nat.le_refl _
  | step first rest ih =>
    have hfirst := h.address_lt first
    omega

/-- A run begins no more instructions than there are. -/
theorem le_length (h : program.Forward) {n : Nat} {m : Machine}
    (hreaches : Machine.Reaches program.toArray limit n .initial m) : n ≤ program.length := by
  have hadvanced : 0 + n ≤ m.address := h.address_add_le hreaches
  have hinside : m.address ≤ program.toArray.size := hreaches.address_le (Nat.zero_le _)
  rw [List.size_toArray] at hinside
  omega

/-- The instruction that ends a run counts among those of the program. -/
theorem steps_le_of_stopped (h : program.Forward) {n : Nat} {m : Machine} {run : Run}
    (hreaches : Machine.Reaches program.toArray none n .initial m)
    (hstop : m.step program.toArray none = .stopped run) : run.machine.steps ≤ program.length := by
  have hsteps : m.steps = 0 + n := hreaches.steps_eq
  cases hinstr : program.toArray[m.address]? with
  | none =>
    have hle := h.le_length hreaches
    rw [Machine.step_of_end hinstr] at hstop
    cases hstop
    show m.steps ≤ program.length
    omega
  | some instr =>
    have hbegun := Machine.steps_of_stopped_none hinstr hstop
    have hadvanced : 0 + n ≤ m.address := h.address_add_le hreaches
    obtain ⟨hinside, -⟩ := Array.getElem?_eq_some_iff.mp hinstr
    rw [List.size_toArray] at hinside
    omega

/-- **A run comes to an end** if it is followed for one instruction more than there are. -/
theorem ends (h : program.Forward) {count : Nat} (hcount : program.length < count) :
    (Machine.initial.advance program.toArray none count).outcome ≠ .unfinished
      ∧ (Machine.initial.advance program.toArray none count).machine.steps ≤ program.length := by
  rcases Machine.advance_cases program.toArray none count .initial
    with ⟨m, hreaches, -⟩ | ⟨n, m, hreaches, hstop⟩
  · have hle := h.le_length hreaches
    omega
  · exact ⟨Machine.outcome_of_stopped hstop, h.steps_le_of_stopped hreaches hstop⟩

/-- No address is visited twice. -/
theorem eq_of_address_eq (h : program.Forward) {j k : Nat} {m m' : Machine}
    (hj : Machine.Reaches program.toArray limit j .initial m)
    (hk : Machine.Reaches program.toArray limit k .initial m') (haddress : m.address = m'.address) :
    j = k := by
  rcases Nat.le_total j k with hle | hle
  · obtain ⟨more, rfl⟩ := Nat.exists_eq_add_of_le hle
    have := h.address_add_le (hj.remaining hk)
    omega
  · obtain ⟨more, rfl⟩ := Nat.exists_eq_add_of_le hle
    have := h.address_add_le (hk.remaining hj)
    omega

end Forward

end Program

/-! ## Statements without loops -/

namespace Body

/-- Every block has a lexeme that opens it. -/
theorem exists_opens {body : Body} {address : Nat} {block : Block}
    (h : block ∈ body.blocks address) : ∃ lexeme ∈ body.lexemes, lexeme.opens? = some block.kind := by
  induction body generalizing address with
  | done => cases h
  | declare _ _ rest ih | assign _ _ _ _ rest ih | give _ rest ih =>
    obtain ⟨lexeme, hmem, hopens⟩ := ih h
    exact ⟨lexeme, List.mem_cons_of_mem _ hmem, hopens⟩
  | branch c body rest ihb ihr | loop c body rest ihb ihr =>
    rcases List.mem_cons.mp h with rfl | h
    · exact ⟨_, List.mem_cons_self, rfl⟩
    · rcases List.mem_append.mp h with h | h
      · obtain ⟨lexeme, hmem, hopens⟩ := ihb h
        exact ⟨lexeme, by simp [lexemes, hmem], hopens⟩
      · obtain ⟨lexeme, hmem, hopens⟩ := ihr h
        exact ⟨lexeme, by simp [lexemes, hmem], hopens⟩

/-- **The jumps of statements without a loop lead forward**, to the end of the block they leave. -/
theorem forward_code {symbols : SymbolTable} {body : Body}
    (h : ∀ lexeme ∈ body.lexemes, lexeme.opens? ≠ some .loop) :
    Program.Forward (body.code symbols 0) := by
  intro place instr target hplace htarget
  cases instr with
  | jumpIfFalse exit =>
    cases htarget
    obtain ⟨block, -, rfl, rfl⟩ := getElem?_code_jumpIfFalse.mp hplace
    exact block.head_lt_exit
  | jump start =>
    obtain ⟨block, hblock, hcontrol⟩ := (mem_placed_iff rfl).mp (getElem?_code_eq_some_iff.mp hplace)
    obtain ⟨hkind, -, -⟩ := Block.jump_mem_control.mp hcontrol
    obtain ⟨lexeme, hmem, hopens⟩ := exists_opens hblock
    rw [hkind] at hopens
    exact absurd hopens (h lexeme hmem)
  | _ => cases htarget

end Body

namespace CodeUnit

theorem forward_of_ofTokens {tokens : List Token} {unit : CodeUnit} (h : ofTokens tokens = .ok unit)
    (hloops : ∀ t ∈ tokens, t.lexeme.opens? ≠ some .loop) : unit.program.Forward := by
  obtain ⟨body, hbody, hprogram, -⟩ := exists_body h
  rw [hprogram]
  apply Body.forward_code
  intro lexeme hlexeme
  rw [Body.ofLexemes?_eq_some_iff.mp hbody] at hlexeme
  obtain ⟨t, ht, rfl⟩ := List.mem_map.mp (List.mem_filter.mp hlexeme).1
  exact hloops t ht

/-- **Tokens without a loop compile to a program that ends by itself.** Its run without a limit returns,
gets to the end or faults, and it has begun at most as many instructions as the program has. Each
instruction leads to a later address, so none is run twice. -/
theorem run_forward {tokens : List Token} {unit : CodeUnit} (h : ofTokens tokens = .ok unit)
    (hloops : ∀ t ∈ tokens, t.lexeme.opens? ≠ some .loop) :
    (unit.program.run none).outcome ≠ .unfinished
      ∧ (unit.program.run none).machine.steps ≤ unit.program.length
      ∧ (∀ n m m', Machine.Reaches unit.program.toArray none n .initial m →
          m.step unit.program.toArray none = .running m' → m.address < m'.address)
      ∧ ∀ j k m m', Machine.Reaches unit.program.toArray none j .initial m →
          Machine.Reaches unit.program.toArray none k .initial m' → m.address = m'.address → j = k := by
  have hforward := forward_of_ofTokens h hloops
  have hcount : unit.program.length < UInt64.size :=
    Nat.lt_trans (length_program_lt h) (by decide)
  obtain ⟨houtcome, hsteps⟩ := hforward.ends hcount
  refine ⟨houtcome, hsteps, ?_, ?_⟩
  · intro n m m' _ hstep
    exact hforward.address_lt hstep
  · intro j k m m' hj hk haddress
    exact hforward.eq_of_address_eq hj hk haddress

/-- The tokens of `let x = 2 if x > 1 { y = x * x if y == 9 { } }`, on one line. -/
def nestedTokens : List Token :=
  [⟨.declare "x" "2", ⟨0, 1, 1⟩⟩, ⟨.branch "x" ">" "1", ⟨10, 1, 11⟩⟩, ⟨.blockOpen, ⟨19, 1, 20⟩⟩,
    ⟨.assign "y" "x" .mul "x", ⟨21, 1, 22⟩⟩, ⟨.branch "y" "==" "9", ⟨31, 1, 32⟩⟩,
    ⟨.blockOpen, ⟨41, 1, 42⟩⟩, ⟨.blockClose, ⟨43, 1, 44⟩⟩, ⟨.blockClose, ⟨45, 1, 46⟩⟩]

/-- The code unit of `nestedTokens`: both blocks end where the program does, and the inner one is
empty. -/
def nestedUnit : CodeUnit where
  program :=
    [.set 0 2, .compare .gt (.slot 0) (.literal 1), .jumpIfFalse 6, .arith .mul 1 (.slot 0) (.slot 0),
      .compare .eq (.slot 1) (.literal 9), .jumpIfFalse 6]
  symbols := ⟨["x", "y"], by decide⟩

/-- Every instruction of `nestedUnit` is run, so no fewer would do for a bound. -/
theorem run_forward_nested :
    ofTokens nestedTokens = .ok nestedUnit
      ∧ (∀ t ∈ nestedTokens, t.lexeme.opens? ≠ some .loop)
      ∧ (nestedUnit.program.run none).outcome ≠ .unfinished
      ∧ (nestedUnit.program.run none).machine.steps ≤ 6
      ∧ (Machine.initial.advance nestedUnit.program.toArray none 7).machine.steps = 6 := by
  have h : ofTokens nestedTokens = .ok nestedUnit := rfl
  have hloops : ∀ t ∈ nestedTokens, t.lexeme.opens? ≠ some .loop := by decide
  obtain ⟨houtcome, hsteps, -, -⟩ := run_forward h hloops
  exact ⟨h, hloops, houtcome, hsteps, rfl⟩

end CodeUnit

end RegisterLang
