import RegisterLang.CodeUnit
import RegisterLang.Statement.Layout

/-!
# The nesting of statements

`Body.ofLexemes?` reads lexemes from the back and keeps the bodies that start behind the point it has
reached, the innermost first. The body it finds is the only one whose written form is the given one,
opening braces aside.

* `Body.ofLexemes?_eq_some_iff`: the body of some lexemes is the one that they are the lexemes of.
* `Body.blocks`: the blocks of a body, at every depth, with the addresses that its layout gives them.
* `Body.mem_placed_iff`: the comparisons and jumps in the code of a body are those of its blocks.
-/

namespace RegisterLang

namespace Body

/-! ## Lexemes and bodies -/

/-- What is written behind a body inside others: each of them goes on after a closing brace. -/
def lexemesBehind (outer : List Body) : List Lexeme :=
  outer.flatMap fun body => .blockClose :: body.lexemes

theorem lexemesBehind_cons (body : Body) (outer : List Body) :
    lexemesBehind (body :: outer) = .blockClose :: (body.lexemes ++ lexemesBehind outer) := by
  simp only [lexemesBehind, List.flatMap_cons, List.cons_append]

/-- Opening braces change nothing. -/
theorem ofLexemesFrom?_filter (input : List Lexeme) :
    ofLexemesFrom? (input.filter (· ≠ .blockOpen)) = ofLexemesFrom? input := by
  induction input with
  | nil => rfl
  | cons lexeme input ih =>
    by_cases h : lexeme = .blockOpen
    · subst h
      rw [List.filter_cons_of_neg (by simp), ih, ofLexemesFrom?]
      cases ofLexemesFrom? input <;> rfl
    · rw [List.filter_cons_of_pos (by simpa using h), ofLexemesFrom?, ofLexemesFrom?, ih]

/-- The bodies that start at the first lexeme spell out all the lexemes. -/
theorem lexemes_of_ofLexemesFrom? {input : List Lexeme} {bodies : List Body}
    (h : ofLexemesFrom? input = some bodies) :
    ∃ body outer, bodies = body :: outer
      ∧ input.filter (· ≠ .blockOpen) = body.lexemes ++ lexemesBehind outer := by
  induction input generalizing bodies with
  | nil =>
    cases h
    exact ⟨done, [], rfl, rfl⟩
  | cons lexeme input ih =>
    obtain ⟨behind, hbehind, hprepend⟩ := Option.bind_eq_some_iff.mp h
    obtain ⟨body, outer, rfl, hrest⟩ := ih hbehind
    cases lexeme with
    | declare name value | assign target lhs op rhs | give name =>
      cases hprepend
      refine ⟨_, outer, rfl, ?_⟩
      rw [List.filter_cons_of_pos (by simp), hrest, lexemes, List.cons_append]
    | branch lhs relation rhs | loop lhs relation rhs =>
      -- the innermost body becomes the block's own, and the next one what follows the block
      cases outer with
      | nil => cases hprepend
      | cons rest outer =>
        cases hprepend
        refine ⟨_, outer, rfl, ?_⟩
        rw [List.filter_cons_of_pos (by simp), hrest, lexemesBehind_cons, lexemes]
        simp only [List.cons_append, List.append_assoc]
    | blockOpen =>
      cases hprepend
      exact ⟨body, outer, rfl, by rw [List.filter_cons_of_neg (by simp), hrest]⟩
    | blockClose =>
      cases hprepend
      refine ⟨done, body :: outer, rfl, ?_⟩
      rw [List.filter_cons_of_pos (by simp), hrest, lexemesBehind_cons, lexemes, List.nil_append]

theorem ofLexemesFrom?_blockClose {input : List Lexeme} {bodies : List Body}
    (h : ofLexemesFrom? input = some bodies) :
    ofLexemesFrom? (.blockClose :: input) = some (done :: bodies) := by
  rw [ofLexemesFrom?, h]
  rfl

/-- A body written in front of lexemes at which an empty body starts takes the place of that body. -/
theorem ofLexemesFrom?_append (body : Body) {behind : List Lexeme} {outer : List Body}
    (h : ofLexemesFrom? behind = some (done :: outer)) :
    ofLexemesFrom? (body.lexemes ++ behind) = some (body :: outer) := by
  induction body generalizing behind outer with
  | done => exact h
  | declare _ _ rest ih | assign _ _ _ _ rest ih | give _ rest ih =>
    rw [lexemes, List.cons_append, ofLexemesFrom?, ih h]
    rfl
  | branch c body rest ihb ihr | loop c body rest ihb ihr =>
    have hclose := ofLexemesFrom?_blockClose (ihr h)
    rw [lexemes, List.cons_append, List.cons_append, List.append_assoc, List.cons_append,
      ofLexemesFrom?, ihb hclose]
    rfl

theorem ofLexemes?_eq_some {input : List Lexeme} {body : Body} :
    ofLexemes? input = some body ↔ ofLexemesFrom? input = some [body] := by
  unfold ofLexemes?
  split
  · rename_i only honly
    simp [honly]
  · rename_i hnone
    constructor
    · intro h
      cases h
    · intro h
      exact absurd h (hnone body)

/-- **The body of some lexemes is the one that is written so**, opening braces aside. -/
theorem ofLexemes?_eq_some_iff {input : List Lexeme} {body : Body} :
    ofLexemes? input = some body ↔ body.lexemes = input.filter (· ≠ .blockOpen) := by
  rw [ofLexemes?_eq_some]
  constructor
  · intro h
    obtain ⟨first, outer, hcons, hlexemes⟩ := lexemes_of_ofLexemesFrom? h
    cases hcons
    rw [hlexemes, lexemesBehind, List.flatMap_nil, List.append_nil]
  · intro h
    have hread : ofLexemesFrom? (body.lexemes ++ []) = some [body] := ofLexemesFrom?_append body rfl
    rw [List.append_nil, h, ofLexemesFrom?_filter] at hread
    exact hread

end Body

/-! ## Blocks and jumps -/

/-- A block of a body: its condition, the address of its comparison and the body inside it. -/
structure Block where
  kind : BlockKind
  condition : Condition
  head : Nat
  body : Body
deriving DecidableEq, Repr

namespace Block

/-- The address right after the block. A loop has its jump back behind its body. -/
def exit (block : Block) : Nat :=
  match block.kind with
  | .branch => block.head + 2 + block.body.size
  | .loop => block.head + 3 + block.body.size

/-- The instructions of the block itself with their addresses, those of its body left out. -/
def control (symbols : SymbolTable) (block : Block) : List (Instr × Nat) :=
  (block.condition.instr symbols, block.head) :: (.jumpIfFalse block.exit, block.head + 1)
    :: match block.kind with
      | .branch => []
      | .loop => [(.jump block.head, block.head + 2 + block.body.size)]

theorem head_lt_exit (block : Block) : block.head + 1 < block.exit := by
  unfold exit
  split <;> omega

theorem jumpIfFalse_mem_control {symbols : SymbolTable} {block : Block} {place target : Nat} :
    (.jumpIfFalse target, place) ∈ block.control symbols
      ↔ place = block.head + 1 ∧ target = block.exit := by
  unfold control
  split <;> simp [Condition.instr, and_comm]

theorem jump_mem_control {symbols : SymbolTable} {block : Block} {place target : Nat} :
    (.jump target, place) ∈ block.control symbols
      ↔ block.kind = .loop ∧ place + 1 = block.exit ∧ target = block.head := by
  unfold control exit
  split
  · rename_i hkind
    simp [Condition.instr, hkind]
  · rename_i hkind
    simp only [List.mem_cons, Prod.mk.injEq, Condition.instr, reduceCtorEq, false_and, false_or,
      Instr.jump.injEq, List.not_mem_nil, or_false, hkind, true_and]
    omega

end Block

/-- Whether an instruction belongs to the condition or the end of a block. -/
def Instr.isControl : Instr → Bool
  | .compare .. | .jumpIfFalse _ | .jump _ => true
  | _ => false

namespace Body

/-- The blocks of a body whose code starts at an address, the inner ones included. -/
def blocks : (address : Nat) → Body → List Block
  | _, done => []
  | address, declare _ _ rest => rest.blocks (address + 1)
  | address, assign _ _ _ _ rest => rest.blocks (address + 1)
  | address, give _ rest => rest.blocks (address + 1)
  | address, branch c body rest =>
    ⟨.branch, c, address, body⟩
      :: (body.blocks (address + 2) ++ rest.blocks (address + 2 + body.size))
  | address, loop c body rest =>
    ⟨.loop, c, address, body⟩
      :: (body.blocks (address + 2) ++ rest.blocks (address + 3 + body.size))

/-- The instructions of a body with their addresses. -/
def placed (symbols : SymbolTable) (address : Nat) (body : Body) : List (Instr × Nat) :=
  (body.code symbols address).zipIdx address

/-- A statement of one instruction, in front of the rest of the body. -/
theorem placed_cons {symbols : SymbolTable} {address : Nat} {body rest : Body} {instr : Instr}
    (h : body.code symbols address = instr :: rest.code symbols (address + 1)) :
    body.placed symbols address = (instr, address) :: rest.placed symbols (address + 1) := by
  rw [placed, h, List.zipIdx_cons, placed]

theorem placed_branch (symbols : SymbolTable) (address : Nat) (c : Condition) (body rest : Body) :
    (branch c body rest).placed symbols address
      = Block.control symbols ⟨.branch, c, address, body⟩
        ++ (body.placed symbols (address + 2)
          ++ rest.placed symbols (address + 2 + body.size)) := by
  simp only [placed, code, Block.control, Block.exit, List.cons_append, List.nil_append,
    List.zipIdx_cons, List.zipIdx_append, length_code]

/-- The jump back of a loop stands behind its body, so here the two only agree in some order. -/
theorem mem_placed_loop {symbols : SymbolTable} {address : Nat} {c : Condition} {body rest : Body}
    {entry : Instr × Nat} :
    entry ∈ (loop c body rest).placed symbols address
      ↔ entry ∈ Block.control symbols ⟨.loop, c, address, body⟩
        ∨ entry ∈ body.placed symbols (address + 2)
        ∨ entry ∈ rest.placed symbols (address + 3 + body.size) := by
  have hend : address + 1 + 1 + body.size + 1 = address + 3 + body.size := by omega
  simp only [placed, code, Block.control, Block.exit, List.cons_append, List.zipIdx_cons,
    List.zipIdx_append, length_code, List.mem_cons, List.mem_append, List.not_mem_nil, or_false, hend]
  grind

/-- **The comparisons and jumps in the code of a body are those of its blocks.** -/
theorem mem_placed_iff {symbols : SymbolTable} {body : Body} {address : Nat} {entry : Instr × Nat}
    (hcontrol : entry.1.isControl) :
    entry ∈ body.placed symbols address
      ↔ ∃ block ∈ body.blocks address, entry ∈ block.control symbols := by
  induction body generalizing address with
  | done => simp [placed, code, blocks]
  | declare _ _ rest ih | assign _ _ _ _ rest ih | give _ rest ih =>
    rw [placed_cons rfl, List.mem_cons, blocks, ← ih]
    -- the statement's own instruction is no comparison and no jump
    apply or_iff_right
    rintro rfl
    cases hcontrol
  | branch c body rest ihb ihr =>
    rw [placed_branch, List.mem_append, List.mem_append, ihb, ihr, blocks]
    simp only [List.mem_cons, List.mem_append, or_and_right, exists_or, exists_eq_left]
  | loop c body rest ihb ihr =>
    rw [mem_placed_loop, ihb, ihr, blocks]
    simp only [List.mem_cons, List.mem_append, or_and_right, exists_or, exists_eq_left]

end Body

end RegisterLang
