import RegisterLang.Proofs.Nesting
import RegisterLang.Proofs.Results
import RegisterLang.Proofs.Symbols

/-!
# A single pass lays statements out

The emitter appends instructions, leaves the exit of a block open and patches it when the block is
closed. At every point the program that will come of it is determined by the bodies that are still to
be read: `complete` lays them out and closes the open blocks on the way. No token changes that program.

* `Emitter.token_emits`: what one token does to the code and the open blocks.
* `complete_prepend?`: reading a token changes what is written and what is to come, but not the
  completed program.
* `Emitter.complete_of_foldlM`: hence the program at the end is the layout of the whole source.
-/

namespace RegisterLang

/-! ## Names in lexemes -/

/-- A text that stands for a value under the table: a numeral, or a name that the table has. -/
def SymbolTable.Knows (t : SymbolTable) (text : String) : Prop :=
  Text.isNumeral text = true ∨ text ∈ t.names

/-- The table has every name in the lexeme, and what the lexeme writes or returns is a name. -/
def Lexeme.Resolved (symbols : SymbolTable) : Lexeme → Prop
  | .declare name _ => name ∈ symbols.names
  | .assign target lhs _ rhs => target ∈ symbols.names ∧ symbols.Knows lhs ∧ symbols.Knows rhs
  | .branch lhs _ rhs => symbols.Knows lhs ∧ symbols.Knows rhs
  | .loop lhs _ rhs => symbols.Knows lhs ∧ symbols.Knows rhs
  | .give name => name ∈ symbols.names
  | .blockOpen => True
  | .blockClose => True

theorem SymbolTable.Extends.knows {t u : SymbolTable} (h : t.Extends u) {text : String}
    (ht : t.Knows text) : u.Knows text := ht.imp id h.mem

theorem SymbolTable.Extends.resolved {t u : SymbolTable} (h : t.Extends u) {lexeme : Lexeme}
    (ht : lexeme.Resolved t) : lexeme.Resolved u := by
  cases lexeme with
  | declare name value => exact h.mem ht
  | assign target lhs op rhs => exact ⟨h.mem ht.1, h.knows ht.2.1, h.knows ht.2.2⟩
  | branch lhs relation rhs => exact ⟨h.knows ht.1, h.knows ht.2⟩
  | loop lhs relation rhs => exact ⟨h.knows ht.1, h.knows ht.2⟩
  | give name => exact h.mem ht
  | blockOpen => trivial
  | blockClose => trivial

/-! ## What one token emits -/

/-- The code with the conditional jump at a place sent to a target. Where no such jump is, nothing
changes. -/
def Program.patch (code : Program) (place target : Nat) : Program :=
  match code[place]? with
  | some (.jumpIfFalse _) => code.set place (.jumpIfFalse target)
  | _ => code

theorem Program.patch_of_jump {code : Program} {place old : Nat}
    (h : code[place]? = some (.jumpIfFalse old)) (target : Nat) :
    code.patch place target = code.set place (.jumpIfFalse target) := by
  rw [patch, h]

theorem Program.patch_of_not_jump {code : Program} {place : Nat}
    (h : ∀ old, code[place]? ≠ some (.jumpIfFalse old)) (target : Nat) : code.patch place target = code := by
  unfold patch
  split
  · exact absurd ‹_› (h _)
  · rfl

theorem Program.patch_cases (code : Program) (place target : Nat) :
    code.patch place target = code.set place (.jumpIfFalse target) ∨ code.patch place target = code := by
  unfold patch
  split
  · exact .inl rfl
  · exact .inr rfl

theorem Program.length_patch (code : Program) (place target : Nat) :
    (code.patch place target).length = code.length := by
  rcases code.patch_cases place target with h | h
  · rw [h, List.length_set]
  · rw [h]

theorem Program.mem_patch {code : Program} {place target : Nat} {instr : Instr}
    (h : instr ∈ code.patch place target) : instr ∈ code ∨ instr = .jumpIfFalse target := by
  rcases code.patch_cases place target with hpatch | hpatch
  · rw [hpatch] at h
    exact List.mem_or_eq_of_mem_set h
  · rw [hpatch] at h
    exact .inl h

/-- The code with the block closed: a loop jumps back, and the exit of the block leads to the end. -/
def OpenBlock.close (block : OpenBlock) (code : Program) : Program :=
  match block.restart with
  | none => code.patch block.exit code.length
  | some start => Program.patch (code ++ [Instr.jump start]) block.exit (code.length + 1)

namespace Emitter

/-- How a token changes the code and the open blocks, with slots as in the given table. -/
def Emits (symbols : SymbolTable) (e e' : Emitter) : Lexeme → Prop
  | .declare name value =>
    e'.code.toList
      = e.code.toList ++ [.set (symbols.slot name) ((Text.int32OfText? value).getD 0)]
      ∧ e'.blocks = e.blocks
  | .assign target lhs op rhs =>
    e'.code.toList
      = e.code.toList
        ++ [.arith op (symbols.slot target) (.ofText symbols lhs) (.ofText symbols rhs)]
      ∧ e'.blocks = e.blocks
  | .branch lhs relation rhs =>
    e'.code.toList
      = e.code.toList ++ [Condition.instr symbols ⟨lhs, relation, rhs⟩, .jumpIfFalse 0]
      ∧ ∃ position, e'.blocks = ⟨none, e.code.size + 1, position⟩ :: e.blocks
  | .loop lhs relation rhs =>
    e'.code.toList
      = e.code.toList ++ [Condition.instr symbols ⟨lhs, relation, rhs⟩, .jumpIfFalse 0]
      ∧ ∃ position, e'.blocks = ⟨some e.code.size, e.code.size + 1, position⟩ :: e.blocks
  | .give name =>
    e'.code.toList = e.code.toList ++ [.ret (symbols.slot name)] ∧ e'.blocks = e.blocks
  | .blockOpen => e'.code = e.code ∧ e'.blocks = e.blocks
  | .blockClose =>
    ∃ block, e.blocks = block :: e'.blocks ∧ e'.code.toList = block.close e.code.toList

theorem here_eq_ok {e : Emitter} {address : Nat} (h : e.here = .ok address) :
    address = e.code.size := by
  unfold here at h
  split at h
  · cases h
    rfl
  · cases h

theorem emit_eq_ok {e e' : Emitter} {instr : Instr} (h : e.emit instr = .ok e') :
    e' = { e with code := e.code.push instr } := by
  obtain ⟨address, -, h⟩ := bind_eq_ok_iff.mp h
  cases h
  rfl

theorem slot_eq_ok {e e' : Emitter} {name : String} {position : Position} {index : Nat}
    (h : e.slot name position = .ok (index, e')) :
    index = e.symbols.slot name ∧ e' = { e with symbols := e.symbols.insert name } := by
  unfold slot at h
  split at h
  · cases h
  · cases h
    exact ⟨rfl, rfl⟩

theorem literal_eq_ok {text : String} {position : Position} {value : Int32}
    (h : literal text position = .ok value) : Text.int32OfText? text = some value := by
  unfold literal at h
  split at h
  · rename_i hread
    cases h
    exact hread
  · cases h

/-- An operand may declare a name. It is the operand of its text in every later table. -/
theorem operand_eq_ok {e e' : Emitter} {text : String} {position : Position} {o : Operand}
    (h : e.operand text position = .ok (o, e')) :
    e'.code = e.code ∧ e'.blocks = e.blocks ∧ e.symbols.Extends e'.symbols
      ∧ e'.symbols.Knows text
      ∧ ∀ symbols, e'.symbols.Extends symbols → o = .ofText symbols text := by
  unfold operand at h
  split at h
  · rename_i hnumeral
    obtain ⟨value, hvalue, h⟩ := bind_eq_ok_iff.mp h
    cases h
    refine ⟨rfl, rfl, .refl _, .inl hnumeral, ?_⟩
    intro symbols _
    rw [Operand.ofText, if_pos hnumeral, literal_eq_ok hvalue, Option.getD_some]
  · rename_i hname
    cases h
    refine ⟨rfl, rfl, e.symbols.extends_insert text, .inr (e.symbols.mem_insert text), ?_⟩
    intro symbols hlater
    rw [Operand.ofText, if_neg hname, SymbolTable.slot_eq_of_extends_insert hlater]

/-- The head of a block emits a comparison and a jump that is still open. -/
theorem openBlock_eq_ok {e e' : Emitter} {restart : Option Nat} {lhs relation rhs : String}
    {position : Position} (h : e.openBlock restart lhs relation rhs position = .ok e') :
    e.symbols.Extends e'.symbols ∧ e'.symbols.Knows lhs ∧ e'.symbols.Knows rhs
      ∧ e'.blocks = ⟨restart, e.code.size + 1, position⟩ :: e.blocks
      ∧ ∀ symbols, e'.symbols.Extends symbols →
        e'.code.toList
          = e.code.toList ++ [Condition.instr symbols ⟨lhs, relation, rhs⟩, .jumpIfFalse 0] := by
  unfold openBlock at h
  split at h
  · cases h
  · rename_i r hrelation
    obtain ⟨⟨left, e₁⟩, hleft, h⟩ := bind_eq_ok_iff.mp h
    obtain ⟨⟨right, e₂⟩, hright, h⟩ := bind_eq_ok_iff.mp h
    obtain ⟨e₃, hcompare, h⟩ := bind_eq_ok_iff.mp h
    obtain ⟨exit, hexit, h⟩ := bind_eq_ok_iff.mp h
    obtain ⟨e₄, hjump, h⟩ := bind_eq_ok_iff.mp h
    cases h
    obtain ⟨hcode₁, hblocks₁, hext₁, hknows₁, htext₁⟩ := operand_eq_ok hleft
    obtain ⟨hcode₂, hblocks₂, hext₂, hknows₂, htext₂⟩ := operand_eq_ok hright
    obtain rfl := emit_eq_ok hcompare
    obtain rfl := here_eq_ok hexit
    obtain rfl := emit_eq_ok hjump
    refine ⟨hext₁.trans hext₂, hext₂.knows hknows₁, hknows₂, ?_, ?_⟩
    · simp [hcode₁, hcode₂, hblocks₁, hblocks₂]
    · intro symbols hlater
      rw [Condition.instr, hrelation, Option.getD_some, ← htext₁ symbols (hext₂.trans hlater),
        ← htext₂ symbols hlater]
      simp [hcode₁, hcode₂]

theorem patch_eq_ok {e e' : Emitter} {block : OpenBlock} (h : e.patch block = .ok e') :
    e'.symbols = e.symbols ∧ e'.blocks = e.blocks
      ∧ e'.code.toList = Program.patch e.code.toList block.exit e.code.size := by
  obtain ⟨target, htarget, h⟩ := bind_eq_ok_iff.mp h
  obtain rfl := here_eq_ok htarget
  split at h
  · rename_i old hjump
    cases h
    rw [← Array.getElem?_toList] at hjump
    exact ⟨rfl, rfl, Array.toList_setIfInBounds.trans (Program.patch_of_jump hjump _).symm⟩
  · rename_i hnone
    cases h
    simp only [← Array.getElem?_toList] at hnone
    exact ⟨rfl, rfl, (Program.patch_of_not_jump hnone _).symm⟩

/-- A closing brace closes the innermost block. -/
theorem closeBlock_eq_ok {e e' : Emitter} {position : Position}
    (h : e.closeBlock position = .ok e') :
    e'.symbols = e.symbols
      ∧ ∃ block, e.blocks = block :: e'.blocks ∧ e'.code.toList = block.close e.code.toList := by
  unfold closeBlock at h
  split at h
  · cases h
  · rename_i block blocks hblocks
    split at h
    · rename_i hrestart
      obtain ⟨hsymbols, hrest, hcode⟩ := patch_eq_ok h
      exact ⟨hsymbols, block, by rw [hblocks, hrest], by simp [OpenBlock.close, hrestart, hcode]⟩
    · rename_i start hrestart
      obtain ⟨e₁, hjump, h⟩ := bind_eq_ok_iff.mp h
      obtain rfl := emit_eq_ok hjump
      obtain ⟨hsymbols, hrest, hcode⟩ := patch_eq_ok h
      exact ⟨hsymbols, block, by rw [hblocks, hrest], by simp [OpenBlock.close, hrestart, hcode]⟩

/-- **One token**: the table grows by the token's names, and the code and the open blocks change as
`Emits` says, with the slots that every later table gives. -/
theorem token_emits {e e' : Emitter} {t : Token} (h : e.token t = .ok e') :
    e.symbols.Extends e'.symbols ∧ t.lexeme.Resolved e'.symbols
      ∧ ∀ symbols, e'.symbols.Extends symbols → Emits symbols e e' t.lexeme := by
  unfold token at h
  split at h
  · rename_i name value hlexeme
    obtain ⟨⟨dest, e₁⟩, hdest, h⟩ := bind_eq_ok_iff.mp h
    obtain ⟨number, hnumber, h⟩ := bind_eq_ok_iff.mp h
    obtain ⟨rfl, rfl⟩ := slot_eq_ok hdest
    obtain rfl := emit_eq_ok h
    rw [hlexeme]
    refine ⟨e.symbols.extends_insert name, e.symbols.mem_insert name, ?_⟩
    intro symbols hlater
    rw [Emits, SymbolTable.slot_eq_of_extends_insert hlater, literal_eq_ok hnumber,
      Option.getD_some]
    exact ⟨Array.toList_push, rfl⟩
  · rename_i target lhs op rhs hlexeme
    obtain ⟨⟨dest, e₁⟩, hdest, h⟩ := bind_eq_ok_iff.mp h
    obtain ⟨⟨left, e₂⟩, hleft, h⟩ := bind_eq_ok_iff.mp h
    obtain ⟨⟨right, e₃⟩, hright, hemit⟩ := bind_eq_ok_iff.mp h
    obtain ⟨rfl, rfl⟩ := slot_eq_ok hdest
    obtain ⟨hcode₁, hblocks₁, hext₁, hknows₁, htext₁⟩ := operand_eq_ok hleft
    obtain ⟨hcode₂, hblocks₂, hext₂, hknows₂, htext₂⟩ := operand_eq_ok hright
    obtain rfl := emit_eq_ok hemit
    have hext := hext₁.trans hext₂
    rw [hlexeme]
    refine ⟨(e.symbols.extends_insert target).trans hext,
      ⟨hext.mem (e.symbols.mem_insert target), hext₂.knows hknows₁, hknows₂⟩, ?_⟩
    intro symbols hlater
    rw [Emits, SymbolTable.slot_eq_of_extends_insert (hext.trans hlater),
      ← htext₁ symbols (hext₂.trans hlater), ← htext₂ symbols hlater]
    simp [hcode₁, hcode₂, hblocks₁, hblocks₂]
  · rename_i lhs relation rhs hlexeme
    obtain ⟨hext, hlhs, hrhs, hblocks, hcode⟩ := openBlock_eq_ok h
    rw [hlexeme]
    exact ⟨hext, ⟨hlhs, hrhs⟩, fun symbols hlater => ⟨hcode symbols hlater, t.position, hblocks⟩⟩
  · rename_i lhs relation rhs hlexeme
    obtain ⟨start, hstart, h⟩ := bind_eq_ok_iff.mp h
    obtain rfl := here_eq_ok hstart
    obtain ⟨hext, hlhs, hrhs, hblocks, hcode⟩ := openBlock_eq_ok h
    rw [hlexeme]
    exact ⟨hext, ⟨hlhs, hrhs⟩, fun symbols hlater => ⟨hcode symbols hlater, t.position, hblocks⟩⟩
  · rename_i name hlexeme
    obtain ⟨⟨source, e₁⟩, hsource, h⟩ := bind_eq_ok_iff.mp h
    obtain ⟨rfl, rfl⟩ := slot_eq_ok hsource
    obtain rfl := emit_eq_ok h
    rw [hlexeme]
    refine ⟨e.symbols.extends_insert name, e.symbols.mem_insert name, ?_⟩
    intro symbols hlater
    rw [Emits, SymbolTable.slot_eq_of_extends_insert hlater]
    exact ⟨Array.toList_push, rfl⟩
  · rename_i hlexeme
    cases h
    rw [hlexeme]
    exact ⟨.refl _, trivial, fun symbols _ => ⟨rfl, rfl⟩⟩
  · rename_i hlexeme
    obtain ⟨hsymbols, hclose⟩ := closeBlock_eq_ok h
    rw [hlexeme, hsymbols]
    exact ⟨.refl _, trivial, fun symbols _ => hclose⟩

end Emitter

/-! ## The completed program -/

/-- The code with a body laid out behind it. -/
def Body.layOut (symbols : SymbolTable) (body : Body) (code : Program) : Program :=
  code ++ body.code symbols code.length

/-- The program that comes of some code when each body is laid out and the block around it closed, the
innermost first. The last body stands in no block. -/
def complete (symbols : SymbolTable) : List OpenBlock → List Body → Program → Program
  | block :: blocks, body :: outer, code =>
    complete symbols blocks outer (block.close (body.layOut symbols code))
  | [], body :: _, code => body.layOut symbols code
  | _, [], code => code

theorem complete_congr {symbols : SymbolTable} {body body' : Body} {code code' : Program}
    (h : body.layOut symbols code = body'.layOut symbols code') (blocks : List OpenBlock)
    (outer : List Body) :
    complete symbols blocks (body :: outer) code = complete symbols blocks (body' :: outer) code' := by
  cases blocks with
  | nil => exact h
  | cons block blocks => rw [complete, complete, h]

/-- The exit of a block is still open when its body has been laid out, so it is patched. -/
theorem getElem?_exit (symbols : SymbolTable) (c : Condition) (body : Body) (code behind : Program) :
    (body.layOut symbols (code ++ [c.instr symbols, .jumpIfFalse 0]) ++ behind)[code.length + 1]?
      = some (.jumpIfFalse 0) := by
  simp [Body.layOut]

/-- A branch that is closed behind its body has the code of the branch. -/
theorem layOut_branch (symbols : SymbolTable) (c : Condition) (body rest : Body) (code : Program)
    (position : Position) :
    (Body.branch c body rest).layOut symbols code
      = rest.layOut symbols
        (OpenBlock.close ⟨none, code.length + 1, position⟩
          (body.layOut symbols (code ++ [c.instr symbols, .jumpIfFalse 0]))) := by
  have hclose : OpenBlock.close ⟨none, code.length + 1, position⟩
      (body.layOut symbols (code ++ [c.instr symbols, .jumpIfFalse 0]))
      = code ++ c.instr symbols :: .jumpIfFalse (code.length + 2 + body.size)
        :: body.code symbols (code.length + 2) := by
    have hexit := getElem?_exit symbols c body code []
    rw [List.append_nil] at hexit
    simp only [OpenBlock.close, Program.patch_of_jump hexit]
    simp [Body.layOut, Body.length_code, List.set_append_right]
    omega
  have hlength : (code ++ c.instr symbols :: .jumpIfFalse (code.length + 2 + body.size)
      :: body.code symbols (code.length + 2)).length = code.length + 2 + body.size := by
    simp [Body.length_code]
    omega
  rw [hclose, Body.layOut, Body.layOut, hlength]
  simp [Body.code]

/-- A loop that is closed behind its body has the code of the loop. -/
theorem layOut_loop (symbols : SymbolTable) (c : Condition) (body rest : Body) (code : Program)
    (position : Position) :
    (Body.loop c body rest).layOut symbols code
      = rest.layOut symbols
        (OpenBlock.close ⟨some code.length, code.length + 1, position⟩
          (body.layOut symbols (code ++ [c.instr symbols, .jumpIfFalse 0]))) := by
  have hclose : OpenBlock.close ⟨some code.length, code.length + 1, position⟩
      (body.layOut symbols (code ++ [c.instr symbols, .jumpIfFalse 0]))
      = code ++ c.instr symbols :: .jumpIfFalse (code.length + 3 + body.size)
        :: (body.code symbols (code.length + 2) ++ [.jump code.length]) := by
    simp only [OpenBlock.close, Program.patch_of_jump (getElem?_exit symbols c body code [.jump code.length])]
    simp [Body.layOut, Body.length_code, List.set_append_right]
    omega
  have hlength : (code ++ c.instr symbols :: .jumpIfFalse (code.length + 3 + body.size)
      :: (body.code symbols (code.length + 2) ++ [.jump code.length])).length
      = code.length + 3 + body.size := by
    simp [Body.length_code]
    omega
  rw [hclose, Body.layOut, Body.layOut, hlength]
  simp [Body.code]

/-- **No token changes the completed program**: what it adds to the code is what it takes from the
bodies to come. -/
theorem complete_prepend? {symbols : SymbolTable} {e e' : Emitter} {lexeme : Lexeme}
    (h : Emitter.Emits symbols e e' lexeme) {bodies : List Body}
    (hlength : bodies.length = e'.blocks.length + 1) :
    ∃ bodies', Body.prepend? lexeme bodies = some bodies'
      ∧ bodies'.length = e.blocks.length + 1
      ∧ complete symbols e.blocks bodies' e.code.toList
        = complete symbols e'.blocks bodies e'.code.toList := by
  obtain _ | ⟨body, outer⟩ := bodies
  · cases hlength
  cases lexeme with
  | declare name value | assign target lhs op rhs | give name =>
    obtain ⟨hcode, hblocks⟩ := h
    refine ⟨_, rfl, by rw [← hblocks]; exact hlength, ?_⟩
    rw [hcode, hblocks]
    exact complete_congr (by simp [Body.layOut, Body.code]) _ _
  | branch lhs relation rhs =>
    obtain ⟨hcode, position, hblocks⟩ := h
    rw [hblocks] at hlength
    obtain _ | ⟨rest, outer⟩ := outer
    · cases hlength
    refine ⟨_, rfl, by simpa using hlength, ?_⟩
    rw [hcode, hblocks, complete]
    exact complete_congr (layOut_branch symbols _ body rest _ position) _ _
  | loop lhs relation rhs =>
    obtain ⟨hcode, position, hblocks⟩ := h
    rw [hblocks] at hlength
    obtain _ | ⟨rest, outer⟩ := outer
    · cases hlength
    refine ⟨_, rfl, by simpa using hlength, ?_⟩
    rw [hcode, hblocks, complete]
    exact complete_congr (layOut_loop symbols _ body rest _ position) _ _
  | blockOpen =>
    obtain ⟨hcode, hblocks⟩ := h
    exact ⟨_, rfl, by rw [← hblocks]; exact hlength, by rw [hcode, hblocks]⟩
  | blockClose =>
    obtain ⟨block, hblocks, hcode⟩ := h
    refine ⟨.done :: body :: outer, rfl, by simpa [hblocks] using hlength, ?_⟩
    rw [hcode, hblocks, complete, Body.layOut, Body.code, List.append_nil]

/-! ## The whole pass -/

namespace Emitter

/-- Names are never forgotten, and the table at the end has those of every token. -/
theorem extends_of_foldlM {tokens : List Token} {e last : Emitter}
    (h : tokens.foldlM token e = .ok last) :
    e.symbols.Extends last.symbols ∧ ∀ t ∈ tokens, t.lexeme.Resolved last.symbols := by
  induction tokens generalizing e with
  | nil =>
    cases h
    exact ⟨.refl _, fun t ht => by cases ht⟩
  | cons first tokens ih =>
    obtain ⟨e', hfirst, hrest⟩ := foldlM_cons_eq_ok_iff.mp h
    obtain ⟨hext, hresolved, -⟩ := token_emits hfirst
    obtain ⟨hlater, hall⟩ := ih hrest
    refine ⟨hext.trans hlater, ?_⟩
    intro t ht
    rcases List.mem_cons.mp ht with rfl | ht
    · exact hlater.resolved hresolved
    · exact hall t ht

/-- **The invariant of the pass**: at every point the tokens to come stand for one body in each open
block and one behind them, and these complete the code to the program of the end. -/
theorem complete_of_foldlM {tokens : List Token} {e last : Emitter}
    (h : tokens.foldlM token e = .ok last) (hclosed : last.blocks = []) :
    ∃ bodies, Body.ofLexemesFrom? (tokens.map Token.lexeme) = some bodies
      ∧ bodies.length = e.blocks.length + 1
      ∧ complete last.symbols e.blocks bodies e.code.toList = last.code.toList := by
  induction tokens generalizing e with
  | nil =>
    cases h
    refine ⟨[.done], rfl, by rw [hclosed]; rfl, ?_⟩
    rw [hclosed, complete, Body.layOut, Body.code, List.append_nil]
  | cons first tokens ih =>
    obtain ⟨e', hfirst, hrest⟩ := foldlM_cons_eq_ok_iff.mp h
    obtain ⟨bodies, hread, hlength, hcomplete⟩ := ih hrest
    obtain ⟨-, -, hemits⟩ := token_emits hfirst
    have hstep := hemits last.symbols (extends_of_foldlM hrest).1
    obtain ⟨bodies', hprepend, hlength', hsame⟩ := complete_prepend? hstep hlength
    refine ⟨bodies', ?_, hlength', hsame.trans hcomplete⟩
    rw [List.map_cons, Body.ofLexemesFrom?, hread, Option.bind_some, hprepend]

end Emitter

namespace CodeUnit

theorem ofTokens_eq_ok {tokens : List Token} {unit : CodeUnit} (h : ofTokens tokens = .ok unit) :
    ∃ e, tokens.foldlM Emitter.token Emitter.initial = .ok e ∧ e.blocks = []
      ∧ unit = ⟨e.code.toList, e.symbols⟩ := by
  obtain ⟨e, he, hfinish⟩ := bind_eq_ok_iff.mp h
  unfold Emitter.finish at hfinish
  split at hfinish
  · rename_i hblocks
    cases hfinish
    exact ⟨e, he, hblocks, rfl⟩
  · cases hfinish

/-- Tokens that compile stand for a body, and its layout is the program. -/
theorem exists_body {tokens : List Token} {unit : CodeUnit} (h : ofTokens tokens = .ok unit) :
    ∃ body, Body.ofLexemes? (tokens.map Token.lexeme) = some body
      ∧ unit.program = body.code unit.symbols 0
      ∧ ∀ lexeme ∈ body.lexemes, lexeme.Resolved unit.symbols := by
  obtain ⟨e, hrun, hclosed, rfl⟩ := ofTokens_eq_ok h
  obtain ⟨bodies, hread, hlength, hcomplete⟩ := Emitter.complete_of_foldlM hrun hclosed
  obtain ⟨body, rfl⟩ := List.length_eq_one_iff.mp hlength
  have hbody := Body.ofLexemes?_eq_some.mpr hread
  refine ⟨body, hbody, ?_, ?_⟩
  · rw [← hcomplete]
    exact List.nil_append _
  · intro lexeme hlexeme
    rw [Body.ofLexemes?_eq_some_iff.mp hbody] at hlexeme
    obtain ⟨t, ht, rfl⟩ := List.mem_map.mp (List.mem_filter.mp hlexeme).1
    exact (Emitter.extends_of_foldlM hrun).2 t ht

/-- **The program of some tokens is the layout of the statements in them.** The tokens stand for one
body only; its code is the program; every conditional jump leads to the address right after its own
block, and every other jump back from the end of a loop to the comparison of that loop. -/
theorem program_eq_layout {tokens : List Token} {unit : CodeUnit} (h : ofTokens tokens = .ok unit) :
    ∃ body, Body.ofLexemes? (tokens.map Token.lexeme) = some body
      ∧ (∀ other : Body,
          other.lexemes = (tokens.map Token.lexeme).filter (· ≠ .blockOpen) ↔ other = body)
      ∧ unit.program = body.code unit.symbols 0
      ∧ (∀ place target : Nat, unit.program[place]? = some (.jumpIfFalse target)
          ↔ ∃ block ∈ body.blocks 0, place = block.head + 1 ∧ target = block.exit)
      ∧ (∀ place target : Nat, unit.program[place]? = some (.jump target)
          ↔ ∃ block ∈ body.blocks 0,
              block.kind = .loop ∧ place + 1 = block.exit ∧ target = block.head)
      ∧ (∀ block ∈ body.blocks 0,
          unit.program[block.head]? = some (block.condition.instr unit.symbols))
      ∧ ∀ place : Nat, unit.program[place]? ≠ some (Instr.jumpIfFalse 0) := by
  obtain ⟨body, hbody, hprogram, -⟩ := exists_body h
  have hplaced : ∀ instr place,
      unit.program[place]? = some instr ↔ (instr, place) ∈ body.placed unit.symbols 0 := by
    intro instr place
    rw [hprogram, Body.placed, List.mem_zipIdx_iff_getElem?]
  have hexits : ∀ place target : Nat, unit.program[place]? = some (.jumpIfFalse target)
      ↔ ∃ block ∈ body.blocks 0, place = block.head + 1 ∧ target = block.exit := by
    intro place target
    rw [hplaced, Body.mem_placed_iff rfl]
    simp only [Block.jumpIfFalse_mem_control]
  refine ⟨body, hbody, ?_, hprogram, hexits, ?_, ?_, ?_⟩
  · intro other
    rw [← Body.ofLexemes?_eq_some_iff, hbody, Option.some.injEq]
    exact eq_comm
  · intro place target
    rw [hplaced, Body.mem_placed_iff rfl]
    simp only [Block.jump_mem_control]
  · intro block hblock
    rw [hplaced, Body.mem_placed_iff rfl]
    exact ⟨block, hblock, List.mem_cons_self⟩
  · intro place hzero
    obtain ⟨block, -, -, hexit⟩ := (hexits place 0).mp hzero
    have := block.head_lt_exit
    omega

/-- The tokens of `while i < 4 { if i == 2 { n = n + i } i = i + 1 } return n`, on one line. -/
def sumTokens : List Token :=
  [⟨.loop "i" "<" "4", ⟨0, 1, 1⟩⟩, ⟨.blockOpen, ⟨12, 1, 13⟩⟩,
    ⟨.branch "i" "==" "2", ⟨14, 1, 15⟩⟩, ⟨.blockOpen, ⟨24, 1, 25⟩⟩,
    ⟨.assign "n" "n" .add "i", ⟨26, 1, 27⟩⟩, ⟨.blockClose, ⟨36, 1, 37⟩⟩,
    ⟨.assign "i" "i" .add "1", ⟨38, 1, 39⟩⟩, ⟨.blockClose, ⟨48, 1, 49⟩⟩,
    ⟨.give "n", ⟨50, 1, 51⟩⟩]

/-- The code unit of `sumTokens`. -/
def sumUnit : CodeUnit where
  program :=
    [.compare .lt (.slot 0) (.literal 4), .jumpIfFalse 7,
      .compare .eq (.slot 0) (.literal 2), .jumpIfFalse 5, .arith .add 1 (.slot 1) (.slot 0),
      .arith .add 0 (.slot 0) (.literal 1), .jump 0, .ret 1]
  symbols := ⟨["i", "n"], by decide⟩

theorem program_eq_layout_sum :
    ofTokens sumTokens = .ok sumUnit
      ∧ ∃ body, Body.ofLexemes? (sumTokens.map Token.lexeme) = some body
        ∧ sumUnit.program = body.code sumUnit.symbols 0 := by
  have h : ofTokens sumTokens = .ok sumUnit := rfl
  obtain ⟨body, hbody, -, hprogram, -⟩ := program_eq_layout h
  exact ⟨h, body, hbody, hprogram⟩

end CodeUnit

end RegisterLang
