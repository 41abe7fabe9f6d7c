import RegisterLang.Instr
import RegisterLang.SymbolTable
import RegisterLang.Token.Basic

/-!
# Code units

A code unit is a compiled source: a program and the names of its slots. Tokens are compiled in a
single pass. The condition of a block is followed by a jump whose target is not known yet; the jump
is patched when the block is closed.

* `Emitter.token` compiles one token.
* `CodeUnit.ofTokens` compiles a list of tokens, or reports the first fault in source order; a block
  that is never closed is reported at the end.
-/

namespace RegisterLang

/-- A program and the names of its slots. -/
structure CodeUnit where
  program : Program
  symbols : SymbolTable
deriving DecidableEq

/-- The two kinds of blocks. -/
inductive BlockKind
  | branch
  | loop
deriving DecidableEq, Repr

/-- The keyword that opens the block. -/
def BlockKind.keyword : BlockKind → String
  | branch => "if"
  | loop => "while"

/-- Why tokens cannot be compiled. -/
inductive CompileError
  | unmatchedClose (position : Position)
  | unclosedBlock (kind : BlockKind) (position : Position)
  | literalOutOfRange (literal : String) (position : Position)
  | literalTarget (literal : String) (position : Position)
  | unknownRelation (symbol : String) (position : Position)
  | programTooLarge
deriving DecidableEq, Repr

/-- The greatest address that a jump can name. -/
def maxAddress : Nat := 0x7fffffff

namespace CompileError

/-- The place of the token at fault. -/
def position? : CompileError → Option Position
  | unmatchedClose position => some position
  | unclosedBlock _ position => some position
  | literalOutOfRange _ position => some position
  | literalTarget _ position => some position
  | unknownRelation _ position => some position
  | programTooLarge => none

/-- The text that reports the error. -/
def message : CompileError → String
  | unmatchedClose position => "compile error: " ++ position.text ++ ": unmatched '\x7d'"
  | unclosedBlock kind position =>
    "compile error: " ++ position.text ++ ": '" ++ kind.keyword ++ "' block is never closed"
  | literalOutOfRange literal position =>
    "compile error: " ++ position.text ++ ": literal " ++ literal ++ " does not fit in 32 bits"
  | literalTarget literal position =>
    "compile error: " ++ position.text ++ ": cannot assign to or return literal " ++ literal
  | unknownRelation symbol position =>
    "compile error: " ++ position.text ++ ": unknown relational operator '" ++ symbol ++ "'"
  | programTooLarge => "compile error: program exceeds " ++ maxAddress.repr ++ " instructions"

end CompileError

/-- A block that has not been closed yet. -/
structure OpenBlock where
  /-- The address of a loop's condition, to which the loop goes back; a branch has none. -/
  restart : Option Nat
  /-- The address of the jump that leaves the block. -/
  exit : Nat
  position : Position
deriving DecidableEq, Repr

/-- The kind of an open block. -/
def OpenBlock.kind (block : OpenBlock) : BlockKind :=
  match block.restart with
  | none => .branch
  | some _ => .loop

/-- The state of a compilation: what was emitted, the names seen, the open blocks from the innermost
outward. -/
structure Emitter where
  code : Array Instr
  symbols : SymbolTable
  blocks : List OpenBlock

namespace Emitter

/-- The state before the first token. -/
def initial : Emitter := ⟨#[], SymbolTable.empty, []⟩

/-! ## Addresses -/

/-- The address of the next instruction. -/
def here (e : Emitter) : Except CompileError Nat :=
  if e.code.size ≤ maxAddress then .ok e.code.size else .error .programTooLarge

/-- Appends an instruction. -/
def emit (e : Emitter) (instr : Instr) : Except CompileError Emitter := do
  let _ ← e.here
  .ok { e with code := e.code.push instr }

/-! ## Operands -/

/-- The value of a numeral. -/
def literal (text : String) (position : Position) : Except CompileError Int32 :=
  match Text.int32OfText? text with
  | some value => .ok value
  | none => .error (.literalOutOfRange text position)

/-- The slot of a variable that is written or returned. -/
def slot (e : Emitter) (name : String) (position : Position) :
    Except CompileError (Nat × Emitter) :=
  if Text.isNumeral name then .error (.literalTarget name position)
  else
    let (index, symbols) := e.symbols.intern name
    .ok (index, { e with symbols := symbols })

/-- The operand that a text stands for: a literal if it is a numeral, else a variable. -/
def operand (e : Emitter) (text : String) (position : Position) :
    Except CompileError (Operand × Emitter) :=
  if Text.isNumeral text then do
    let value ← literal text position
    .ok (.literal value, e)
  else
    let (index, symbols) := e.symbols.intern text
    .ok (.slot index, { e with symbols := symbols })

/-! ## Blocks -/

/-- Compiles the head of a block: the comparison, then the jump that leaves the block, whose target is
left open. -/
def openBlock (e : Emitter) (restart : Option Nat) (lhs relation rhs : String)
    (position : Position) : Except CompileError Emitter :=
  match Relation.ofSymbol? relation with
  | none => .error (.unknownRelation relation position)
  | some relation => do
    let (l, e) ← e.operand lhs position
    let (r, e) ← e.operand rhs position
    let e ← e.emit (.compare relation l r)
    let exit ← e.here
    let e ← e.emit (.jumpIfFalse 0)
    .ok { e with blocks := ⟨restart, exit, position⟩ :: e.blocks }

/-- Sends the jump that leaves a block to the present address. Where no such jump is, nothing changes. -/
def patch (e : Emitter) (block : OpenBlock) : Except CompileError Emitter := do
  let target ← e.here
  match e.code[block.exit]? with
  | some (.jumpIfFalse _) =>
    .ok { e with code := e.code.setIfInBounds block.exit (.jumpIfFalse target) }
  | _ => .ok e

/-- Closes the innermost block. A loop jumps back to its condition first. -/
def closeBlock (e : Emitter) (position : Position) : Except CompileError Emitter :=
  match e.blocks with
  | [] => .error (.unmatchedClose position)
  | block :: blocks =>
    match block.restart with
    | none => { e with blocks := blocks }.patch block
    | some start => do
      let e ← { e with blocks := blocks }.emit (.jump start)
      e.patch block

/-! ## Tokens -/

/-- Compiles one token. -/
def token (e : Emitter) (t : Token) : Except CompileError Emitter :=
  match t.lexeme with
  | .declare name value => do
    let (dest, e) ← e.slot name t.position
    let value ← literal value t.position
    e.emit (.set dest value)
  | .assign target lhs op rhs => do
    let (dest, e) ← e.slot target t.position
    let (l, e) ← e.operand lhs t.position
    let (r, e) ← e.operand rhs t.position
    e.emit (.arith op dest l r)
  | .branch lhs relation rhs => e.openBlock none lhs relation rhs t.position
  | .loop lhs relation rhs => do
    let start ← e.here
    e.openBlock (some start) lhs relation rhs t.position
  | .give name => do
    let (source, e) ← e.slot name t.position
    e.emit (.ret source)
  | .blockOpen => .ok e
  | .blockClose => e.closeBlock t.position

/-- The code unit at the end of the tokens. -/
def finish (e : Emitter) : Except CompileError CodeUnit :=
  match e.blocks with
  | [] => .ok ⟨e.code.toList, e.symbols⟩
  | block :: _ => .error (.unclosedBlock block.kind block.position)

end Emitter

/-- Compiles a list of tokens. -/
def CodeUnit.ofTokens (tokens : List Token) : Except CompileError CodeUnit := do
  let e ← tokens.foldlM Emitter.token Emitter.initial
  e.finish

end RegisterLang
