import RegisterLang.Instr
import RegisterLang.Statement.Body
import RegisterLang.SymbolTable

/-!
# The layout of statements

The code of a body at a given address, by recursion on the body. A declaration, an assignment and a
return take one instruction. A branch is a comparison, a jump past the branch and the code of its body;
a loop has a jump back to its comparison behind its body.

* `Body.size` is the number of instructions.
* `Body.code` is the code; `Body.length_code` says that it has that size at every address.
-/

namespace RegisterLang

/-- The operand that a text stands for under a symbol table. -/
def Operand.ofText (symbols : SymbolTable) (text : String) : Operand :=
  if Text.isNumeral text then .literal ((Text.int32OfText? text).getD 0)
  else .slot (symbols.slot text)

/-- The comparison of a condition. -/
def Condition.instr (symbols : SymbolTable) (c : Condition) : Instr :=
  .compare ((Relation.ofSymbol? c.relation).getD .eq) (.ofText symbols c.lhs) (.ofText symbols c.rhs)

namespace Body

/-- The number of instructions of a body. -/
def size : Body → Nat
  | done => 0
  | declare _ _ rest => 1 + rest.size
  | assign _ _ _ _ rest => 1 + rest.size
  | give _ rest => 1 + rest.size
  | branch _ body rest => 2 + body.size + rest.size
  | loop _ body rest => 3 + body.size + rest.size

/-- The code of a body that starts at an address. -/
def code (symbols : SymbolTable) : (address : Nat) → Body → Program
  | _, done => []
  | address, declare name value rest =>
    .set (symbols.slot name) ((Text.int32OfText? value).getD 0) :: rest.code symbols (address + 1)
  | address, assign target lhs op rhs rest =>
    .arith op (symbols.slot target) (.ofText symbols lhs) (.ofText symbols rhs)
      :: rest.code symbols (address + 1)
  | address, give name rest => .ret (symbols.slot name) :: rest.code symbols (address + 1)
  | address, branch c body rest =>
    c.instr symbols :: .jumpIfFalse (address + 2 + body.size)
      :: body.code symbols (address + 2) ++ rest.code symbols (address + 2 + body.size)
  | address, loop c body rest =>
    c.instr symbols :: .jumpIfFalse (address + 3 + body.size)
      :: body.code symbols (address + 2) ++ .jump address
      :: rest.code symbols (address + 3 + body.size)

theorem length_code (symbols : SymbolTable) (address : Nat) (body : Body) :
    (body.code symbols address).length = body.size := by
  induction body generalizing address with
  | done => rfl
  | declare _ _ rest ih => simp only [code, size, List.length_cons, ih]; omega
  | assign _ _ _ _ rest ih => simp only [code, size, List.length_cons, ih]; omega
  | give _ rest ih => simp only [code, size, List.length_cons, ih]; omega
  | branch _ body rest ihb ihr =>
    simp only [code, size, List.cons_append, List.length_cons, List.length_append, ihb, ihr]
    omega
  | loop _ body rest ihb ihr =>
    simp only [code, size, List.cons_append, List.length_cons, List.length_append, ihb, ihr]
    omega

end Body

end RegisterLang
