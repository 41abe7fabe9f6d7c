import RegisterLang.Instr
import RegisterLang.SymbolTable

/-!
# Listings

A listing shows a program as text: a head with the number of instructions and the names of the slots,
then one line per instruction with its address. An address that some jump names is marked, and a rule
stands above it; so is the end of the program, if a jump leads there.

* `Instr.listed` is the text of one instruction.
* `Program.listing` is the listing of a program.
-/

namespace RegisterLang

/-- The name of a slot, or `rN` for a slot without one. -/
def slotText (symbols : Option SymbolTable) (slot : Nat) : String :=
  (symbols.bind (·.nameOf? slot)).getD ("r" ++ slot.repr)

/-- An operand in a listing: a number, or the name of a slot. -/
def Operand.listed (symbols : Option SymbolTable) : Operand → String
  | .literal value => Text.intText value.toInt
  | .slot index => slotText symbols index

/-- What follows the mnemonic in the text of an instruction. -/
def Instr.details (symbols : Option SymbolTable) : Instr → String
  | .set dest value => slotText symbols dest ++ " = " ++ Text.intText value.toInt
  | .arith _ dest lhs rhs =>
    slotText symbols dest ++ " = " ++ lhs.listed symbols ++ ", " ++ rhs.listed symbols
  | .compare relation lhs rhs =>
    lhs.listed symbols ++ " " ++ relation.symbol ++ " " ++ rhs.listed symbols
  | .jumpIfFalse target => "-> " ++ Text.zeroPadded 4 target
  | .jump target => "-> " ++ Text.zeroPadded 4 target
  | .ret source => slotText symbols source

/-- The text of an instruction, its mnemonic in a column of thirteen. -/
def Instr.listed (symbols : Option SymbolTable) (instr : Instr) : String :=
  Text.padRight 13 instr.opcode.mnemonic ++ " " ++ instr.details symbols

namespace Program

/-- The addresses that jumps name. -/
def targets (program : Program) : List Nat := program.filterMap Instr.jumpTarget?

/-- The rule above and below the head. -/
def headRule : String := "════════════════════════════════════════"

/-- The rule above a marked address. -/
def targetRule : String := "      ┌──────────────────────────────────"

/-- The line of the slots' names. -/
def slotLine (table : SymbolTable) : String :=
  " " ++ table.names.length.repr ++ " slots: " ++ String.intercalate ", " table.names

/-- The lines of the head. -/
def headLines (program : Program) (symbols : Option SymbolTable) : List String :=
  [headRule, " main", " " ++ program.length.repr ++ " instructions"]
    ++ (symbols.map slotLine).toList ++ [headRule]

/-- The lines of one address: marked and under a rule if a jump names it. -/
def addressLines (targets : List Nat) (address : Nat) (text : String) : List String :=
  if address ∈ targets then [targetRule, Text.zeroPadded 4 address ++ " ► " ++ text]
  else [Text.zeroPadded 4 address ++ "   " ++ text]

/-- The lines of the instructions from an address on. -/
def codeLines (targets : List Nat) (symbols : Option SymbolTable) :
    Nat → List Instr → List String
  | _, [] => []
  | address, instr :: rest =>
    addressLines targets address (instr.listed symbols)
      ++ codeLines targets symbols (address + 1) rest

/-- The lines of the end of the program, if a jump leads there. -/
def endLines (targets : List Nat) (size : Nat) : List String :=
  if size ∈ targets then addressLines targets size "<end>" else []

/-- The lines of a listing. -/
def listingLines (program : Program) (symbols : Option SymbolTable) : List String :=
  program.headLines symbols ++ codeLines program.targets symbols 0 program
    ++ endLines program.targets program.length

/-- The listing of a program, every line ended by a line feed. -/
def listing (program : Program) (symbols : Option SymbolTable) : String :=
  String.join ((program.listingLines symbols).map (· ++ "\n"))

end Program

end RegisterLang
