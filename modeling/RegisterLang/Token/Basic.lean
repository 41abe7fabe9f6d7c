import RegisterLang.Operator
import RegisterLang.Position
import RegisterLang.Text.Numeral

/-!
# Tokens

A lexeme is the head of a statement or a brace; a token is a lexeme with its position. Operands keep
the text that stands in the source: whether it is a numeral or a name is decided by the compiler.

* `Lexeme.text` is the lexeme in its plain spelling, with single spaces.
* `Token.render` is one line of a token dump, in colour or not.
-/

namespace RegisterLang

/-- A word group of the source. -/
inductive Lexeme
  /-- `let NAME = VALUE` -/
  | declare (name value : String)
  /-- `TARGET = LHS OP RHS` -/
  | assign (target lhs : String) (op : Operator) (rhs : String)
  /-- `if LHS RELATION RHS` -/
  | branch (lhs relation rhs : String)
  /-- `while LHS RELATION RHS` -/
  | loop (lhs relation rhs : String)
  /-- `return NAME` -/
  | give (name : String)
  /-- An opening brace. -/
  | blockOpen
  /-- A closing brace. -/
  | blockClose
deriving DecidableEq, Repr

/-- A lexeme where it stands in the source. -/
structure Token where
  lexeme : Lexeme
  position : Position
deriving DecidableEq, Repr

namespace Lexeme

/-- The lexeme's plain spelling. -/
def text : Lexeme → String
  | declare name value => "let " ++ name ++ " = " ++ value
  | assign target lhs op rhs =>
    target ++ " = " ++ lhs ++ " " ++ String.singleton op.symbol ++ " " ++ rhs
  | branch lhs relation rhs => "if " ++ lhs ++ " " ++ relation ++ " " ++ rhs
  | loop lhs relation rhs => "while " ++ lhs ++ " " ++ relation ++ " " ++ rhs
  | give name => "return " ++ name
  | blockOpen => "\x7b"
  | blockClose => "\x7d"

/-- The name of the lexeme's kind in a dump. -/
def kind : Lexeme → String
  | declare .. => "LET"
  | assign .. => "ASSIGN"
  | branch .. => "IF"
  | loop .. => "WHILE"
  | give _ => "RETURN"
  | blockOpen | blockClose => "BLOCK"

/-- The terminal sequence that switches to the colour of the lexeme's kind. -/
def color : Lexeme → String
  | declare .. | assign .. => "\x1b[33m"
  | branch .. | loop .. => "\x1b[35m"
  | give _ => "\x1b[36m"
  | blockOpen | blockClose => "\x1b[2m"

end Lexeme

/-- The terminal sequence that ends a colour. -/
def colorReset : String := "\x1b[0m"

/-- One line of a dump: the position, the kind in a column of eight, and the plain spelling. -/
def Token.render (t : Token) (colored : Bool) : String :=
  "[" ++ Text.zeroPadded 2 t.position.line ++ ":" ++ Text.zeroPadded 2 t.position.column ++ "] "
    ++ (if colored then t.lexeme.color else "")
    ++ Text.padRight 8 t.lexeme.kind ++ " " ++ t.lexeme.text
    ++ (if colored then colorReset else "")

end RegisterLang
