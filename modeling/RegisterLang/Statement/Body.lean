import RegisterLang.Token.Basic

/-!
# Statements

The structure that braces give to a source: a body is a sequence of statements, and the statements
`if` and `while` hold a body of their own. Only closing braces count; an opening brace may be left out,
and one that stands anywhere else changes nothing.

* `Body.lexemes` writes a body down, without opening braces.
* `Body.ofLexemes?` finds the body that lexemes stand for, if every block is closed.
-/

namespace RegisterLang

/-- The condition of a branch or a loop, as its texts. -/
structure Condition where
  lhs : String
  relation : String
  rhs : String
deriving DecidableEq, Repr

/-- A sequence of statements: the first one, and the rest. -/
inductive Body
  | done
  | declare (name value : String) (rest : Body)
  | assign (target lhs : String) (op : Operator) (rhs : String) (rest : Body)
  | give (name : String) (rest : Body)
  | branch (condition : Condition) (body rest : Body)
  | loop (condition : Condition) (body rest : Body)
deriving DecidableEq, Repr

namespace Body

/-- The lexemes of a body: each inner body is ended by a closing brace. -/
def lexemes : Body → List Lexeme
  | done => []
  | declare name value rest => .declare name value :: rest.lexemes
  | assign target lhs op rhs rest => .assign target lhs op rhs :: rest.lexemes
  | give name rest => .give name :: rest.lexemes
  | branch c body rest =>
    .branch c.lhs c.relation c.rhs :: body.lexemes ++ .blockClose :: rest.lexemes
  | loop c body rest =>
    .loop c.lhs c.relation c.rhs :: body.lexemes ++ .blockClose :: rest.lexemes

/-- Puts a lexeme in front of the bodies that start behind it, the innermost first. A closing brace
ends a body that is empty so far; the head of a block takes the innermost body for its own. -/
def prepend? (lexeme : Lexeme) (bodies : List Body) : Option (List Body) :=
  match lexeme, bodies with
  | .declare name value, rest :: outer => some (.declare name value rest :: outer)
  | .assign target lhs op rhs, rest :: outer => some (.assign target lhs op rhs rest :: outer)
  | .give name, rest :: outer => some (.give name rest :: outer)
  | .branch lhs relation rhs, body :: rest :: outer =>
    some (.branch ⟨lhs, relation, rhs⟩ body rest :: outer)
  | .loop lhs relation rhs, body :: rest :: outer =>
    some (.loop ⟨lhs, relation, rhs⟩ body rest :: outer)
  | .blockOpen, bodies => some bodies
  | .blockClose, bodies => some (.done :: bodies)
  | _, _ => none

/-- The bodies that start at the first of the lexemes. -/
def ofLexemesFrom? : List Lexeme → Option (List Body)
  | [] => some [.done]
  | lexeme :: rest => (ofLexemesFrom? rest).bind (prepend? lexeme)

/-- The body that the lexemes stand for. -/
def ofLexemes? (lexemes : List Lexeme) : Option Body :=
  match ofLexemesFrom? lexemes with
  | some [body] => some body
  | _ => none

end Body

end RegisterLang
