/-!
# Positions in a source text

A position counts characters from the start of the text, and lines and columns from 1.

* `Position.next` passes one character: a line feed starts a new line, any other takes a column.
* `Position.past` passes a stretch of text; `past_append` composes two stretches.
-/

namespace RegisterLang

/-- A place between two characters of a source text. -/
structure Position where
  offset : Nat
  line : Nat
  column : Nat
deriving DecidableEq, Repr

namespace Position

/-- The start of a text. -/
def start : Position := ⟨0, 1, 1⟩

/-- The position after one character. -/
def next (p : Position) (c : Char) : Position :=
  if c = '\n' then ⟨p.offset + 1, p.line + 1, 1⟩ else ⟨p.offset + 1, p.line, p.column + 1⟩

/-- The position after a stretch of text. -/
def past (p : Position) (text : List Char) : Position := text.foldl next p

/-- `LINE:COLUMN`, as messages show it. -/
def text (p : Position) : String := p.line.repr ++ ":" ++ p.column.repr

@[simp] theorem past_nil (p : Position) : p.past [] = p := rfl

@[simp] theorem past_cons (p : Position) (c : Char) (cs : List Char) :
    p.past (c :: cs) = (p.next c).past cs := rfl

theorem past_append (p : Position) (cs ds : List Char) :
    p.past (cs ++ ds) = (p.past cs).past ds := List.foldl_append

end Position

end RegisterLang
