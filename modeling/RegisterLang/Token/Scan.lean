import RegisterLang.Text.NameChar
import RegisterLang.Token.Basic

/-!
# Reading tokens

A source text is a sequence of lexemes with optional blanks between them. Readers take the rest of the
text and return what they read with the text behind it; only `tokensFrom` knows positions.

* `lexeme?` tries the shapes of a lexeme in a fixed order, each from the same place; the first that
  fits wins. `length_lexeme?` says that it uses up text.
* `Token.scan` reads a whole text, or reports the place where no shape fits.
-/

namespace RegisterLang

/-- The place where no lexeme can be read. -/
structure ScanError where
  position : Position
  excerpt : String
deriving DecidableEq, Repr

/-- The text that reports the error. -/
def ScanError.message (e : ScanError) : String :=
  e.position.text ++ ": unrecognized input: '" ++ e.excerpt ++ "'"

namespace Scan

/-! ## Words -/

/-- The text behind leading blanks. -/
def skipBlanks (cs : List Char) : List Char := cs.dropWhile Text.isBlank

/-- The text behind a given word. -/
def expect? (word : List Char) (cs : List Char) : Option (List Char) :=
  if cs.take word.length = word then some (cs.drop word.length) else none

/-- The text behind a keyword, which ends with at least one blank: `letter` does not start with the
keyword `let`. -/
def keyword? (word : List Char) (cs : List Char) : Option (List Char) := do
  let rest ← expect? word cs
  match rest with
  | [] => none
  | c :: rest => if Text.isBlank c then some (skipBlanks rest) else none

/-- A name: one or more name characters, as many as there are. -/
def name? (cs : List Char) : Option (String × List Char) :=
  if cs.takeWhile Text.isNameChar = [] then none
  else some (String.ofList (cs.takeWhile Text.isNameChar), cs.dropWhile Text.isNameChar)

/-- One or more digits, as many as there are. -/
def digits? (cs : List Char) : Option (List Char × List Char) :=
  if cs.takeWhile Char.isDigit = [] then none
  else some (cs.takeWhile Char.isDigit, cs.dropWhile Char.isDigit)

/-- A numeral: an optional `-`, then digits. -/
def numeral? (cs : List Char) : Option (String × List Char) :=
  match cs with
  | '-' :: rest => (digits? rest).map fun (ds, rest) => (String.ofList ('-' :: ds), rest)
  | _ => (digits? cs).map fun (ds, rest) => (String.ofList ds, rest)

/-- An operand: a numeral with a `-`, or a name, which may consist of digits. -/
def operand? (cs : List Char) : Option (String × List Char) :=
  match cs with
  | '-' :: _ => numeral? cs
  | _ => name? cs

/-- The signs of the relations, in the order in which they are tried: a longer sign stands before its
own beginning. -/
def relationSigns : List String := ["==", "!=", ">=", "<=", ">", "<"]

/-- The sign of a relation. -/
def relation? (cs : List Char) : Option (String × List Char) :=
  relationSigns.findSome? fun sign => (expect? sign.toList cs).map fun rest => (sign, rest)

/-- The sign of an arithmetic operator. -/
def operator? (cs : List Char) : Option (Operator × List Char) :=
  match cs with
  | [] => none
  | c :: rest => (Operator.ofSymbol? c).map fun op => (op, rest)

/-! ## Lexemes -/

/-- `let NAME = NUMERAL` -/
def declare? (cs : List Char) : Option (Lexeme × List Char) := do
  let cs ← keyword? ['l', 'e', 't'] cs
  let (name, cs) ← name? cs
  let cs ← expect? ['='] (skipBlanks cs)
  let (value, cs) ← numeral? (skipBlanks cs)
  some (.declare name value, cs)

/-- `return NAME` -/
def give? (cs : List Char) : Option (Lexeme × List Char) := do
  let cs ← keyword? ['r', 'e', 't', 'u', 'r', 'n'] cs
  let (name, cs) ← name? cs
  some (.give name, cs)

/-- `OPERAND RELATION OPERAND` -/
def condition? (cs : List Char) : Option ((String × String × String) × List Char) := do
  let (lhs, cs) ← operand? cs
  let (relation, cs) ← relation? (skipBlanks cs)
  let (rhs, cs) ← operand? (skipBlanks cs)
  some ((lhs, relation, rhs), cs)

/-- `if CONDITION` -/
def branch? (cs : List Char) : Option (Lexeme × List Char) := do
  let cs ← keyword? ['i', 'f'] cs
  let ((lhs, relation, rhs), cs) ← condition? cs
  some (.branch lhs relation rhs, cs)

/-- `while CONDITION` -/
def loop? (cs : List Char) : Option (Lexeme × List Char) := do
  let cs ← keyword? ['w', 'h', 'i', 'l', 'e'] cs
  let ((lhs, relation, rhs), cs) ← condition? cs
  some (.loop lhs relation rhs, cs)

/-- `NAME = OPERAND OP OPERAND` -/
def assign? (cs : List Char) : Option (Lexeme × List Char) := do
  let (target, cs) ← name? cs
  let cs ← expect? ['='] (skipBlanks cs)
  let (lhs, cs) ← operand? (skipBlanks cs)
  let (op, cs) ← operator? (skipBlanks cs)
  let (rhs, cs) ← operand? (skipBlanks cs)
  some (.assign target lhs op rhs, cs)

/-- A brace. -/
def brace? : List Char → Option (Lexeme × List Char)
  | '\x7b' :: cs => some (.blockOpen, cs)
  | '\x7d' :: cs => some (.blockClose, cs)
  | _ => none

/-- The shapes of a lexeme, in the order in which they are tried. -/
def shapes : List (List Char → Option (Lexeme × List Char)) :=
  [declare?, give?, branch?, loop?, assign?, brace?]

/-- The lexeme at the start of the text: the first shape that fits. -/
def lexeme? (cs : List Char) : Option (Lexeme × List Char) := shapes.findSome? (· cs)

/-! ## Readers use up text -/

theorem length_skipBlanks (cs : List Char) : (skipBlanks cs).length ≤ cs.length :=
  (List.dropWhile_suffix _).length_le

theorem length_expect? {word cs rest : List Char} (h : expect? word cs = some rest) :
    rest.length ≤ cs.length := by
  simp only [expect?] at h
  split at h
  · cases h; simp
  · cases h

theorem length_keyword? {word cs rest : List Char} (h : keyword? word cs = some rest) :
    rest.length < cs.length := by
  simp only [keyword?, Option.bind_eq_bind, Option.bind_eq_some_iff] at h
  obtain ⟨mid, hm, h⟩ := h
  have := length_expect? hm
  split at h
  · cases h
  · rename_i c tail
    split at h
    · cases h
      have := length_skipBlanks tail
      simp only [List.length_cons] at *
      omega
    · cases h

theorem length_name? {cs : List Char} {name : String} {rest : List Char}
    (h : name? cs = some (name, rest)) : rest.length < cs.length := by
  simp only [name?] at h
  split at h
  · cases h
  · rename_i hne
    cases h
    have := congrArg List.length (List.takeWhile_append_dropWhile (p := Text.isNameChar) (l := cs))
    have := List.length_pos_iff.mpr hne
    simp only [List.length_append] at *
    omega

theorem length_digits? {cs digits rest : List Char} (h : digits? cs = some (digits, rest)) :
    rest.length < cs.length := by
  simp only [digits?] at h
  split at h
  · cases h
  · rename_i hne
    cases h
    have := congrArg List.length (List.takeWhile_append_dropWhile (p := Char.isDigit) (l := cs))
    have := List.length_pos_iff.mpr hne
    simp only [List.length_append] at *
    omega

theorem length_numeral? {cs : List Char} {value : String} {rest : List Char}
    (h : numeral? cs = some (value, rest)) : rest.length < cs.length := by
  simp only [numeral?] at h
  split at h
  · obtain ⟨⟨ds, tail⟩, hd, he⟩ := Option.map_eq_some_iff.mp h
    cases he
    have := length_digits? hd
    simp only [List.length_cons]
    omega
  · obtain ⟨⟨ds, tail⟩, hd, he⟩ := Option.map_eq_some_iff.mp h
    cases he
    exact length_digits? hd

theorem length_operand? {cs : List Char} {value : String} {rest : List Char}
    (h : operand? cs = some (value, rest)) : rest.length < cs.length := by
  simp only [operand?] at h
  split at h
  · exact length_numeral? h
  · exact length_name? h

theorem length_relation? {cs : List Char} {sign : String} {rest : List Char}
    (h : relation? cs = some (sign, rest)) : rest.length ≤ cs.length := by
  obtain ⟨word, -, hw⟩ := List.exists_of_findSome?_eq_some h
  obtain ⟨tail, ht, he⟩ := Option.map_eq_some_iff.mp hw
  cases he
  exact length_expect? ht

theorem length_operator? {cs : List Char} {op : Operator} {rest : List Char}
    (h : operator? cs = some (op, rest)) : rest.length < cs.length := by
  cases cs with
  | nil => cases h
  | cons c tail =>
    obtain ⟨_, -, he⟩ := Option.map_eq_some_iff.mp h
    cases he
    simp

theorem length_condition? {cs : List Char} {parts : String × String × String} {rest : List Char}
    (h : condition? cs = some (parts, rest)) : rest.length < cs.length := by
  simp only [condition?, Option.bind_eq_bind, Option.bind_eq_some_iff] at h
  obtain ⟨⟨lhs, cs₁⟩, h₁, ⟨relation, cs₂⟩, h₂, ⟨rhs, cs₃⟩, h₃, he⟩ := h
  cases he
  have := length_operand? h₁
  have := length_relation? h₂
  have := length_operand? h₃
  have := length_skipBlanks cs₁
  have := length_skipBlanks cs₂
  simp only at *
  omega

theorem length_declare? {cs : List Char} {lexeme : Lexeme} {rest : List Char}
    (h : declare? cs = some (lexeme, rest)) : rest.length < cs.length := by
  simp only [declare?, Option.bind_eq_bind, Option.bind_eq_some_iff] at h
  obtain ⟨cs₁, h₁, ⟨name, cs₂⟩, h₂, cs₃, h₃, ⟨value, cs₄⟩, h₄, he⟩ := h
  cases he
  have := length_keyword? h₁
  have := length_name? h₂
  have := length_expect? h₃
  have := length_numeral? h₄
  have := length_skipBlanks cs₂
  have := length_skipBlanks cs₃
  simp only at *
  omega

theorem length_give? {cs : List Char} {lexeme : Lexeme} {rest : List Char}
    (h : give? cs = some (lexeme, rest)) : rest.length < cs.length := by
  simp only [give?, Option.bind_eq_bind, Option.bind_eq_some_iff] at h
  obtain ⟨cs₁, h₁, ⟨name, cs₂⟩, h₂, he⟩ := h
  cases he
  exact Nat.lt_trans (length_name? h₂) (length_keyword? h₁)

theorem length_branch? {cs : List Char} {lexeme : Lexeme} {rest : List Char}
    (h : branch? cs = some (lexeme, rest)) : rest.length < cs.length := by
  simp only [branch?, Option.bind_eq_bind, Option.bind_eq_some_iff] at h
  obtain ⟨cs₁, h₁, ⟨parts, cs₂⟩, h₂, he⟩ := h
  cases he
  exact Nat.lt_trans (length_condition? h₂) (length_keyword? h₁)

theorem length_loop? {cs : List Char} {lexeme : Lexeme} {rest : List Char}
    (h : loop? cs = some (lexeme, rest)) : rest.length < cs.length := by
  simp only [loop?, Option.bind_eq_bind, Option.bind_eq_some_iff] at h
  obtain ⟨cs₁, h₁, ⟨parts, cs₂⟩, h₂, he⟩ := h
  cases he
  exact Nat.lt_trans (length_condition? h₂) (length_keyword? h₁)

theorem length_assign? {cs : List Char} {lexeme : Lexeme} {rest : List Char}
    (h : assign? cs = some (lexeme, rest)) : rest.length < cs.length := by
  simp only [assign?, Option.bind_eq_bind, Option.bind_eq_some_iff] at h
  obtain ⟨⟨target, cs₁⟩, h₁, cs₂, h₂, ⟨lhs, cs₃⟩, h₃, ⟨op, cs₄⟩, h₄, ⟨rhs, cs₅⟩, h₅, he⟩ := h
  cases he
  have := length_name? h₁
  have := length_expect? h₂
  have := length_operand? h₃
  have := length_operator? h₄
  have := length_operand? h₅
  have := length_skipBlanks cs₁
  have := length_skipBlanks cs₂
  have := length_skipBlanks cs₃
  have := length_skipBlanks cs₄
  simp only at *
  omega

theorem length_brace? {cs : List Char} {lexeme : Lexeme} {rest : List Char}
    (h : brace? cs = some (lexeme, rest)) : rest.length < cs.length := by
  simp only [brace?] at h
  split at h
  · cases h; simp
  · cases h; simp
  · cases h

/-- A lexeme uses up text. -/
theorem length_lexeme? {cs : List Char} {lexeme : Lexeme} {rest : List Char}
    (h : lexeme? cs = some (lexeme, rest)) : rest.length < cs.length := by
  obtain ⟨shape, hmem, hs⟩ := List.exists_of_findSome?_eq_some h
  simp only [shapes, List.mem_cons, List.not_mem_nil, or_false] at hmem
  rcases hmem with rfl | rfl | rfl | rfl | rfl | rfl
  · exact length_declare? hs
  · exact length_give? hs
  · exact length_branch? hs
  · exact length_loop? hs
  · exact length_assign? hs
  · exact length_brace? hs

/-! ## Texts -/

/-- The part of a text that stands before its given rest. -/
def taken (cs rest : List Char) : List Char := cs.take (cs.length - rest.length)

/-- The start of a text as a message shows it: up to 16 characters of its first line. -/
def excerpt (cs : List Char) : String := String.ofList ((cs.takeWhile (· ≠ '\n')).take 16)

/-- The tokens of a text that starts at a position. -/
def tokensFrom (p : Position) (cs : List Char) : Except ScanError (List Token) :=
  let here := p.past (cs.takeWhile Text.isBlank)
  let text := skipBlanks cs
  if text = [] then .ok []
  else
    match h : lexeme? text with
    | none => .error ⟨here, excerpt text⟩
    | some (lexeme, rest) =>
      have : rest.length < cs.length :=
        Nat.lt_of_lt_of_le (length_lexeme? h) (length_skipBlanks cs)
      match tokensFrom (here.past (taken text rest)) rest with
      | .ok tokens => .ok (⟨lexeme, here⟩ :: tokens)
      | .error error => .error error
termination_by cs.length

end Scan

/-- The tokens of a source text. -/
def Token.scan (source : String) : Except ScanError (List Token) :=
  Scan.tokensFrom Position.start source.toList

end RegisterLang
