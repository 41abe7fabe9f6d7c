import RegisterLang.Proofs.Words

/-!
# The spellings of a lexeme

A lexeme is spelled as its words in a row, with blanks between them as one likes; only a keyword must
have a blank behind it. Reading is exactly undoing that: no text can be read in two ways, so the order in
which the shapes of a lexeme are tried does not matter.

* `Lexeme.WellFormed`: what a lexeme must be to have a spelling that can be read.
* `Lexeme.WellFormed.isWord`: no word of such a lexeme is empty or has a blank.
* `Scan.Reads`: a text starts with a spelling of a lexeme, and goes on with a given rest.
* `Scan.lexeme?_eq_some_iff`: the scanner reads a lexeme exactly where the text starts with it.
-/

namespace RegisterLang

open Text

namespace Lexeme

/-- The words of the lexeme are of the kinds that its shape asks for. -/
def WellFormed : Lexeme → Prop
  | declare name value => IsName name ∧ IsNumeral value
  | assign target lhs _ rhs => IsName target ∧ IsOperand lhs ∧ IsOperand rhs
  | branch lhs relation rhs => IsOperand lhs ∧ Relation.IsSign relation ∧ IsOperand rhs
  | loop lhs relation rhs => IsOperand lhs ∧ Relation.IsSign relation ∧ IsOperand rhs
  | give name => IsName name
  | blockOpen => True
  | blockClose => True

instance : (lexeme : Lexeme) → Decidable lexeme.WellFormed
  | declare _ _ | assign _ _ _ _ | branch _ _ _ | loop _ _ _ => inferInstanceAs (Decidable (_ ∧ _))
  | give name => inferInstanceAs (Decidable (IsName name))
  | blockOpen | blockClose => inferInstanceAs (Decidable True)

/-- The keyword with which the lexeme starts, if it has one. -/
def keyword : Lexeme → List Char
  | declare .. => ['l', 'e', 't']
  | give _ => ['r', 'e', 't', 'u', 'r', 'n']
  | branch .. => ['i', 'f']
  | loop .. => ['w', 'h', 'i', 'l', 'e']
  | assign .. | blockOpen | blockClose => []

/-- The words behind the keyword. -/
def words : Lexeme → List (List Char)
  | declare name value => [name.toList, ['='], value.toList]
  | assign target lhs op rhs => [target.toList, ['='], lhs.toList, [op.symbol], rhs.toList]
  | branch lhs relation rhs | loop lhs relation rhs => [lhs.toList, relation.toList, rhs.toList]
  | give name => [name.toList]
  | blockOpen => [['\x7b']]
  | blockClose => [['\x7d']]

/-- The characters that would lengthen the last word. -/
def tailChars : Lexeme → Char → Bool
  | declare .. => Char.isDigit
  | assign _ _ _ rhs | branch _ _ rhs | loop _ _ rhs => Scan.operandChars rhs
  | give _ => isNameChar
  | blockOpen | blockClose => fun _ => false

end Lexeme

namespace Scan

/-- Words in a row, with blanks or nothing between them. -/
def Row : List (List Char) → List Char → Prop
  | [], cs => cs = []
  | [word], cs => cs = word
  | word :: words, cs => ∃ gap row, Blanks gap ∧ Row words row ∧ cs = word ++ (gap ++ row)

/-- The text starts with the words of the lexeme in a row, and the last of them ends before the rest. -/
structure ReadsWords (lexeme : Lexeme) (cs rest : List Char) : Prop where
  wellFormed : lexeme.WellFormed
  stops : Stops lexeme.tailChars rest
  row : ∃ row, Row lexeme.words row ∧ cs = row ++ rest

/-- The text starts with a spelling of the lexeme: its keyword, set off by blanks, and its words. -/
def Reads (lexeme : Lexeme) (cs rest : List Char) : Prop :=
  ∃ gap text, Blanks gap ∧ (gap = [] ↔ lexeme.keyword = []) ∧ ReadsWords lexeme text rest
    ∧ cs = lexeme.keyword ++ (gap ++ text)

/-! ## Where words stop -/

theorem stops_of_isName {kind : Char → Bool} (hkind : ∀ c, isNameChar c = true → kind c = false)
    {text : String} (h : IsName text) (rest : List Char) : Stops kind (text.toList ++ rest) := by
  obtain ⟨hne, hchars⟩ := h
  cases hlist : text.toList with
  | nil => exact absurd hlist hne
  | cons c cs => exact stops_cons.mpr (hkind c (hchars c (by simp [hlist])))

theorem stops_of_isOperand {kind : Char → Bool} (hkind : ∀ c, isNameChar c = true → kind c = false)
    (hminus : kind '-' = false) {text : String} (h : IsOperand text) (rest : List Char) :
    Stops kind (text.toList ++ rest) := by
  rcases h with hname | ⟨digits, -, htext⟩
  · exact stops_of_isName hkind hname rest
  · rw [htext]
    exact stops_cons.mpr hminus

/-- No operand starts with a blank or a `=`. -/
theorem stops_isBlank_of_isOperand {text : String} (h : IsOperand text) (rest : List Char) :
    Stops isBlank (text.toList ++ rest) :=
  stops_of_isOperand (fun _ => isBlank_eq_false) (by decide) h rest

theorem stops_equals_of_isOperand {text : String} (h : IsOperand text) (rest : List Char) :
    Stops (· == '=') (text.toList ++ rest) := by
  refine stops_of_isOperand ?_ (by decide) h rest
  intro c hc
  rw [beq_eq_false_iff_ne]
  rintro rfl
  exact absurd hc (by decide)

theorem stops_isBlank_symbol (r : Relation) (rest : List Char) :
    Stops isBlank (r.symbol.toList ++ rest) := by
  cases r <;> exact stops_cons.mpr (by decide)

theorem isBlank_operator (op : Operator) : isBlank op.symbol = false := by
  cases op <;> decide

theorem isNameChar_operator (op : Operator) : isNameChar op.symbol = false := by
  cases op <;> decide

theorem stops_isNameChar_symbol (r : Relation) (rest : List Char) :
    Stops isNameChar (r.symbol.toList ++ rest) := by
  cases r <;> exact stops_cons.mpr (by decide)

/-- Blanks end a name. -/
theorem Blanks.stops_isNameChar {gap cs : List Char} (hgap : Blanks gap)
    (hcs : Stops isNameChar cs) : Stops isNameChar (gap ++ cs) :=
  hgap.stops_append (fun _ => isNameChar_eq_false_of_isBlank) hcs

theorem Blanks.stops_equals {gap cs : List Char} (hgap : Blanks gap)
    (hcs : Stops (· == '=') cs) : Stops (· == '=') (gap ++ cs) := by
  refine hgap.stops_append ?_ hcs
  intro c hc
  rw [beq_eq_false_iff_ne]
  rintro rfl
  exact absurd hc (by decide)

theorem skipBlanks_append {gap cs : List Char} (hgap : Blanks gap) (hcs : Stops isBlank cs) :
    skipBlanks (gap ++ cs) = cs := skipBlanks_eq_iff.mpr ⟨gap, hgap, hcs, rfl⟩

end Scan

/-! ## The words of a lexeme -/

theorem Relation.isWord_symbol (r : Relation) : IsWord r.symbol.toList := by
  have hall : r.symbol.toList.all (fun c => !isBlank c) = true := by cases r <;> decide
  refine ⟨by cases r <;> decide, ?_⟩
  intro c hc
  simpa using List.all_eq_true.mp hall c hc

/-- The words of a lexeme are words. -/
theorem Lexeme.WellFormed.isWord {lexeme : Lexeme} (h : lexeme.WellFormed) :
    ∀ word ∈ lexeme.words, IsWord word := by
  have hequals : IsWord ['='] := isWord_singleton (by decide)
  cases lexeme with
  | declare name value =>
    obtain ⟨hname, hvalue⟩ := h
    simp only [words, List.forall_mem_cons]
    exact ⟨hname.isWord, hequals, (IsNumeral.isOperand hvalue).isWord, by simp⟩
  | assign target lhs op rhs =>
    obtain ⟨htarget, hlhs, hrhs⟩ := h
    simp only [words, List.forall_mem_cons]
    exact ⟨htarget.isWord, hequals, hlhs.isWord, isWord_singleton (Scan.isBlank_operator op),
      hrhs.isWord, by simp⟩
  | branch lhs relation rhs | loop lhs relation rhs =>
    obtain ⟨hlhs, ⟨r, rfl⟩, hrhs⟩ := h
    simp only [words, List.forall_mem_cons]
    exact ⟨hlhs.isWord, r.isWord_symbol, hrhs.isWord, by simp⟩
  | give name =>
    simp only [words, List.forall_mem_cons]
    exact ⟨IsName.isWord h, by simp⟩
  | blockOpen | blockClose =>
    simp only [words, List.forall_mem_cons]
    exact ⟨isWord_singleton (by decide), by simp⟩

theorem Lexeme.words_ne_nil (lexeme : Lexeme) : lexeme.words ≠ [] := by
  cases lexeme <;> simp [words]

namespace Scan

/-- A row of one word or more starts with a character that is not blank. -/
theorem Row.exists_visible {words : List (List Char)} {row : List Char} (h : Row words row)
    (hwords : ∀ word ∈ words, IsWord word) (hne : words ≠ []) :
    ∃ c tail, row = c :: tail ∧ isBlank c = false := by
  obtain ⟨word, words, rfl⟩ := List.exists_cons_of_ne_nil hne
  obtain ⟨⟨hword, hvisible⟩, -⟩ := List.forall_mem_cons.mp hwords
  obtain ⟨c, chars, rfl⟩ := List.exists_cons_of_ne_nil hword
  have hc := hvisible c List.mem_cons_self
  cases words with
  | nil =>
    cases h
    exact ⟨c, chars, rfl, hc⟩
  | cons next words =>
    obtain ⟨gap, row, -, -, rfl⟩ := h
    exact ⟨c, _, rfl, hc⟩

/-- No lexeme starts with a blank behind its keyword. -/
theorem ReadsWords.stops_isBlank {lexeme : Lexeme} {cs rest : List Char}
    (h : ReadsWords lexeme cs rest) : Stops isBlank cs := by
  obtain ⟨hwf, -, row, hrow, rfl⟩ := h
  obtain ⟨c, tail, rfl, hc⟩ := hrow.exists_visible hwf.isWord lexeme.words_ne_nil
  exact stops_cons.mpr hc

/-! ## The shapes -/

/-- A shape with a keyword reads the words behind it. -/
theorem keyword_shape_iff {body? : List Char → Option (Lexeme × List Char)} {word : List Char}
    (hword : word ≠ [])
    (hbody : ∀ text lexeme rest, body? text = some (lexeme, rest)
      ↔ lexeme.keyword = word ∧ ReadsWords lexeme text rest)
    {cs rest : List Char} {lexeme : Lexeme} :
    (keyword? word cs).bind body? = some (lexeme, rest)
      ↔ lexeme.keyword = word ∧ Reads lexeme cs rest := by
  simp only [Option.bind_eq_some_iff, keyword?_eq_some_iff, hbody]
  constructor
  · rintro ⟨text, ⟨gap, hne, hgap, -, rfl⟩, hkeyword, hwords⟩
    refine ⟨hkeyword, gap, text, hgap, ?_, hwords, by rw [hkeyword]⟩
    simp [hne, hkeyword, hword]
  · rintro ⟨hkeyword, gap, text, hgap, hempty, hwords, rfl⟩
    refine ⟨text, ⟨gap, ?_, hgap, hwords.stops_isBlank, by rw [hkeyword]⟩, hkeyword, hwords⟩
    rwa [ne_eq, hempty, hkeyword]

theorem declare?_eq_some_iff {cs rest : List Char} {lexeme : Lexeme} :
    declare? cs = some (lexeme, rest)
      ↔ lexeme.keyword = ['l', 'e', 't'] ∧ Reads lexeme cs rest := by
  refine keyword_shape_iff (by simp) ?_
  intro text lexeme rest
  simp only [Option.bind_eq_bind, Option.bind_eq_some_iff]
  constructor
  · rintro ⟨⟨name, cs₁⟩, h₁, cs₂, h₂, ⟨value, cs₃⟩, h₃, he⟩
    cases he
    obtain ⟨rfl, hname, -⟩ := name?_eq_some_iff.mp h₁
    obtain ⟨gap, hgap, -, rfl⟩ := skipBlanks_eq_iff.mp (expect?_eq_some_iff.mp h₂)
    obtain ⟨h₃, hvalue, hstops⟩ := numeral?_eq_some_iff.mp h₃
    obtain ⟨gap', hgap', -, rfl⟩ := skipBlanks_eq_iff.mp h₃
    refine ⟨rfl, ⟨hname, hvalue⟩, hstops, _, ⟨gap, _, hgap, ⟨gap', _, hgap', rfl, rfl⟩, rfl⟩, ?_⟩
    simp
  · rintro ⟨hkeyword, hwf, hstops, row, hrow, rfl⟩
    obtain ⟨name, value, rfl⟩ : ∃ name value, lexeme = .declare name value := by
      cases lexeme <;> simp_all [Lexeme.keyword]
    obtain ⟨gap, _, hgap, ⟨gap', _, hgap', rfl, rfl⟩, rfl⟩ := hrow
    obtain ⟨hname, hvalue⟩ := hwf
    refine ⟨(name, gap ++ '=' :: (gap' ++ (value.toList ++ rest))), ?_, gap' ++ (value.toList ++ rest),
      ?_, (value, rest), ?_, rfl⟩
    · refine name?_eq_some_iff.mpr ⟨by simp, hname, hgap.stops_isNameChar ?_⟩
      exact stops_cons.mpr (by decide)
    · rw [expect?_eq_some_iff]
      exact skipBlanks_append hgap (stops_cons.mpr (by decide))
    · rw [skipBlanks_append hgap' (stops_isBlank_of_isOperand (IsNumeral.isOperand hvalue) rest)]
      exact numeral?_eq_some_iff.mpr ⟨rfl, hvalue, hstops⟩

theorem give?_eq_some_iff {cs rest : List Char} {lexeme : Lexeme} :
    give? cs = some (lexeme, rest)
      ↔ lexeme.keyword = ['r', 'e', 't', 'u', 'r', 'n'] ∧ Reads lexeme cs rest := by
  refine keyword_shape_iff (by simp) ?_
  intro text lexeme rest
  simp only [Option.bind_eq_bind, Option.bind_eq_some_iff]
  constructor
  · rintro ⟨⟨name, cs₁⟩, h₁, he⟩
    cases he
    obtain ⟨rfl, hname, hstops⟩ := name?_eq_some_iff.mp h₁
    exact ⟨rfl, hname, hstops, name.toList, rfl, rfl⟩
  · rintro ⟨hkeyword, hwf, hstops, row, hrow, rfl⟩
    obtain ⟨name, rfl⟩ : ∃ name, lexeme = .give name := by
      cases lexeme <;> simp_all [Lexeme.keyword]
    cases hrow
    exact ⟨(name, rest), name?_eq_some_iff.mpr ⟨rfl, hwf, hstops⟩, rfl⟩

theorem condition?_eq_some_iff {cs rest : List Char} {lhs relation rhs : String} :
    condition? cs = some ((lhs, relation, rhs), rest)
      ↔ ReadsWords (.branch lhs relation rhs) cs rest := by
  simp only [condition?, Option.bind_eq_bind, Option.bind_eq_some_iff]
  constructor
  · rintro ⟨⟨left, cs₁⟩, h₁, ⟨sign, cs₂⟩, h₂, ⟨right, cs₃⟩, h₃, he⟩
    cases he
    obtain ⟨rfl, hlhs, -⟩ := operand?_eq_some_iff.mp h₁
    obtain ⟨r, hr, h₂, -⟩ := relation?_eq_some_iff.mp h₂
    obtain ⟨gap, hgap, -, rfl⟩ := skipBlanks_eq_iff.mp h₂
    obtain ⟨h₃, hrhs, hstops⟩ := operand?_eq_some_iff.mp h₃
    obtain ⟨gap', hgap', -, rfl⟩ := skipBlanks_eq_iff.mp h₃
    refine ⟨⟨hlhs, ⟨r, hr⟩, hrhs⟩, hstops, _,
      ⟨gap, _, hgap, ⟨gap', _, hgap', rfl, rfl⟩, rfl⟩, ?_⟩
    simp
  · rintro ⟨⟨hlhs, ⟨r, rfl⟩, hrhs⟩, hstops, row, hrow, rfl⟩
    obtain ⟨gap, _, hgap, ⟨gap', _, hgap', rfl, rfl⟩, rfl⟩ := hrow
    refine ⟨(lhs, gap ++ (r.symbol.toList ++ (gap' ++ (rhs.toList ++ rest)))), ?_,
      (r.symbol, gap' ++ (rhs.toList ++ rest)), ?_, (rhs, rest), ?_, rfl⟩
    · refine operand?_eq_some_iff.mpr ⟨by simp, hlhs, stops_operandChars ?_ lhs⟩
      exact hgap.stops_isNameChar (stops_isNameChar_symbol r _)
    · rw [skipBlanks_append hgap (stops_isBlank_symbol r _)]
      refine relation?_eq_some_iff.mpr ⟨r, rfl, rfl, fun _ => ?_⟩
      exact hgap'.stops_equals (stops_equals_of_isOperand hrhs rest)
    · rw [skipBlanks_append hgap' (stops_isBlank_of_isOperand hrhs rest)]
      exact operand?_eq_some_iff.mpr ⟨rfl, hrhs, hstops⟩

theorem branch?_eq_some_iff {cs rest : List Char} {lexeme : Lexeme} :
    branch? cs = some (lexeme, rest) ↔ lexeme.keyword = ['i', 'f'] ∧ Reads lexeme cs rest := by
  refine keyword_shape_iff (by simp) ?_
  intro text lexeme rest
  simp only [Option.bind_eq_bind, Option.bind_eq_some_iff]
  constructor
  · rintro ⟨⟨⟨lhs, relation, rhs⟩, cs₁⟩, h₁, he⟩
    cases he
    exact ⟨rfl, condition?_eq_some_iff.mp h₁⟩
  · rintro ⟨hkeyword, hwords⟩
    obtain ⟨lhs, relation, rhs, rfl⟩ : ∃ lhs relation rhs, lexeme = .branch lhs relation rhs := by
      cases lexeme <;> simp_all [Lexeme.keyword]
    exact ⟨((lhs, relation, rhs), rest), condition?_eq_some_iff.mpr hwords, rfl⟩

theorem loop?_eq_some_iff {cs rest : List Char} {lexeme : Lexeme} :
    loop? cs = some (lexeme, rest)
      ↔ lexeme.keyword = ['w', 'h', 'i', 'l', 'e'] ∧ Reads lexeme cs rest := by
  refine keyword_shape_iff (by simp) ?_
  intro text lexeme rest
  simp only [Option.bind_eq_bind, Option.bind_eq_some_iff]
  constructor
  · rintro ⟨⟨⟨lhs, relation, rhs⟩, cs₁⟩, h₁, he⟩
    cases he
    obtain ⟨hwf, hstops, hrow⟩ := condition?_eq_some_iff.mp h₁
    exact ⟨rfl, hwf, hstops, hrow⟩
  · rintro ⟨hkeyword, hwf, hstops, hrow⟩
    obtain ⟨lhs, relation, rhs, rfl⟩ : ∃ lhs relation rhs, lexeme = .loop lhs relation rhs := by
      cases lexeme <;> simp_all [Lexeme.keyword]
    exact ⟨((lhs, relation, rhs), rest), condition?_eq_some_iff.mpr ⟨hwf, hstops, hrow⟩, rfl⟩

theorem reads_iff_of_keyword_eq_nil {lexeme : Lexeme} (h : lexeme.keyword = [])
    {cs rest : List Char} : Reads lexeme cs rest ↔ ReadsWords lexeme cs rest := by
  constructor
  · rintro ⟨gap, text, -, hempty, hwords, rfl⟩
    rw [h, hempty.mpr h]
    exact hwords
  · intro hwords
    refine ⟨[], cs, by simp [Blanks], by simp [h], hwords, by simp [h]⟩

theorem assign?_eq_some_iff {cs rest : List Char} {lexeme : Lexeme} :
    assign? cs = some (lexeme, rest)
      ↔ (∃ target lhs op rhs, lexeme = .assign target lhs op rhs) ∧ Reads lexeme cs rest := by
  simp only [assign?, Option.bind_eq_bind, Option.bind_eq_some_iff]
  constructor
  · rintro ⟨⟨target, cs₁⟩, h₁, cs₂, h₂, ⟨lhs, cs₃⟩, h₃, ⟨op, cs₄⟩, h₄, ⟨rhs, cs₅⟩, h₅, he⟩
    cases he
    obtain ⟨rfl, htarget, -⟩ := name?_eq_some_iff.mp h₁
    obtain ⟨gap₁, hgap₁, -, rfl⟩ := skipBlanks_eq_iff.mp (expect?_eq_some_iff.mp h₂)
    obtain ⟨h₃, hlhs, -⟩ := operand?_eq_some_iff.mp h₃
    obtain ⟨gap₂, hgap₂, -, rfl⟩ := skipBlanks_eq_iff.mp h₃
    obtain ⟨gap₃, hgap₃, -, rfl⟩ := skipBlanks_eq_iff.mp (operator?_eq_some_iff.mp h₄)
    obtain ⟨h₅, hrhs, hstops⟩ := operand?_eq_some_iff.mp h₅
    obtain ⟨gap₄, hgap₄, -, rfl⟩ := skipBlanks_eq_iff.mp h₅
    refine ⟨⟨target, lhs, op, rhs, rfl⟩, (reads_iff_of_keyword_eq_nil rfl).mpr
      ⟨⟨htarget, hlhs, hrhs⟩, hstops, _, ⟨gap₁, _, hgap₁, ⟨gap₂, _, hgap₂, ⟨gap₃, _, hgap₃,
        ⟨gap₄, _, hgap₄, rfl, rfl⟩, rfl⟩, rfl⟩, rfl⟩, ?_⟩⟩
    simp
  · rintro ⟨⟨target, lhs, op, rhs, rfl⟩, hreads⟩
    obtain ⟨⟨htarget, hlhs, hrhs⟩, hstops, row, hrow, rfl⟩ :=
      (reads_iff_of_keyword_eq_nil rfl).mp hreads
    obtain ⟨gap₁, _, hgap₁, ⟨gap₂, _, hgap₂, ⟨gap₃, _, hgap₃, ⟨gap₄, _, hgap₄, rfl, rfl⟩, rfl⟩,
      rfl⟩, rfl⟩ := hrow
    refine ⟨(target, gap₁ ++ '=' :: (gap₂ ++ (lhs.toList ++ (gap₃ ++ op.symbol :: (gap₄
        ++ (rhs.toList ++ rest)))))), ?_,
      gap₂ ++ (lhs.toList ++ (gap₃ ++ op.symbol :: (gap₄ ++ (rhs.toList ++ rest)))), ?_,
      (lhs, gap₃ ++ op.symbol :: (gap₄ ++ (rhs.toList ++ rest))), ?_,
      (op, gap₄ ++ (rhs.toList ++ rest)), ?_, (rhs, rest), ?_, rfl⟩
    · refine name?_eq_some_iff.mpr ⟨by simp, htarget, hgap₁.stops_isNameChar ?_⟩
      exact stops_cons.mpr (by decide)
    · rw [expect?_eq_some_iff]
      exact skipBlanks_append hgap₁ (stops_cons.mpr (by decide))
    · rw [skipBlanks_append hgap₂ (stops_isBlank_of_isOperand hlhs _)]
      refine operand?_eq_some_iff.mpr ⟨rfl, hlhs, stops_operandChars ?_ lhs⟩
      exact hgap₃.stops_isNameChar (stops_cons.mpr (isNameChar_operator op))
    · rw [skipBlanks_append hgap₃ (stops_cons.mpr (isBlank_operator op))]
      exact operator?_eq_some_iff.mpr rfl
    · rw [skipBlanks_append hgap₄ (stops_isBlank_of_isOperand hrhs rest)]
      exact operand?_eq_some_iff.mpr ⟨rfl, hrhs, hstops⟩

theorem brace?_eq_some_iff {cs rest : List Char} {lexeme : Lexeme} :
    brace? cs = some (lexeme, rest)
      ↔ (lexeme = .blockOpen ∨ lexeme = .blockClose) ∧ Reads lexeme cs rest := by
  constructor
  · intro h
    unfold brace? at h
    split at h
    · cases h
      exact ⟨.inl rfl, (reads_iff_of_keyword_eq_nil rfl).mpr
        ⟨trivial, fun _ _ => rfl, ['\x7b'], rfl, rfl⟩⟩
    · cases h
      exact ⟨.inr rfl, (reads_iff_of_keyword_eq_nil rfl).mpr
        ⟨trivial, fun _ _ => rfl, ['\x7d'], rfl, rfl⟩⟩
    · cases h
  · rintro ⟨rfl | rfl, hreads⟩
    · obtain ⟨-, -, row, rfl, rfl⟩ := (reads_iff_of_keyword_eq_nil rfl).mp hreads
      rfl
    · obtain ⟨-, -, row, rfl, rfl⟩ := (reads_iff_of_keyword_eq_nil rfl).mp hreads
      rfl

/-! ## Lexemes -/

/-- A keyword is the first name of a text; what is read behind it is what follows the blanks. -/
theorem first_name_of_keyword? {word cs text : List Char} (hword : ∀ c ∈ word, isNameChar c = true)
    (h : keyword? word cs = some text) :
    cs.takeWhile isNameChar = word ∧ skipBlanks (cs.dropWhile isNameChar) = text := by
  obtain ⟨gap, hne, hgap, hstops, rfl⟩ := keyword?_eq_some_iff.mp h
  have hgapStops : Stops isNameChar (gap ++ text) := by
    obtain ⟨c, gap, rfl⟩ := List.exists_cons_of_ne_nil hne
    exact stops_cons.mpr (isNameChar_eq_false_of_isBlank (hgap c List.mem_cons_self))
  obtain ⟨htake, hdrop⟩ := takeWhile_and_dropWhile_iff.mpr ⟨rfl, hword, hgapStops⟩
  rw [htake, hdrop]
  exact ⟨rfl, skipBlanks_append hgap hstops⟩

theorem isNameChar_of_mem_keyword {lexeme : Lexeme} : ∀ c ∈ lexeme.keyword, isNameChar c = true := by
  apply List.all_eq_true.mp
  cases lexeme <;> simp only [Lexeme.keyword] <;> decide

/-- The first name of a text with a keyword, or of a brace, is the keyword. -/
theorem Reads.first_name {lexeme : Lexeme} {cs rest : List Char} (h : Reads lexeme cs rest)
    (hassign : ∀ target lhs op rhs, lexeme ≠ .assign target lhs op rhs) :
    cs.takeWhile isNameChar = lexeme.keyword := by
  obtain ⟨gap, text, hgap, hempty, hwords, rfl⟩ := h
  refine (takeWhile_and_dropWhile_iff.mpr ⟨rfl, isNameChar_of_mem_keyword, ?_⟩).1
  cases gap with
  | cons c gap => exact stops_cons.mpr (isNameChar_eq_false_of_isBlank (hgap c List.mem_cons_self))
  | nil =>
    -- only a brace has neither a keyword nor a name at its start
    have hkeyword := hempty.mp rfl
    obtain ⟨-, -, row, hrow, rfl⟩ := hwords
    cases lexeme with
    | assign target lhs op rhs => exact absurd rfl (hassign target lhs op rhs)
    | blockOpen | blockClose =>
      cases hrow
      exact stops_cons.mpr (by decide)
    | _ => cases hkeyword

/-- A keyword in front of which an assignment has its target stands before the sign `=`. No other lexeme
starts with a keyword that is not its own. -/
theorem Reads.exists_equals {lexeme : Lexeme} {cs rest word text : List Char}
    (h : Reads lexeme cs rest) (hword : ∀ c ∈ word, isNameChar c = true)
    (hne : word ≠ lexeme.keyword) (hread : keyword? word cs = some text) :
    ∃ tail, text = '=' :: tail := by
  obtain ⟨hfirst, hbehind⟩ := first_name_of_keyword? hword hread
  by_cases hassign : ∃ target lhs op rhs, lexeme = .assign target lhs op rhs
  · obtain ⟨target, lhs, op, rhs, rfl⟩ := hassign
    obtain ⟨⟨htarget, -, -⟩, -, row, hrow, rfl⟩ := (reads_iff_of_keyword_eq_nil rfl).mp h
    obtain ⟨gap, _, hgap, ⟨gap', row, -, -, rfl⟩, rfl⟩ := hrow
    refine ⟨gap' ++ row ++ rest, ?_⟩
    have hequals : Stops isNameChar ('=' :: (gap' ++ row ++ rest)) := stops_cons.mpr (by decide)
    have hblank : Stops isBlank ('=' :: (gap' ++ row ++ rest)) := stops_cons.mpr (by decide)
    obtain ⟨-, hdrop⟩ := takeWhile_and_dropWhile_iff.mpr
      ⟨rfl, htarget.2, hgap.stops_isNameChar hequals⟩
    rw [← hbehind, ← skipBlanks_append hgap hblank, ← hdrop]
    simp
  · rw [h.first_name fun target lhs op rhs heq => hassign ⟨target, lhs, op, rhs, heq⟩] at hfirst
    exact absurd hfirst.symm hne

/-- A shape with another keyword does not fit. -/
theorem Reads.keyword_shape_eq_none {lexeme : Lexeme} {cs rest word : List Char}
    (h : Reads lexeme cs rest) {body? : List Char → Option (Lexeme × List Char)}
    (hword : word.all isNameChar = true) (hbody : ∀ tail, body? ('=' :: tail) = none)
    (hne : word ≠ lexeme.keyword) : (keyword? word cs).bind body? = none := by
  cases hread : keyword? word cs with
  | none => rfl
  | some text =>
    obtain ⟨tail, rfl⟩ := h.exists_equals (List.all_eq_true.mp hword) hne hread
    exact hbody tail

theorem name?_eq_none_iff {cs : List Char} : name? cs = none ↔ cs.takeWhile isNameChar = [] := by
  unfold name?
  split <;> simp_all

theorem name?_equals (tail : List Char) : name? ('=' :: tail) = none :=
  name?_eq_none_iff.mpr (List.takeWhile_cons_of_neg (by decide))

/-- **A lexeme is read exactly where the text starts with a spelling of it.** -/
theorem lexeme?_eq_some_iff {cs rest : List Char} {lexeme : Lexeme} :
    lexeme? cs = some (lexeme, rest) ↔ Reads lexeme cs rest := by
  constructor
  · intro h
    obtain ⟨shape, hmem, hs⟩ := List.exists_of_findSome?_eq_some h
    simp only [shapes, List.mem_cons, List.not_mem_nil, or_false] at hmem
    rcases hmem with rfl | rfl | rfl | rfl | rfl | rfl
    · exact (declare?_eq_some_iff.mp hs).2
    · exact (give?_eq_some_iff.mp hs).2
    · exact (branch?_eq_some_iff.mp hs).2
    · exact (loop?_eq_some_iff.mp hs).2
    · exact (assign?_eq_some_iff.mp hs).2
    · exact (brace?_eq_some_iff.mp hs).2
  · intro h
    have hdeclare : ['l', 'e', 't'] ≠ lexeme.keyword → declare? cs = none :=
      h.keyword_shape_eq_none (by decide) fun tail => by simp [name?_equals]
    have hgive : ['r', 'e', 't', 'u', 'r', 'n'] ≠ lexeme.keyword → give? cs = none :=
      h.keyword_shape_eq_none (by decide) fun tail => by simp [name?_equals]
    have hbranch : ['i', 'f'] ≠ lexeme.keyword → branch? cs = none :=
      h.keyword_shape_eq_none (by decide) fun tail => by simp [condition?, operand?, name?_equals]
    have hloop : ['w', 'h', 'i', 'l', 'e'] ≠ lexeme.keyword → loop? cs = none :=
      h.keyword_shape_eq_none (by decide) fun tail => by simp [condition?, operand?, name?_equals]
    simp only [lexeme?, shapes, List.findSome?]
    cases lexeme with
    | declare name value => rw [declare?_eq_some_iff.mpr ⟨rfl, h⟩]
    | give name => rw [hdeclare (by simp [Lexeme.keyword]), give?_eq_some_iff.mpr ⟨rfl, h⟩]
    | branch lhs relation rhs =>
      rw [hdeclare (by simp [Lexeme.keyword]), hgive (by simp [Lexeme.keyword]),
        branch?_eq_some_iff.mpr ⟨rfl, h⟩]
    | loop lhs relation rhs =>
      rw [hdeclare (by simp [Lexeme.keyword]), hgive (by simp [Lexeme.keyword]),
        hbranch (by simp [Lexeme.keyword]), loop?_eq_some_iff.mpr ⟨rfl, h⟩]
    | assign target lhs op rhs =>
      rw [hdeclare (by simp [Lexeme.keyword]), hgive (by simp [Lexeme.keyword]),
        hbranch (by simp [Lexeme.keyword]), hloop (by simp [Lexeme.keyword]),
        assign?_eq_some_iff.mpr ⟨⟨target, lhs, op, rhs, rfl⟩, h⟩]
    | blockOpen | blockClose =>
      have hassign : assign? cs = none := by
        simp [assign?, name?_eq_none_iff.mpr (h.first_name (by simp))]
      rw [hdeclare (by simp [Lexeme.keyword]), hgive (by simp [Lexeme.keyword]),
        hbranch (by simp [Lexeme.keyword]), hloop (by simp [Lexeme.keyword]), hassign,
        brace?_eq_some_iff.mpr ⟨by simp, h⟩]

end Scan

end RegisterLang
