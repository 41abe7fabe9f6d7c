import RegisterLang.Proofs.Spelling
import RegisterLang.Proofs.Verdict
import RegisterLang.Toolchain

/-!
# Scanning undoes printing

A source text that can be scanned is the spelling of its tokens, with blanks before, between and behind
them as one likes. The plain spellings of lexemes, a line for each, are such a text.

* `Scan.Written`: the texts that spell some tokens, with the positions of the tokens in the text.
* `Scan.tokensFrom_of_reads`: one step of a scan.
* `Scan.tokensFrom_eq_ok_iff`: exactly the spellings of tokens are scanned, to these tokens.
* `Scan.reads_text`: the plain spelling of a lexeme is one.
* `Token.scan_lines`: what a scan yields, and what is scanned.
-/

namespace RegisterLang

open Text

namespace Scan

/-- The text, which starts at the position, spells the tokens. -/
inductive Written : Position → List Char → List Token → Prop
  | done {p : Position} {cs : List Char} (blanks : Blanks cs) : Written p cs []
  | token {p : Position} {gap text rest : List Char} {lexeme : Lexeme} {tokens : List Token}
      (blanks : Blanks gap) (reads : Reads lexeme text rest)
      (behind : Written ((p.past gap).past (taken text rest)) rest tokens) :
      Written p (gap ++ text) (⟨lexeme, p.past gap⟩ :: tokens)

/-! ## Scanning a spelling -/

theorem Reads.stops_isBlank {lexeme : Lexeme} {cs rest : List Char} (h : Reads lexeme cs rest) :
    Stops isBlank cs := by
  obtain ⟨gap, text, -, hempty, hwords, rfl⟩ := h
  have hchars : ∀ c ∈ lexeme.keyword, isNameChar c = true := isNameChar_of_mem_keyword
  cases hkeyword : lexeme.keyword with
  | nil =>
    rw [hempty.mpr hkeyword]
    exact hwords.stops_isBlank
  | cons c cs =>
    rw [hkeyword] at hchars
    exact stops_cons.mpr (isBlank_eq_false (hchars c List.mem_cons_self))

theorem Reads.ne_nil {lexeme : Lexeme} {cs rest : List Char} (h : Reads lexeme cs rest) :
    cs ≠ [] := by
  have hlength := length_lexeme? (lexeme?_eq_some_iff.mpr h)
  rintro rfl
  cases hlength

/-- A text that starts with a lexeme, behind blanks, is scanned to that lexeme and the tokens of the rest. -/
theorem tokensFrom_of_reads {p : Position} {gap text rest : List Char} {lexeme : Lexeme}
    (hgap : Blanks gap) (h : Reads lexeme text rest) :
    tokensFrom p (gap ++ text)
      = (tokensFrom ((p.past gap).past (taken text rest)) rest).map (⟨lexeme, p.past gap⟩ :: ·) := by
  obtain ⟨htake, hskip⟩ := takeWhile_and_dropWhile_iff.mpr ⟨rfl, hgap, h.stops_isBlank⟩
  change skipBlanks (gap ++ text) = text at hskip
  have hread := lexeme?_eq_some_iff.mpr h
  rw [← hskip] at hread
  rw [tokensFrom]
  simp only [hskip, htake, if_neg h.ne_nil]
  split
  · rename_i hnone
    rw [hnone] at hread
    cases hread
  · rename_i hsome
    rw [hsome] at hread
    cases hread
    cases tokensFrom ((p.past gap).past (taken text rest)) rest <;> rfl

theorem tokensFrom_of_written {p : Position} {cs : List Char} {tokens : List Token}
    (h : Written p cs tokens) : tokensFrom p cs = .ok tokens := by
  induction h with
  | @done p cs blanks =>
    have hskip : skipBlanks cs = [] := skipBlanks_eq_iff.mpr ⟨cs, blanks, stops_nil _, by simp⟩
    rw [tokensFrom, if_pos hskip]
  | token blanks reads behind ih =>
    rw [tokensFrom_of_reads blanks reads, ih]
    rfl

theorem written_of_tokensFrom {p : Position} {cs : List Char} {tokens : List Token}
    (h : tokensFrom p cs = .ok tokens) : Written p cs tokens := by
  fun_induction tokensFrom p cs generalizing tokens with
  | case1 p cs _ =>
    rename_i hempty
    cases h
    obtain ⟨gap, hgap, -, rfl⟩ := skipBlanks_eq_iff.mp hempty
    rw [List.append_nil]
    exact .done hgap
  | case2 => cases h
  | case3 p cs here text _ lexeme rest hread _ tokens hrest =>
    rename_i ih
    cases h
    rw [eq_takeWhile_append_skipBlanks cs]
    exact .token (blanks_takeWhile cs) (lexeme?_eq_some_iff.mp hread) (ih hrest)
  | case4 => cases h

/-- **Exactly the spellings of tokens are scanned.** -/
theorem tokensFrom_eq_ok_iff {p : Position} {cs : List Char} {tokens : List Token} :
    tokensFrom p cs = .ok tokens ↔ Written p cs tokens :=
  ⟨written_of_tokensFrom, tokensFrom_of_written⟩

theorem Written.wellFormed {p : Position} {cs : List Char} {tokens : List Token}
    (h : Written p cs tokens) : ∀ t ∈ tokens, t.lexeme.WellFormed := by
  induction h with
  | done _ => simp
  | token _ reads _ ih =>
    intro t ht
    rcases List.mem_cons.mp ht with rfl | ht
    · obtain ⟨_, _, -, -, hwords, -⟩ := reads
      exact hwords.wellFormed
    · exact ih t ht

/-- Blanks in front of a text make no difference but to the positions. -/
theorem Written.blanks_append {p : Position} {gap cs : List Char} {tokens : List Token}
    (hgap : Blanks gap) (h : Written (p.past gap) cs tokens) : Written p (gap ++ cs) tokens := by
  cases h with
  | done blanks => exact .done (List.forall_mem_append.mpr ⟨hgap, blanks⟩)
  | @token _ gap' text rest lexeme tokens blanks reads behind =>
    rw [← Position.past_append p] at behind ⊢
    rw [← List.append_assoc]
    exact .token (List.forall_mem_append.mpr ⟨hgap, blanks⟩) reads behind

theorem blanks_nil : Blanks [] := by
  intro c hc
  cases hc

/-- A lexeme at the start of a text. -/
theorem Written.first {p : Position} {text rest : List Char} {lexeme : Lexeme} {tokens : List Token}
    (hreads : Reads lexeme text rest) (h : Written (p.past (taken text rest)) rest tokens) :
    Written p text (⟨lexeme, p⟩ :: tokens) :=
  .token blanks_nil hreads h

/-! ## Plain spellings -/

theorem blanks_singleton {c : Char} (h : isBlank c = true) : Blanks [c] := by
  intro d hd
  rw [List.mem_singleton.mp hd]
  exact h

/-- Words with a space between each two. -/
theorem row_intercalate (words : List (List Char)) : Row words ([' '].intercalate words) := by
  induction words with
  | nil => rfl
  | cons word words ih =>
    cases words with
    | nil => simp [Row, List.intercalate]
    | cons next words => exact ⟨[' '], _, blanks_singleton (by decide), ih, by simp [List.intercalate]⟩

/-- The plain spelling has single spaces behind the keyword and between the words. -/
theorem toList_text (lexeme : Lexeme) :
    ∃ gap, Blanks gap ∧ (gap = [] ↔ lexeme.keyword = [])
      ∧ lexeme.text.toList = lexeme.keyword ++ (gap ++ [' '].intercalate lexeme.words) := by
  cases lexeme with
  | declare name value | branch lhs relation rhs | loop lhs relation rhs | give name =>
    exact ⟨[' '], blanks_singleton (by decide), by simp [Lexeme.keyword],
      by simp [Lexeme.text, Lexeme.keyword, Lexeme.words, List.intercalate]⟩
  | assign target lhs op rhs | blockOpen | blockClose =>
    exact ⟨[], by simp [Blanks], by simp [Lexeme.keyword],
      by simp [Lexeme.text, Lexeme.keyword, Lexeme.words, List.intercalate]⟩

/-- What is no character of a name ends every lexeme. -/
theorem stops_tailChars {cs : List Char} (h : Stops isNameChar cs) (lexeme : Lexeme) :
    Stops lexeme.tailChars cs := by
  cases lexeme with
  | declare name value => exact h.mono fun c => isDigit_eq_false_of_isNameChar
  | assign target lhs op rhs | branch lhs relation rhs | loop lhs relation rhs =>
    exact stops_operandChars h rhs
  | give name => exact h
  | blockOpen | blockClose => exact fun _ _ => rfl

/-- **The plain spelling of a lexeme is one of its spellings.** -/
theorem reads_text {lexeme : Lexeme} (h : lexeme.WellFormed) {rest : List Char}
    (hrest : Stops isNameChar rest) : Reads lexeme (lexeme.text.toList ++ rest) rest := by
  obtain ⟨gap, hgap, hempty, htext⟩ := toList_text lexeme
  refine ⟨gap, [' '].intercalate lexeme.words ++ rest, hgap, hempty, ?_, by simp [htext]⟩
  exact ⟨h, stops_tailChars hrest lexeme, _, row_intercalate _, rfl⟩

/-- The plain spelling of a lexeme spells that lexeme. -/
theorem written_text {lexeme : Lexeme} (h : lexeme.WellFormed) (p : Position) :
    Written p lexeme.text.toList [⟨lexeme, p⟩] := by
  have hreads := reads_text h (stops_nil _)
  rw [List.append_nil] at hreads
  exact .first hreads (.done blanks_nil)

/-- A line with a lexeme in front of a text that spells lexemes. -/
theorem exists_written_line {lexeme : Lexeme} {lexemes : List Lexeme} {cs : List Char}
    (h : lexeme.WellFormed)
    (hcs : ∀ p, ∃ tokens, Written p cs tokens ∧ tokens.map Token.lexeme = lexemes) (p : Position) :
    ∃ tokens, Written p (lexeme.text.toList ++ '\n' :: cs) tokens
      ∧ tokens.map Token.lexeme = lexeme :: lexemes := by
  have hline : Stops isNameChar ('\n' :: cs) := stops_cons.mpr (by decide)
  have hreads := reads_text h hline
  let behind := p.past (taken (lexeme.text.toList ++ '\n' :: cs) ('\n' :: cs))
  obtain ⟨tokens, hwritten, hlexemes⟩ := hcs (behind.past ['\n'])
  refine ⟨⟨lexeme, p⟩ :: tokens, ?_, by rw [List.map_cons, hlexemes]⟩
  exact .first hreads (.blanks_append (blanks_singleton (by decide)) hwritten)

/-- A line for each lexeme spells the lexemes. -/
theorem exists_written_lines {lexemes : List Lexeme} (h : ∀ lexeme ∈ lexemes, lexeme.WellFormed)
    (p : Position) :
    ∃ tokens, Written p (['\n'].intercalate (lexemes.map (·.text.toList))) tokens
      ∧ tokens.map Token.lexeme = lexemes := by
  induction lexemes generalizing p with
  | nil => exact ⟨[], .done blanks_nil, rfl⟩
  | cons lexeme lexemes ih =>
    obtain ⟨hfirst, hothers⟩ := List.forall_mem_cons.mp h
    cases lexemes with
    | nil => exact ⟨[⟨lexeme, p⟩], by simpa [List.intercalate] using written_text hfirst p, rfl⟩
    | cons next lexemes =>
      simpa [List.intercalate] using exists_written_line hfirst (ih hothers) p

end Scan

/-! ## Scanning and compiling -/

/-- A relation that was scanned is known. -/
theorem Token.fault?_ne_unknownRelation {t : Token} (h : t.lexeme.WellFormed) (depth : Int)
    (sign : String) (position : Position) :
    t.fault? depth ≠ some (.unknownRelation sign position) := by
  obtain ⟨lexeme, place⟩ := t
  unfold Token.fault?
  split
  · simp
  · cases lexeme with
    | branch lhs relation rhs | loop lhs relation rhs =>
      simp [Token.localFault?, CompileError.ofRelation?, CompileError.ofOperand?,
        CompileError.ofConstant?, Option.or_eq_some_iff, if_pos h.2.1]
    | _ =>
      simp [Token.localFault?, CompileError.ofTarget?, CompileError.ofOperand?,
        CompileError.ofConstant?, Option.or_eq_some_iff]

theorem Toolchain.compile_ne_unknownRelation (source sign : String) (position : Position) :
    compile source ≠ .error (.compile (.unknownRelation sign position)) := by
  intro h
  cases hscan : Token.scan source with
  | error error =>
    rw [compile, scan, hscan] at h
    cases h
  | ok tokens =>
    have hwellFormed := (Scan.tokensFrom_eq_ok_iff.mp hscan).wellFormed
    rw [compile, scan, hscan] at h
    change (CodeUnit.ofTokens tokens).mapError Error.compile = _ at h
    rcases CodeUnit.ofTokens_cases tokens with ⟨hlarge, -⟩ | ⟨unit, hunit, -⟩ | ⟨error, herror, hcause⟩
    · rw [hlarge] at h
      cases h
    · rw [hunit] at h
      cases h
    · rw [herror] at h
      cases h
      rcases hcause with ⟨before, t, after, rfl, -, hfault⟩ | ⟨-, before, t, after, kind, -, -, -, hkind⟩
      · exact t.fault?_ne_unknownRelation (hwellFormed t (by simp)) _ _ _ hfault
      · cases hkind

/-- **Scanning undoes printing, and yields nothing else.** Every token of a text is well-formed. Every
list of well-formed lexemes is scanned from its plain spellings, a line for each. So no source text is
rejected because of an unknown relation. -/
theorem Token.scan_lines :
    (∀ source tokens, Token.scan source = .ok tokens → ∀ t ∈ tokens, t.lexeme.WellFormed)
      ∧ (∀ lexemes : List Lexeme, (∀ lexeme ∈ lexemes, lexeme.WellFormed) →
          ∃ tokens, Token.scan ("\n".intercalate (lexemes.map Lexeme.text)) = .ok tokens
            ∧ tokens.map Token.lexeme = lexemes)
      ∧ ∀ source sign position,
          Toolchain.compile source ≠ .error (.compile (.unknownRelation sign position)) := by
  refine ⟨?_, ?_, Toolchain.compile_ne_unknownRelation⟩
  · intro source tokens h
    exact (Scan.tokensFrom_eq_ok_iff.mp h).wellFormed
  · intro lexemes h
    obtain ⟨tokens, hwritten, hlexemes⟩ := Scan.exists_written_lines h Position.start
    refine ⟨tokens, ?_, hlexemes⟩
    apply Scan.tokensFrom_of_written
    simpa [String.toList_intercalate, Function.comp_def] using hwritten

/-- Names that are or start with a keyword, and signs next to numerals. -/
def keywordNames : List Lexeme :=
  [.declare "let" "-007", .assign "return" "-1" .sub "-2", .loop "while" "<=" "if", .blockOpen,
    .assign "letter" "let" .mod "10", .blockClose, .give "iffy"]

theorem Token.scan_lines_keywordNames :
    (∀ lexeme ∈ keywordNames, lexeme.WellFormed)
      ∧ ∃ tokens, Token.scan ("\n".intercalate (keywordNames.map Lexeme.text)) = .ok tokens
        ∧ tokens.map Token.lexeme = keywordNames := by
  have h : ∀ lexeme ∈ keywordNames, lexeme.WellFormed := by decide
  exact ⟨h, Token.scan_lines.2.1 keywordNames h⟩

end RegisterLang
