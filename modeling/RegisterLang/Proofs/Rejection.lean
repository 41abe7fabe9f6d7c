import RegisterLang.Proofs.Positions

/-!
# Where a text cannot be read on

A scan that fails has read lexemes up to some place, and there no shape of a lexeme fits. What it has read
does not depend on what follows: the text up to that place is scanned by itself.

* `Scan.Reads.of_stops`: behind a lexeme, one text is as good as another that does not lengthen it.
* `Scan.Passes`: reading some tokens of a text, one gets to a later position and the text from there.
* `Scan.Stuck`: a text that starts with no lexeme.
* `Scan.tokensFrom_eq_error_iff`: a scan fails exactly where it gets to such a text.
* `Token.scan_rejects`: the place that an error reports.
-/

namespace RegisterLang

open Text

namespace Scan

/-! ## What follows a lexeme -/

theorem Reads.stops {lexeme : Lexeme} {cs rest : List Char} (h : Reads lexeme cs rest) :
    Stops lexeme.tailChars rest := by
  obtain ⟨_, _, -, -, hwords, -⟩ := h
  exact hwords.stops

/-- **The text behind a lexeme may be replaced** by any other that does not make its last word longer. -/
theorem Reads.of_stops {lexeme : Lexeme} {front rest other : List Char}
    (h : Reads lexeme (front ++ rest) rest) (hother : Stops lexeme.tailChars other) :
    Reads lexeme (front ++ other) other := by
  obtain ⟨gap, _, hgap, hempty, ⟨hwellFormed, -, row, hrow, rfl⟩, hcs⟩ := h
  have hfront : front = lexeme.keyword ++ (gap ++ row) := by
    simpa only [← List.append_assoc, List.append_cancel_right_eq] using hcs
  refine ⟨gap, row ++ other, hgap, hempty, ⟨hwellFormed, hother, row, hrow, rfl⟩, ?_⟩
  rw [hfront]
  simp only [List.append_assoc]

/-! ## Reading a part of a text -/

/-- Reading the tokens from the start of the text, which stands at the position, one gets to the other
position and the other text. -/
inductive Passes : Position → List Char → List Token → Position → List Char → Prop
  | done (p : Position) (cs : List Char) : Passes p cs [] p cs
  | token {p q : Position} {gap text rest last : List Char} {lexeme : Lexeme} {tokens : List Token}
      (blanks : Blanks gap) (reads : Reads lexeme text rest)
      (behind : Passes ((p.past gap).past (taken text rest)) rest tokens q last) :
      Passes p (gap ++ text) (⟨lexeme, p.past gap⟩ :: tokens) q last

/-- The tokens of a text are those that were read and those of what is left. -/
theorem Passes.tokensFrom_eq {p q : Position} {cs last : List Char} {tokens : List Token}
    (h : Passes p cs tokens q last) :
    tokensFrom p cs = (tokensFrom q last).map (tokens ++ ·) := by
  induction h with
  | done p cs => cases tokensFrom p cs <;> rfl
  | @token p q gap text rest last lexeme tokens blanks reads behind ih =>
    rw [tokensFrom_of_reads blanks reads, ih]
    cases tokensFrom q last <;> rfl

/-- **What was read is a text of its own**, with as much of the rest as is a text. -/
theorem Passes.exists_written {p q : Position} {cs left right : List Char} {tokens more : List Token}
    (h : Passes p cs tokens q (left ++ right)) (hleft : Written q left more) :
    ∃ front, cs = front ++ right ∧ p.past front = q.past left ∧ Written p front (tokens ++ more) := by
  generalize hlast : left ++ right = last at h
  induction h with
  | done p cs => exact ⟨left, hlast.symm, rfl, hleft⟩
  | @token p q gap text rest last lexeme tokens blanks reads behind ih =>
    obtain ⟨front, rfl, hpast, hwritten⟩ := ih hleft hlast
    obtain ⟨word, rfl, -, -⟩ := reads.exists_front
    -- what follows the lexeme now ends earlier, so it still does not lengthen it
    have hreads := reads.of_stops reads.stops.of_append
    rw [taken_append] at hpast hwritten
    refine ⟨gap ++ (word ++ front), by simp, ?_, ?_⟩
    · rw [Position.past_append, Position.past_append, hpast]
    · refine .token blanks hreads ?_
      rwa [taken_append]

/-! ## Failing scans -/

/-- The text starts with a character that is not blank, but with no lexeme. -/
structure Stuck (cs : List Char) : Prop where
  ne_nil : cs ≠ []
  stops : Stops isBlank cs
  unread : lexeme? cs = none

/-- Blanks in front of a text only move its position. -/
theorem tokensFrom_blanks_append {gap : List Char} (hgap : Blanks gap) (p : Position)
    (cs : List Char) : tokensFrom p (gap ++ cs) = tokensFrom (p.past gap) cs := by
  have hskip : skipBlanks (gap ++ cs) = skipBlanks cs := List.dropWhile_append_of_pos hgap
  have htake : (gap ++ cs).takeWhile isBlank = gap ++ cs.takeWhile isBlank :=
    List.takeWhile_append_of_pos hgap
  rw [tokensFrom, tokensFrom]
  simp only [htake, Position.past_append]
  rw [hskip]

theorem Stuck.tokensFrom_eq {cs : List Char} (h : Stuck cs) (p : Position) :
    tokensFrom p cs = .error ⟨p, excerpt cs⟩ := by
  obtain ⟨htake, hskip⟩ := takeWhile_and_dropWhile_iff.mpr
    ⟨(List.nil_append cs).symm, blanks_nil, h.stops⟩
  change skipBlanks cs = cs at hskip
  rw [tokensFrom]
  simp only [hskip, htake, if_neg h.ne_nil]
  split
  · rfl
  · rename_i hsome
    rw [hskip, h.unread] at hsome
    cases hsome

theorem exists_stuck_of_tokensFrom {p : Position} {cs : List Char} {e : ScanError}
    (h : tokensFrom p cs = .error e) :
    ∃ tokens q gap text, Passes p cs tokens q (gap ++ text) ∧ Blanks gap ∧ Stuck text
      ∧ e = ⟨q.past gap, excerpt text⟩ := by
  fun_induction tokensFrom p cs with
  | case1 => cases h
  | case2 p cs here text hne hunread =>
    cases h
    refine ⟨[], p, cs.takeWhile isBlank, text, ?_, blanks_takeWhile cs,
      ⟨hne, stops_skipBlanks cs, hunread⟩, rfl⟩
    rw [← eq_takeWhile_append_skipBlanks]
    exact .done p cs
  | case3 => cases h
  | case4 p cs here text _ lexeme rest hread _ error hrest ih =>
    cases h
    obtain ⟨tokens, q, gap, last, hpasses, hlast⟩ := ih hrest
    refine ⟨⟨lexeme, here⟩ :: tokens, q, gap, last, ?_, hlast⟩
    rw [eq_takeWhile_append_skipBlanks cs]
    exact .token (blanks_takeWhile cs) (lexeme?_eq_some_iff.mp hread) hpasses

/-- **A scan fails exactly where it gets to a text that starts with no lexeme.** -/
theorem tokensFrom_eq_error_iff {p : Position} {cs : List Char} {e : ScanError} :
    tokensFrom p cs = .error e
      ↔ ∃ tokens q gap text, Passes p cs tokens q (gap ++ text) ∧ Blanks gap ∧ Stuck text
        ∧ e = ⟨q.past gap, excerpt text⟩ := by
  constructor
  · exact exists_stuck_of_tokensFrom
  · rintro ⟨tokens, q, gap, text, hpasses, hgap, hstuck, rfl⟩
    rw [hpasses.tokensFrom_eq, tokensFrom_blanks_append hgap, hstuck.tokensFrom_eq]
    rfl

/-- A failing scan of a whole text: the text before the place of the error, which is scanned, and the text
from there. -/
theorem exists_front_of_tokensFrom {p : Position} {cs : List Char} {e : ScanError}
    (h : tokensFrom p cs = .error e) :
    ∃ front text tokens, cs = front ++ text ∧ Written p front tokens ∧ Stuck text
      ∧ e = ⟨p.past front, excerpt text⟩ := by
  obtain ⟨tokens, q, gap, text, hpasses, hgap, hstuck, rfl⟩ := exists_stuck_of_tokensFrom h
  obtain ⟨front, hcs, hpast, hwritten⟩ := hpasses.exists_written (.done hgap)
  rw [List.append_nil] at hwritten
  exact ⟨front, text, tokens, hcs, hwritten, hstuck, by rw [hpast]⟩

end Scan

/-- **An error of a scan points at the first statement that cannot be read.** Its offset is that of a
character that is not blank. The text before it is scanned by itself; the text from there fails at its own
start, since no shape of a lexeme fits. The line and the column count the line feeds before the offset and
the characters since the last of them. The message quotes what stands there, up to the next line feed and at
most 16 characters. -/
theorem Token.scan_rejects {source : String} {e : ScanError} (h : Token.scan source = .error e) :
    (∃ c, source.toList[e.position.offset]? = some c ∧ isBlank c = false)
      ∧ (∃ tokens,
          Token.scan (String.ofList (source.toList.take e.position.offset)) = .ok tokens)
      ∧ (∃ other, Token.scan (String.ofList (source.toList.drop e.position.offset)) = .error other
          ∧ other.position.offset = 0)
      ∧ (∀ shape ∈ Scan.shapes, shape (source.toList.drop e.position.offset) = none)
      ∧ e.position.line = 1 + (source.toList.take e.position.offset).count '\n'
      ∧ e.position.column
          = 1 + Position.sinceLineFeed (source.toList.take e.position.offset)
      ∧ e.message = e.position.text ++ ": unrecognized input: '" ++ String.ofList
          (((source.toList.drop e.position.offset).takeWhile (· ≠ '\n')).take 16) ++ "'" := by
  obtain ⟨front, text, tokens, hsource, hwritten, hstuck, rfl⟩ := Scan.exists_front_of_tokensFrom h
  have hoffset : (Position.start.past front).offset = front.length := by
    rw [Position.past_start]
  simp only [hoffset, hsource, List.take_left, List.drop_left]
  refine ⟨?_, ⟨tokens, ?_⟩, ⟨⟨.start, Scan.excerpt text⟩, ?_, rfl⟩, ?_, ?_, ?_, rfl⟩
  · obtain ⟨c, cs, rfl⟩ := List.exists_cons_of_ne_nil hstuck.ne_nil
    exact ⟨c, by simp, Scan.stops_cons.mp hstuck.stops⟩
  · rw [Token.scan, String.toList_ofList]
    exact Scan.tokensFrom_of_written hwritten
  · rw [Token.scan, String.toList_ofList]
    exact hstuck.tokensFrom_eq .start
  · exact List.findSome?_eq_none_iff.mp hstuck.unread
  · rw [Position.past_start]
  · rw [Position.past_start]

/-- The condition of the loop goes on over two lines before it turns out to be none. -/
def misread : String := "let x = 1\n  while counter <= \n  = 2"

/-- The error of `misread`. -/
def misreadError : ScanError := ⟨⟨12, 2, 3⟩, "while counter <="⟩

theorem scan_misread : Token.scan misread = .error misreadError := by
  have hdeclare : Scan.lexeme? misread.toList
      = some (.declare "x" "1", "\n  while counter <= \n  = 2".toList) := by decide
  have hgap : Scan.Blanks "\n  ".toList := List.all_eq_true.mp (by decide)
  have hstuck : Scan.Stuck "while counter <= \n  = 2".toList :=
    ⟨by decide, Scan.stops_cons.mpr (by decide), by decide⟩
  have hpasses : Scan.Passes .start misread.toList [⟨.declare "x" "1", .start⟩] ⟨9, 1, 10⟩
      ("\n  ".toList ++ "while counter <= \n  = 2".toList) :=
    .token Scan.blanks_nil (Scan.lexeme?_eq_some_iff.mp hdeclare) (.done _ _)
  exact Scan.tokensFrom_eq_error_iff.mpr ⟨_, _, _, _, hpasses, hgap, hstuck, by decide⟩

theorem Token.scan_rejects_misread :
    Token.scan misread = .error misreadError
      ∧ (∃ c, misread.toList[12]? = some c ∧ isBlank c = false)
      ∧ (∃ tokens, Token.scan (String.ofList (misread.toList.take 12)) = .ok tokens)
      ∧ (∃ other, Token.scan (String.ofList (misread.toList.drop 12)) = .error other
          ∧ other.position.offset = 0)
      ∧ 2 = 1 + (misread.toList.take 12).count '\n'
      ∧ 3 = 1 + Position.sinceLineFeed (misread.toList.take 12)
      ∧ misreadError.message = "2:3: unrecognized input: 'while counter <='" := by
  obtain ⟨hchar, hfront, hrest, -, hline, hcolumn, -⟩ := Token.scan_rejects scan_misread
  exact ⟨scan_misread, hchar, hfront, hrest, hline, hcolumn, by decide⟩

end RegisterLang
