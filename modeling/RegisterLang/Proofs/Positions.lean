import RegisterLang.Proofs.Scanning

/-!
# Where the tokens of a text stand

A scan keeps three counters: characters, lines and columns. They are those of the text in front of each
token, and the text is the tokens' own characters with blanks around and between them.

* `Position.past_start`: the position behind a text, counted from the text as a whole.
* `Text.visible`: a text without its blanks. `Scan.Reads.exists_front` says that every spelling of a
  lexeme is the plain one up to blanks.
* `Scan.Written.exists_split`: what stands before a token of a text, and what the text goes on with.
* `Token.scan_positions`: the positions of the tokens, and that no character is lost or invented.
-/

namespace RegisterLang

/-! ## Counting -/

namespace Position

/-- How many characters stand behind the last line feed of a text, or in all of it if there is none. -/
def sinceLineFeed (cs : List Char) : Nat := (cs.reverse.takeWhile (· ≠ '\n')).length

theorem offset_past (p : Position) (cs : List Char) : (p.past cs).offset = p.offset + cs.length := by
  induction cs generalizing p with
  | nil => rfl
  | cons c cs ih =>
    have hnext : (p.next c).offset = p.offset + 1 := by
      unfold next
      split <;> rfl
    rw [past_cons, ih, hnext, List.length_cons]
    omega

/-- The counters behind a text, which is given from its end. -/
theorem past_start_reverse (cs : List Char) :
    start.past cs.reverse
      = ⟨cs.length, 1 + cs.count '\n', 1 + (cs.takeWhile (· ≠ '\n')).length⟩ := by
  induction cs with
  | nil => rfl
  | cons c cs ih =>
    rw [List.reverse_cons, past_append, ih, past_cons, past_nil, next]
    by_cases hc : c = '\n'
    · subst hc
      rw [if_pos rfl, List.count_cons_self, List.takeWhile_cons_of_neg (by simp)]
      rfl
    · rw [if_neg hc, List.count_cons_of_ne hc, List.takeWhile_cons_of_pos (by simpa using hc)]
      rfl

/-- **The counters behind a text**: its characters, its line feeds, and the characters of its last
line. -/
theorem past_start (cs : List Char) :
    start.past cs = ⟨cs.length, 1 + cs.count '\n', 1 + sinceLineFeed cs⟩ := by
  have h := past_start_reverse cs.reverse
  rwa [List.reverse_reverse, List.length_reverse, List.count_reverse] at h

end Position

/-! ## Texts without their blanks -/

namespace Text

/-- The characters of a text that are not blank. -/
def visible (cs : List Char) : List Char := cs.filter fun c => !isBlank c

theorem visible_append (cs ds : List Char) : visible (cs ++ ds) = visible cs ++ visible ds :=
  List.filter_append cs ds

end Text

open Text

/-- The characters of the token's plain spelling that are not blank. -/
def Token.visible (t : Token) : List Char := Text.visible t.lexeme.text.toList

namespace Scan

theorem Blanks.visible_eq_nil {gap : List Char} (h : Blanks gap) : visible gap = [] := by
  rw [visible, List.filter_eq_nil_iff]
  intro c hc
  simp [h c hc]

/-- However words are set apart, the same characters are seen. -/
theorem Row.visible_eq {words : List (List Char)} {row : List Char} (h : Row words row) :
    visible row = words.flatMap visible := by
  induction words generalizing row with
  | nil =>
    cases h
    rfl
  | cons word words ih =>
    cases words with
    | nil =>
      cases h
      rw [List.flatMap_singleton]
    | cons next words =>
      obtain ⟨gap, row, hgap, hrow, rfl⟩ := h
      rw [visible_append, visible_append, hgap.visible_eq_nil, List.nil_append, ih hrow]
      rfl

theorem visible_text (lexeme : Lexeme) :
    visible lexeme.text.toList = visible lexeme.keyword ++ lexeme.words.flatMap visible := by
  obtain ⟨gap, hgap, -, htext⟩ := toList_text lexeme
  rw [htext, visible_append, visible_append, hgap.visible_eq_nil, List.nil_append,
    (row_intercalate lexeme.words).visible_eq]

theorem taken_append (front rest : List Char) : taken (front ++ rest) rest = front := by
  rw [taken, List.length_append, Nat.add_sub_cancel, List.take_left]

/-- **Every spelling of a lexeme is the plain one up to blanks**, and it stands at the start of the
text. -/
theorem Reads.exists_front {lexeme : Lexeme} {cs rest : List Char} (h : Reads lexeme cs rest) :
    ∃ front, cs = front ++ rest ∧ front ≠ [] ∧ visible front = visible lexeme.text.toList := by
  have hlength := length_lexeme? (lexeme?_eq_some_iff.mpr h)
  obtain ⟨gap, -, hgap, -, ⟨-, -, row, hrow, rfl⟩, rfl⟩ := h
  refine ⟨lexeme.keyword ++ (gap ++ row), by simp, ?_, ?_⟩
  · intro hnil
    simp only [List.append_eq_nil_iff] at hnil
    simp [hnil] at hlength
  · rw [visible_append, visible_append, hgap.visible_eq_nil, List.nil_append, hrow.visible_eq,
      visible_text]

/-! ## Tokens in a text -/

namespace Written

variable {p : Position} {cs : List Char} {tokens : List Token}

/-- A text is its tokens and blanks. -/
theorem visible_eq (h : Written p cs tokens) : visible cs = tokens.flatMap Token.visible := by
  induction h with
  | done blanks => exact blanks.visible_eq_nil
  | token blanks reads behind ih =>
    obtain ⟨front, rfl, -, hfront⟩ := reads.exists_front
    rw [visible_append, visible_append, blanks.visible_eq_nil, hfront, ih]
    rfl

/-- **A token in the middle of a text**: the text before it holds the earlier tokens and gives it its
position; then the text goes on with its spelling. -/
theorem exists_split {before after : List Token} {t : Token}
    (h : Written p cs (before ++ t :: after)) :
    ∃ left text rest, cs = left ++ text ∧ t.position = p.past left
      ∧ visible left = before.flatMap Token.visible ∧ Reads t.lexeme text rest := by
  induction before generalizing p cs with
  | nil =>
    cases h with
    | @token _ gap text rest lexeme _ blanks reads behind =>
      exact ⟨gap, text, rest, rfl, rfl, blanks.visible_eq_nil, reads⟩
  | cons first before ih =>
    cases h with
    | @token _ gap text rest lexeme _ blanks reads behind =>
      obtain ⟨front, rfl, -, hfront⟩ := reads.exists_front
      obtain ⟨left, text, behindRest, rfl, hposition, hleft, hreads⟩ := ih behind
      refine ⟨gap ++ (front ++ left), text, behindRest, by simp, ?_, ?_, hreads⟩
      · rw [hposition, taken_append, Position.past_append, Position.past_append]
      · rw [visible_append, visible_append, blanks.visible_eq_nil, hfront, hleft]
        rfl

theorem offset_le (h : Written p cs tokens) : ∀ t ∈ tokens, p.offset ≤ t.position.offset := by
  induction h with
  | done _ => simp
  | @token p gap text rest lexeme tokens blanks reads behind ih =>
    intro t ht
    rcases List.mem_cons.mp ht with rfl | ht
    · rw [Position.offset_past]
      omega
    · have hbehind := ih t ht
      rw [Position.offset_past, Position.offset_past] at hbehind
      omega

/-- A token starts behind all earlier ones, since each has a character of its own. -/
theorem pairwise_offset (h : Written p cs tokens) :
    tokens.Pairwise fun t u => t.position.offset < u.position.offset := by
  induction h with
  | done _ => exact .nil
  | @token p gap text rest lexeme tokens blanks reads behind ih =>
    refine .cons ?_ ih
    intro u hu
    obtain ⟨front, rfl, hne, -⟩ := reads.exists_front
    have hbehind := behind.offset_le u hu
    have hpos := List.length_pos_iff.mpr hne
    rw [taken_append, Position.offset_past] at hbehind
    show (p.past gap).offset < u.position.offset
    omega

end Written

end Scan

/-- **The positions of tokens are exact, and no character is lost or invented.** Up to blanks a scanned
text is the plain spellings of its tokens in a row. Each token has the offset of a character that is not
blank, in front of which stand exactly the characters of the earlier tokens; its line and its column
count the line feeds before that offset and the characters since the last of them. -/
theorem Token.scan_positions {source : String} {tokens : List Token}
    (h : Token.scan source = .ok tokens) :
    Text.visible source.toList = tokens.flatMap Token.visible
      ∧ (∀ before t after, tokens = before ++ t :: after →
          (∃ c, source.toList[t.position.offset]? = some c ∧ isBlank c = false)
            ∧ Text.visible (source.toList.take t.position.offset) = before.flatMap Token.visible
            ∧ t.position.line = 1 + (source.toList.take t.position.offset).count '\n'
            ∧ t.position.column
              = 1 + Position.sinceLineFeed (source.toList.take t.position.offset))
      ∧ tokens.Pairwise fun t u => t.position.offset < u.position.offset := by
  have hwritten := Scan.tokensFrom_eq_ok_iff.mp h
  refine ⟨hwritten.visible_eq, ?_, hwritten.pairwise_offset⟩
  rintro before t after rfl
  obtain ⟨left, text, rest, hsource, hposition, hleft, hreads⟩ := hwritten.exists_split
  have hoffset : t.position.offset = left.length := by
    rw [hposition, Position.past_start]
  rw [hoffset, hsource, List.take_left, hposition, Position.past_start]
  refine ⟨?_, hleft, rfl, rfl⟩
  obtain ⟨c, cs, rfl⟩ := List.exists_cons_of_ne_nil hreads.ne_nil
  exact ⟨c, by simp, Scan.stops_cons.mp hreads.stops_isBlank⟩

/-- A statement over two lines, an empty line and an indented statement. -/
def scattered : String := "let é =\n -1\n\n  return é"

/-- The tokens of `scattered`. -/
def scatteredTokens : List Token := [⟨.declare "é" "-1", ⟨0, 1, 1⟩⟩, ⟨.give "é", ⟨15, 4, 3⟩⟩]

theorem scan_scattered : Token.scan scattered = .ok scatteredTokens := by
  apply Scan.tokensFrom_of_written
  have hdeclare : Scan.lexeme? scattered.toList
      = some (.declare "é" "-1", "\n\n  return é".toList) := by decide
  have hgive : Scan.lexeme? "return é".toList = some (.give "é", []) := by decide
  have hblanks : Scan.Blanks "\n\n  ".toList := List.all_eq_true.mp (by decide)
  refine .first (Scan.lexeme?_eq_some_iff.mp hdeclare) ?_
  exact .token hblanks (Scan.lexeme?_eq_some_iff.mp hgive) (.done Scan.blanks_nil)

theorem Token.scan_positions_scattered :
    Token.scan scattered = .ok scatteredTokens
      ∧ Text.visible scattered.toList = scatteredTokens.flatMap Token.visible
      ∧ (∃ c, scattered.toList[15]? = some c ∧ isBlank c = false)
      ∧ Text.visible (scattered.toList.take 15) = "leté=-1".toList
      ∧ 4 = 1 + (scattered.toList.take 15).count '\n'
      ∧ 3 = 1 + Position.sinceLineFeed (scattered.toList.take 15) := by
  obtain ⟨hvisible, hposition, -⟩ := Token.scan_positions scan_scattered
  obtain ⟨hchar, hbefore, hline, hcolumn⟩ := hposition [_] _ [] rfl
  exact ⟨scan_scattered, hvisible, hchar, hbefore.trans (by decide), hline, hcolumn⟩

end RegisterLang
