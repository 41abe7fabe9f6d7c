import RegisterLang.Proofs.Rejection

/-!
# Texts in a row

Two texts with a blank between them are scanned one after the other. The first keeps its tokens, since a
blank lengthens no word and what is read of a text does not depend on what follows it. The second is scanned
as if it stood alone, and only its positions move.

* `Position.behind`: where a place of a text gets to when another text is put in front.
* `Scan.Written.exists_passes`: a text is read in the same way with more text behind it.
* `Scan.tokensFrom_eq_ok_iff_passes`: a scan succeeds exactly where it gets past all but blanks.
* `Scan.Written.tokensFrom_append`: the tokens of two texts with a blank between them.
* `Scan.Passes.behind`: a text is read in the same way with another one in front of it.
* `Token.scan_append`: scanning two texts in a row.
-/

namespace RegisterLang

open Text

/-! ## Positions behind a text -/

/-- The position that a place gets when the text is put in front of its own. Only a place in the first line
shares its line with the text in front. -/
def Position.behind (front : List Char) (p : Position) : Position where
  offset := p.offset + front.length
  line := p.line + front.count '\n'
  column := if p.line = 1 then p.column + sinceLineFeed front else p.column

/-- The token, with the text put in front of its own. -/
def Token.behind (front : List Char) (t : Token) : Token :=
  { t with position := t.position.behind front }

/-- The error, with the text put in front of its own. -/
def ScanError.behind (front : List Char) (e : ScanError) : ScanError :=
  { e with position := e.position.behind front }

namespace Position

variable {p : Position} (front : List Char)

theorem behind_start : start.behind front = start.past front := by
  rw [past_start]
  simp only [behind, start, if_true, Nat.zero_add]

theorem line_pos_next (h : 0 < p.line) (c : Char) : 0 < (p.next c).line := by
  unfold next
  split
  · exact Nat.succ_pos _
  · exact h

/-- Counting a character commutes with putting a text in front, since a line feed ends the first line in
both. -/
theorem behind_next (h : 0 < p.line) (c : Char) :
    (p.next c).behind front = (p.behind front).next c := by
  by_cases hc : c = '\n'
  · have hline : p.line + 1 ≠ 1 := by omega
    simp only [next, if_pos hc, behind, if_neg hline, mk.injEq, and_true]
    omega
  · simp only [next, if_neg hc, behind, mk.injEq, true_and]
    refine ⟨by omega, ?_⟩
    split <;> omega

theorem behind_past (h : 0 < p.line) (cs : List Char) :
    (p.past cs).behind front = (p.behind front).past cs := by
  induction cs generalizing p with
  | nil => rfl
  | cons c cs ih => rw [past_cons, ih (line_pos_next h c), behind_next front h c, past_cons]

theorem line_pos_past (h : 0 < p.line) (cs : List Char) : 0 < (p.past cs).line := by
  induction cs generalizing p with
  | nil => exact h
  | cons c cs ih => exact ih (line_pos_next h c)

end Position

namespace Scan

variable {p q : Position} {cs last : List Char} {tokens : List Token}

/-! ## More text behind -/

/-- **A text is read in the same way with more text behind it**, if that does not go on with a character of
a name. -/
theorem Written.exists_passes (h : Written p cs tokens) {more : List Char}
    (hmore : Stops isNameChar more) :
    ∃ q gap, Passes p (cs ++ more) tokens q (gap ++ more) ∧ Blanks gap ∧ q.past gap = p.past cs := by
  induction h with
  | @done p cs blanks => exact ⟨p, cs, .done p _, blanks, rfl⟩
  | @token p gap text rest lexeme tokens blanks reads behind ih =>
    obtain ⟨q, last, hpasses, hlast, hpast⟩ := ih
    obtain ⟨front, rfl, -, -⟩ := reads.exists_front
    have hstops : Stops lexeme.tailChars (rest ++ more) := reads.stops.append (stops_tailChars hmore lexeme)
    have hreads : Reads lexeme (front ++ (rest ++ more)) (rest ++ more) := reads.of_stops hstops
    rw [taken_append] at hpasses hpast
    refine ⟨q, last, ?_, hlast, ?_⟩
    · rw [List.append_assoc, List.append_assoc]
      refine .token blanks hreads ?_
      rwa [taken_append]
    · rw [hpast, Position.past_append, Position.past_append]

/-- A scan succeeds exactly where it gets past all but blanks. -/
theorem tokensFrom_eq_ok_iff_passes :
    tokensFrom p cs = .ok tokens ↔ ∃ q gap, Passes p cs tokens q gap ∧ Blanks gap := by
  constructor
  · intro h
    obtain ⟨q, gap, hpasses, hgap, -⟩ := (written_of_tokensFrom h).exists_passes (stops_nil _)
    rw [List.append_nil, List.append_nil] at hpasses
    exact ⟨q, gap, hpasses, hgap⟩
  · rintro ⟨q, gap, hpasses, hgap⟩
    rw [hpasses.tokensFrom_eq, tokensFrom_of_written (.done hgap)]
    exact congrArg Except.ok (List.append_nil tokens)

/-- **The tokens of two texts with a blank between them.** -/
theorem Written.tokensFrom_append (h : Written p cs tokens) {blank : Char}
    (hblank : isBlank blank = true) (more : List Char) :
    tokensFrom p (cs ++ blank :: more)
      = (tokensFrom (p.past (cs ++ [blank])) more).map (tokens ++ ·) := by
  have hstops : Stops isNameChar (blank :: more) :=
    stops_cons.mpr (isNameChar_eq_false_of_isBlank hblank)
  obtain ⟨q, gap, hpasses, hgap, hpast⟩ := h.exists_passes hstops
  have hskipped : Blanks (gap ++ [blank]) :=
    List.forall_mem_append.mpr ⟨hgap, blanks_singleton hblank⟩
  have hskip := tokensFrom_blanks_append hskipped q more
  rw [List.append_assoc] at hskip
  rw [hpasses.tokensFrom_eq, Position.past_append, ← hpast, ← Position.past_append, ← hskip]
  rfl

/-! ## Another text in front -/

/-- **A text is read in the same way with another one in front of it**, at other positions. -/
theorem Passes.behind (h : Passes p cs tokens q last) (hp : 0 < p.line) (front : List Char) :
    Passes (p.behind front) cs (tokens.map (Token.behind front)) (q.behind front) last := by
  induction h with
  | done p cs => exact .done _ _
  | @token p q gap text rest last lexeme tokens blanks reads behind ih =>
    have hgap := Position.line_pos_past hp gap
    have hrest := ih (Position.line_pos_past hgap (taken text rest))
    rw [Position.behind_past front hgap, Position.behind_past front hp] at hrest
    have hposition : Token.behind front ⟨lexeme, p.past gap⟩ = ⟨lexeme, (p.behind front).past gap⟩ :=
      congrArg (Token.mk lexeme) (Position.behind_past front hp gap)
    rw [List.map_cons, hposition]
    exact .token blanks reads hrest

theorem Passes.line_pos (h : Passes p cs tokens q last) (hp : 0 < p.line) : 0 < q.line := by
  induction h with
  | done p cs => exact hp
  | @token p q gap text rest last lexeme tokens blanks reads behind ih =>
    exact ih (Position.line_pos_past (Position.line_pos_past hp gap) _)

theorem tokensFrom_behind_of_ok (h : tokensFrom p cs = .ok tokens) (hp : 0 < p.line)
    (front : List Char) :
    tokensFrom (p.behind front) cs = .ok (tokens.map (Token.behind front)) := by
  obtain ⟨q, gap, hpasses, hgap⟩ := tokensFrom_eq_ok_iff_passes.mp h
  exact tokensFrom_eq_ok_iff_passes.mpr ⟨_, gap, hpasses.behind hp front, hgap⟩

theorem tokensFrom_behind_of_error {e : ScanError} (h : tokensFrom p cs = .error e)
    (hp : 0 < p.line) (front : List Char) :
    tokensFrom (p.behind front) cs = .error (e.behind front) := by
  obtain ⟨tokens, q, gap, text, hpasses, hgap, hstuck, rfl⟩ := exists_stuck_of_tokensFrom h
  refine tokensFrom_eq_error_iff.mpr ⟨_, _, gap, text, hpasses.behind hp front, hgap, hstuck, ?_⟩
  rw [← Position.behind_past front (hpasses.line_pos hp) gap]
  rfl

end Scan

/-- **Texts in a row are scanned one after the other.** If the first is scanned, then with a blank and any
other text behind it the tokens are those of the first, where they were, and those of the second, moved
behind the first and the blank. If the second is not scanned, its error is the one of both, moved in the
same way and with the same excerpt. -/
theorem Token.scan_append {first : String} {tokens : List Token} (h : Token.scan first = .ok tokens)
    {blank : Char} (hblank : isBlank blank = true) (second : String) :
    (∀ more, Token.scan second = .ok more →
        Token.scan (first ++ String.singleton blank ++ second)
          = .ok (tokens ++ more.map (Token.behind (first.toList ++ [blank]))))
      ∧ ∀ e, Token.scan second = .error e →
        Token.scan (first ++ String.singleton blank ++ second)
          = .error (e.behind (first.toList ++ [blank])) := by
  have hscan : Token.scan (first ++ String.singleton blank ++ second)
      = (Scan.tokensFrom (Position.start.behind (first.toList ++ [blank])) second.toList).map
          (tokens ++ ·) := by
    rw [Position.behind_start]
    have happend := (Scan.written_of_tokensFrom h).tokensFrom_append hblank second.toList
    simpa [Token.scan] using happend
  have hline : 0 < Position.start.line := by decide
  refine ⟨?_, ?_⟩
  · intro more hmore
    rw [hscan, Scan.tokensFrom_behind_of_ok hmore hline]
    rfl
  · intro e he
    rw [hscan, Scan.tokensFrom_behind_of_error he hline]
    rfl

/-- The first statement of the second text shares its line with the end of the first text; the others keep
their columns. -/
theorem Token.scan_append_scattered :
    Token.scan scattered = .ok scatteredTokens ∧ isBlank '\u2003' = true
      ∧ Token.scan (scattered ++ String.singleton '\u2003' ++ scattered)
        = .ok (scatteredTokens
          ++ [⟨.declare "é" "-1", ⟨24, 4, 12⟩⟩, ⟨.give "é", ⟨39, 7, 3⟩⟩])
      ∧ Token.scan (scattered ++ String.singleton '\u2003' ++ misread)
        = .error ⟨⟨36, 5, 3⟩, "while counter <="⟩ := by
  have hblank : isBlank '\u2003' = true := by decide
  obtain ⟨hok, -⟩ := Token.scan_append scan_scattered hblank scattered
  obtain ⟨-, herror⟩ := Token.scan_append scan_scattered hblank misread
  exact ⟨scan_scattered, hblank, (hok _ scan_scattered).trans (congrArg Except.ok (by decide)),
    (herror _ scan_misread).trans (congrArg Except.error (by decide))⟩

end RegisterLang
