import RegisterLang.Proofs.Concatenation

/-!
# Texts with the same words

The blanks of a text only set its words apart. Two texts with the same words, between which there are
blanks of whatever kind and number, are read in step: where a lexeme is read in one, it is read in the
other, and both go on alike behind it.

* `Text.LaidOut`: a text consists of some words. `Text.words` finds them, and `Text.words_eq_iff` says that
  there are no others.
* `Text.Relaid`: two texts consist of the same words.
* `Text.pieces`: how a text goes on, up to the next blank and behind it. This is what two texts share in
  the middle of a word.
* `Scan.Reads.exists_alike`, `Scan.Passes.exists_relaid`: one lexeme and many are read in step.
* `Token.scan_relaid`: the layout of a text is of no account.
-/

namespace RegisterLang

open Scan (Blanks Stops blanks_nil blanks_singleton blanks_takeWhile eq_takeWhile_append_skipBlanks
  skipBlanks stops_cons stops_nil stops_skipBlanks)

namespace Text

/-! ## Layouts -/

/-- The words with blanks behind them, and at least one blank between each two. -/
inductive Spaced : List (List Char) → List Char → Prop
  | done {gap : List Char} (blanks : Blanks gap) : Spaced [] gap
  | word {word gap rest : List Char} {words : List (List Char)} (isWord : IsWord word)
      (blanks : Blanks gap) (apart : words ≠ [] → gap ≠ []) (behind : Spaced words rest) :
      Spaced (word :: words) (word ++ (gap ++ rest))

/-- The text consists of the words: there is a blank or more between each two, and there may be blanks
before the first and behind the last. -/
def LaidOut (words : List (List Char)) (cs : List Char) : Prop :=
  ∃ gap text, Blanks gap ∧ Spaced words text ∧ cs = gap ++ text

/-- The texts consist of the same words. -/
def Relaid (cs ds : List Char) : Prop := ∃ words, LaidOut words cs ∧ LaidOut words ds

/-! ## The words of a text -/

/-- The words, of which the first is there only if it has a character. -/
def gather : List Char × List (List Char) → List (List Char)
  | ([], words) => words
  | (word, words) => word :: words

/-- The characters of a text up to its first blank, and the words behind it. -/
def pieces : List Char → List Char × List (List Char)
  | [] => ([], [])
  | c :: cs => if isBlank c then ([], gather (pieces cs)) else (c :: (pieces cs).1, (pieces cs).2)

/-- The words of a text: its longest stretches without a blank. -/
def words (cs : List Char) : List (List Char) := gather (pieces cs)

variable {c : Char} {cs ds gap word : List Char}

theorem pieces_blank (h : isBlank c = true) (cs : List Char) : pieces (c :: cs) = ([], words cs) :=
  if_pos h

theorem pieces_visible (h : isBlank c = false) (cs : List Char) :
    pieces (c :: cs) = (c :: (pieces cs).1, (pieces cs).2) := by
  rw [pieces, if_neg (by simp [h])]

theorem pieces_append (h : ∀ c ∈ word, isBlank c = false) (cs : List Char) :
    pieces (word ++ cs) = (word ++ (pieces cs).1, (pieces cs).2) := by
  induction word with
  | nil => rfl
  | cons c word ih =>
    obtain ⟨hc, hword⟩ := List.forall_mem_cons.mp h
    rw [List.cons_append, pieces_visible hc, ih hword]
    rfl

theorem words_blank (h : isBlank c = true) (cs : List Char) : words (c :: cs) = words cs := by
  rw [words, pieces_blank h]
  rfl

theorem words_visible (h : isBlank c = false) (cs : List Char) :
    words (c :: cs) = (c :: (pieces cs).1) :: (pieces cs).2 := by
  rw [words, pieces_visible h]
  rfl

theorem words_blanks_append (h : Blanks gap) (cs : List Char) : words (gap ++ cs) = words cs := by
  induction gap with
  | nil => rfl
  | cons c gap ih =>
    obtain ⟨hc, hgap⟩ := List.forall_mem_cons.mp h
    rw [List.cons_append, words_blank hc, ih hgap]

theorem words_skipBlanks (cs : List Char) : words (skipBlanks cs) = words cs := by
  have h := words_blanks_append (blanks_takeWhile cs) (skipBlanks cs)
  rwa [← eq_takeWhile_append_skipBlanks, eq_comm] at h

theorem words_eq_nil_iff : words cs = [] ↔ Blanks cs := by
  constructor
  · intro h
    induction cs with
    | nil => exact blanks_nil
    | cons c cs ih =>
      cases hc : isBlank c with
      | true =>
        rw [words_blank hc] at h
        exact List.forall_mem_cons.mpr ⟨hc, ih h⟩
      | false =>
        rw [words_visible hc] at h
        cases h
  · intro h
    rw [← List.append_nil cs, words_blanks_append h]
    rfl

theorem pieces_of_blanks (h : Blanks gap) : pieces gap = ([], []) := by
  cases gap with
  | nil => rfl
  | cons c gap =>
    obtain ⟨hc, hgap⟩ := List.forall_mem_cons.mp h
    rw [pieces_blank hc, words_eq_nil_iff.mpr hgap]

/-! ## Every text has one list of words -/

theorem Spaced.words_eq {list : List (List Char)} (h : Spaced list cs) : words cs = list := by
  induction h with
  | done blanks => exact words_eq_nil_iff.mpr blanks
  | @word word gap rest list isWord blanks apart behind ih =>
    have hbehind : pieces (gap ++ rest) = ([], list) := by
      cases gap with
      | cons c gap =>
        obtain ⟨hc, hgap⟩ := List.forall_mem_cons.mp blanks
        rw [List.cons_append, pieces_blank hc, words_blanks_append hgap, ih]
      | nil =>
        -- without a blank behind the word it is the last one
        have hlast : list = [] := Classical.byContradiction fun hne => apart hne rfl
        subst hlast
        exact pieces_of_blanks (words_eq_nil_iff.mp ih)
    obtain ⟨c, tail, rfl⟩ := List.exists_cons_of_ne_nil isWord.1
    rw [words, pieces_append isWord.2, hbehind, List.append_nil]
    rfl

/-- A stretch without blanks in front of words is a word with them, or is empty. -/
theorem laidOut_gather {rest : List Char} {list : List (List Char)}
    (hword : ∀ c ∈ word, isBlank c = false) (hgap : Blanks gap) (hapart : list ≠ [] → gap ≠ [])
    (hrest : Spaced list rest) : LaidOut (gather (word, list)) (word ++ (gap ++ rest)) := by
  cases word with
  | nil => exact ⟨gap, rest, hgap, hrest, rfl⟩
  | cons c word =>
    exact ⟨[], _, blanks_nil, .word ⟨List.cons_ne_nil c word, hword⟩ hgap hapart hrest, rfl⟩

/-- A text from the middle of a word on: the rest of the word, and the words behind it. -/
theorem exists_spaced (cs : List Char) :
    (∀ c ∈ (pieces cs).1, isBlank c = false) ∧ ∃ gap rest, Blanks gap
      ∧ ((pieces cs).2 ≠ [] → gap ≠ []) ∧ Spaced (pieces cs).2 rest
      ∧ cs = (pieces cs).1 ++ (gap ++ rest) := by
  induction cs with
  | nil => exact ⟨by simp [pieces], [], [], blanks_nil, by simp [pieces], .done blanks_nil, rfl⟩
  | cons c cs ih =>
    obtain ⟨hword, gap, rest, hgap, hapart, hrest, hcs⟩ := ih
    cases hc : isBlank c with
    | false =>
      rw [pieces_visible hc]
      exact ⟨List.forall_mem_cons.mpr ⟨hc, hword⟩, gap, rest, hgap, hapart, hrest,
        congrArg (List.cons c) hcs⟩
    | true =>
      have hlaid := laidOut_gather hword hgap hapart hrest
      rw [← hcs] at hlaid
      obtain ⟨gap, text, hgap, htext, hcs⟩ := hlaid
      rw [pieces_blank hc]
      exact ⟨by simp, c :: gap, text, List.forall_mem_cons.mpr ⟨hc, hgap⟩, by simp, htext,
        congrArg (List.cons c) hcs⟩

/-- **A text consists of its words, and of no others.** -/
theorem words_eq_iff {list : List (List Char)} : words cs = list ↔ LaidOut list cs := by
  constructor
  · rintro rfl
    obtain ⟨hword, gap, rest, hgap, hapart, hrest, hcs⟩ := exists_spaced cs
    have hlaid := laidOut_gather hword hgap hapart hrest
    rwa [← hcs] at hlaid
  · rintro ⟨gap, text, hgap, htext, rfl⟩
    rw [words_blanks_append hgap, htext.words_eq]

theorem relaid_iff : Relaid cs ds ↔ words cs = words ds := by
  constructor
  · rintro ⟨list, hcs, hds⟩
    rw [words_eq_iff.mpr hcs, words_eq_iff.mpr hds]
  · intro h
    exact ⟨words cs, words_eq_iff.mp rfl, words_eq_iff.mp h.symm⟩

instance (cs ds : List Char) : Decidable (Relaid cs ds) := decidable_of_iff _ relaid_iff.symm

/-! ## Texts that go on alike -/

/-- A text starts with what its pieces start with. -/
theorem exists_cons_of_pieces {list : List (List Char)} (h : pieces ds = (c :: word, list)) :
    ∃ tail, ds = c :: tail ∧ isBlank c = false ∧ pieces tail = (word, list) := by
  cases ds with
  | nil => cases h
  | cons d tail =>
    cases hd : isBlank d with
    | true =>
      rw [pieces_blank hd] at h
      cases h
    | false =>
      rw [pieces_visible hd] at h
      cases h
      exact ⟨tail, rfl, hd, rfl⟩

/-- Texts with the same words that both start with one go on alike. -/
theorem pieces_eq_of_words_eq (hcs : Stops isBlank cs) (hds : Stops isBlank ds)
    (h : words cs = words ds) : pieces cs = pieces ds := by
  cases cs with
  | nil =>
    cases ds with
    | nil => rfl
    | cons d ds =>
      rw [words_visible (stops_cons.mp hds)] at h
      cases h
  | cons c cs =>
    have hc := stops_cons.mp hcs
    cases ds with
    | nil =>
      rw [words_visible hc] at h
      cases h
    | cons d ds =>
      have hd := stops_cons.mp hds
      rw [words_visible hc, words_visible hd] at h
      obtain ⟨hfirst, hothers⟩ := List.cons.inj h
      rw [pieces_visible hc, pieces_visible hd, hfirst, hothers]

/-- A word at the start of one text stands at the start of every text that goes on alike. -/
theorem exists_append_of_pieces (hword : ∀ c ∈ word, isBlank c = false)
    (h : pieces (word ++ cs) = pieces ds) :
    ∃ rest, ds = word ++ rest ∧ pieces cs = pieces rest := by
  induction word generalizing ds with
  | nil => exact ⟨ds, rfl, h⟩
  | cons c word ih =>
    obtain ⟨hc, hword⟩ := List.forall_mem_cons.mp hword
    rw [List.cons_append, pieces_visible hc] at h
    obtain ⟨tail, rfl, -, htail⟩ := exists_cons_of_pieces h.symm
    obtain ⟨rest, rfl, hrest⟩ := ih hword htail.symm
    exact ⟨rest, rfl, hrest⟩

/-- Blanks in front of a word are matched by blanks, and no blanks by none. -/
theorem exists_gap_of_pieces (hgap : Blanks gap) (hc : isBlank c = false)
    (h : pieces (gap ++ c :: cs) = pieces ds) :
    ∃ other rest, ds = other ++ rest ∧ Blanks other ∧ (other = [] ↔ gap = [])
      ∧ pieces (c :: cs) = pieces rest := by
  cases gap with
  | nil => exact ⟨[], ds, rfl, blanks_nil, by simp, h⟩
  | cons blank gap =>
    obtain ⟨hblank, hgap⟩ := List.forall_mem_cons.mp hgap
    rw [List.cons_append, pieces_blank hblank, words_blanks_append hgap] at h
    cases ds with
    | nil =>
      -- the word would be missing
      rw [words_visible hc] at h
      cases h
    | cons d ds =>
      cases hd : isBlank d with
      | false =>
        rw [pieces_visible hd] at h
        cases h
      | true =>
        rw [pieces_blank hd] at h
        have hwords : words (c :: cs) = words (skipBlanks ds) := by
          rw [words_skipBlanks]
          exact (Prod.mk.inj h).2
        exact ⟨d :: ds.takeWhile isBlank, skipBlanks ds,
          congrArg (List.cons d) (eq_takeWhile_append_skipBlanks ds),
          List.forall_mem_cons.mpr ⟨hd, blanks_takeWhile ds⟩, by simp,
          pieces_eq_of_words_eq (stops_cons.mpr hc) (stops_skipBlanks ds) hwords⟩

/-- What blanks end in one text also ends in one that goes on alike. -/
theorem stops_of_pieces {kind : Char → Bool} (hkind : ∀ c, isBlank c = true → kind c = false)
    (h : pieces cs = pieces ds) (hcs : Stops kind cs) : Stops kind ds := by
  cases ds with
  | nil => exact stops_nil kind
  | cons d ds =>
    rw [stops_cons]
    cases hd : isBlank d with
    | true => exact hkind d hd
    | false =>
      rw [pieces_visible hd] at h
      obtain ⟨tail, rfl, -, -⟩ := exists_cons_of_pieces h
      exact stops_cons.mp hcs

end Text

open Text

namespace Scan

/-! ## Lexemes in texts that go on alike -/

/-- **A row of words is matched by a row of the same words.** -/
theorem Row.exists_alike {words : List (List Char)} {row rest ds : List Char} (h : Row words row)
    (hwords : ∀ word ∈ words, IsWord word) (halike : pieces (row ++ rest) = pieces ds) :
    ∃ other behind, Row words other ∧ ds = other ++ behind ∧ pieces rest = pieces behind := by
  induction words generalizing row ds with
  | nil =>
    cases h
    exact ⟨[], ds, rfl, rfl, halike⟩
  | cons word words ih =>
    obtain ⟨⟨-, hword⟩, hothers⟩ := List.forall_mem_cons.mp hwords
    cases words with
    | nil =>
      cases h
      obtain ⟨behind, rfl, hbehind⟩ := exists_append_of_pieces hword halike
      exact ⟨word, behind, rfl, rfl, hbehind⟩
    | cons next words =>
      obtain ⟨gap, row, hgap, hrow, rfl⟩ := h
      simp only [List.append_assoc] at halike
      obtain ⟨tail, rfl, htail⟩ := exists_append_of_pieces hword halike
      obtain ⟨c, chars, rfl, hc⟩ := hrow.exists_visible hothers (List.cons_ne_nil next words)
      obtain ⟨other, tail, rfl, hother, -, htail⟩ := exists_gap_of_pieces hgap hc htail
      obtain ⟨others, behind, hrow, rfl, hbehind⟩ := ih hrow hothers htail
      exact ⟨word ++ (other ++ others), behind, ⟨other, others, hother, hrow, rfl⟩, by simp, hbehind⟩

/-- A blank ends every lexeme. -/
theorem tailChars_eq_false_of_isBlank (lexeme : Lexeme) (c : Char) (h : isBlank c = true) :
    lexeme.tailChars c = false :=
  stops_cons.mp (stops_tailChars (stops_cons.mpr (isNameChar_eq_false_of_isBlank h) : Stops _ [c]) lexeme)

/-- **A lexeme is read in step**: texts that go on alike start with the same lexeme, and behind it they go
on alike. -/
theorem Reads.exists_alike {lexeme : Lexeme} {cs rest ds : List Char} (h : Reads lexeme cs rest)
    (halike : pieces cs = pieces ds) :
    ∃ behind, Reads lexeme ds behind ∧ pieces rest = pieces behind := by
  obtain ⟨gap, _, hgap, hempty, ⟨hwellFormed, hstops, row, hrow, rfl⟩, rfl⟩ := h
  have hwords := hwellFormed.isWord
  have hkeyword : ∀ c ∈ lexeme.keyword, isBlank c = false :=
    fun c hc => isBlank_eq_false (isNameChar_of_mem_keyword c hc)
  obtain ⟨tail, rfl, htail⟩ := exists_append_of_pieces hkeyword halike
  obtain ⟨c, chars, rfl, hc⟩ := hrow.exists_visible hwords lexeme.words_ne_nil
  obtain ⟨other, tail, rfl, hother, hsame, htail⟩ := exists_gap_of_pieces hgap hc htail
  obtain ⟨row, behind, hrow, rfl, hbehind⟩ := hrow.exists_alike hwords htail
  have hend := stops_of_pieces (tailChars_eq_false_of_isBlank lexeme) hbehind hstops
  exact ⟨behind, ⟨other, row ++ behind, hother, hsame.trans hempty,
    ⟨hwellFormed, hend, row, hrow, rfl⟩, rfl⟩, hbehind⟩

/-- Where one text starts with no lexeme, neither does a text that goes on alike. -/
theorem Stuck.of_pieces {cs ds : List Char} (h : Stuck cs) (halike : pieces cs = pieces ds) :
    Stuck ds := by
  obtain ⟨c, tail, rfl⟩ := List.exists_cons_of_ne_nil h.ne_nil
  have hc := stops_cons.mp h.stops
  obtain ⟨other, rfl, -, -⟩ := exists_cons_of_pieces (halike.symm.trans (pieces_visible hc tail))
  refine ⟨List.cons_ne_nil c other, stops_cons.mpr hc, ?_⟩
  cases hread : lexeme? (c :: other) with
  | none => rfl
  | some found =>
    obtain ⟨behind, hreads, -⟩ := (lexeme?_eq_some_iff.mp hread).exists_alike halike.symm
    have hunread := h.unread
    rw [lexeme?_eq_some_iff.mpr hreads] at hunread
    cases hunread

/-! ## Texts in step -/

/-- **Texts with the same words are read in step.** -/
theorem Passes.exists_relaid {p q : Position} {cs last ds : List Char} {tokens : List Token}
    (h : Passes p cs tokens q last) (hwords : words cs = words ds) (start : Position) :
    ∃ others stop rest, Passes start ds others stop rest
      ∧ others.map Token.lexeme = tokens.map Token.lexeme ∧ words last = words rest := by
  induction h generalizing ds start with
  | done p cs => exact ⟨[], start, ds, .done start ds, rfl, hwords⟩
  | @token p q gap text rest last lexeme tokens blanks reads behind ih =>
    rw [words_blanks_append blanks, ← words_skipBlanks ds] at hwords
    have halike := pieces_eq_of_words_eq reads.stops_isBlank (stops_skipBlanks ds) hwords
    obtain ⟨otherRest, hreads, hrest⟩ := reads.exists_alike halike
    let here := start.past (ds.takeWhile isBlank)
    obtain ⟨others, stop, otherLast, hpasses, hlexemes, hlast⟩ :=
      ih (congrArg gather hrest) (here.past (taken (skipBlanks ds) otherRest))
    refine ⟨⟨lexeme, here⟩ :: others, stop, otherLast, ?_, ?_, hlast⟩
    · rw [eq_takeWhile_append_skipBlanks ds]
      exact .token (blanks_takeWhile ds) hreads hpasses
    · rw [List.map_cons, List.map_cons, hlexemes]

/-- What stands before the place where a scan ends is the tokens that it has read. -/
theorem Passes.visible_take {q : Position} {cs gap text : List Char} {tokens : List Token}
    (h : Passes .start cs tokens q (gap ++ text)) (hgap : Blanks gap) :
    visible (cs.take (q.past gap).offset) = tokens.flatMap Token.visible := by
  obtain ⟨front, rfl, hpast, hwritten⟩ := h.exists_written (.done hgap)
  rw [List.append_nil] at hwritten
  rw [← hpast, Position.past_start, List.take_left, hwritten.visible_eq]

theorem flatMap_visible_eq {tokens others : List Token}
    (h : others.map Token.lexeme = tokens.map Token.lexeme) :
    others.flatMap Token.visible = tokens.flatMap Token.visible := by
  have hlexeme : ∀ list : List Token, list.flatMap Token.visible
      = (list.map Token.lexeme).flatMap fun lexeme => visible lexeme.text.toList := by
    intro list
    rw [List.flatMap_map]
    rfl
  rw [hlexeme, hlexeme, h]

end Scan

/-- **The layout of a text is of no account.** Of two texts with the same words, whatever blanks set them
apart, both are scanned or neither is. If they are, the tokens are the same but for their positions; if they
are not, the same characters other than blanks stand before the places of the two errors. -/
theorem Token.scan_relaid {first second : String} (h : Relaid first.toList second.toList) :
    (∀ tokens, Token.scan first = .ok tokens →
        ∃ others, Token.scan second = .ok others
          ∧ others.map Token.lexeme = tokens.map Token.lexeme)
      ∧ ∀ e, Token.scan first = .error e →
        ∃ other, Token.scan second = .error other
          ∧ Text.visible (second.toList.take other.position.offset)
            = Text.visible (first.toList.take e.position.offset) := by
  have hwords := relaid_iff.mp h
  refine ⟨?_, ?_⟩
  · intro tokens hscan
    obtain ⟨q, gap, hpasses, hgap⟩ := Scan.tokensFrom_eq_ok_iff_passes.mp hscan
    obtain ⟨others, stop, rest, hothers, hlexemes, hrest⟩ := hpasses.exists_relaid hwords .start
    have hblanks : Blanks rest := words_eq_nil_iff.mp (hrest.symm.trans (words_eq_nil_iff.mpr hgap))
    exact ⟨others, Scan.tokensFrom_eq_ok_iff_passes.mpr ⟨stop, rest, hothers, hblanks⟩, hlexemes⟩
  · intro e hscan
    obtain ⟨tokens, q, gap, text, hpasses, hgap, hstuck, rfl⟩ := Scan.exists_stuck_of_tokensFrom hscan
    obtain ⟨others, stop, rest, hothers, hlexemes, hrest⟩ := hpasses.exists_relaid hwords .start
    rw [words_blanks_append hgap, ← words_skipBlanks rest] at hrest
    have halike := pieces_eq_of_words_eq hstuck.stops (stops_skipBlanks rest) hrest
    rw [eq_takeWhile_append_skipBlanks rest] at hothers
    have hgap' := blanks_takeWhile rest
    refine ⟨_, Scan.tokensFrom_eq_error_iff.mpr
      ⟨others, stop, _, _, hothers, hgap', hstuck.of_pieces halike, rfl⟩, ?_⟩
    rw [hothers.visible_take hgap', hpasses.visible_take hgap, Scan.flatMap_visible_eq hlexemes]

/-- The words of `scattered` with other blanks, also before the first and behind the last. -/
def scatteredOnce : String := "\tlet\u2003é =\u00a0-1 return\u3000é\n"

/-- The words of `misread` on other lines. -/
def misreadOnce : String := "let x\n= 1 while\tcounter <= = 2"

theorem Token.scan_relaid_scattered :
    Relaid scattered.toList scatteredOnce.toList
      ∧ (∃ others, Token.scan scatteredOnce = .ok others
        ∧ others.map Token.lexeme = [.declare "é" "-1", .give "é"])
      ∧ Relaid misread.toList misreadOnce.toList
      ∧ ∃ other, Token.scan misreadOnce = .error other
        ∧ Text.visible (misreadOnce.toList.take other.position.offset) = "letx=1".toList := by
  have hscattered : Relaid scattered.toList scatteredOnce.toList := by decide
  have hmisread : Relaid misread.toList misreadOnce.toList := by decide
  obtain ⟨others, hscan, hlexemes⟩ := (Token.scan_relaid hscattered).1 _ scan_scattered
  obtain ⟨other, herror, hvisible⟩ := (Token.scan_relaid hmisread).2 _ scan_misread
  exact ⟨hscattered, ⟨others, hscan, hlexemes⟩, hmisread, other, herror, hvisible.trans (by decide)⟩

end RegisterLang
