import RegisterLang.Proofs.Numerals
import RegisterLang.Relation
import RegisterLang.Token.Scan

/-!
# Words of a source text

The readers of single words, each with the exact condition under which it reads a given word: the text
starts with the word, the word is of the reader's kind, and the text behind it does not make the word
longer.

* `Text.isBlank_eq_false`: no character of a name is blank.
* `Text.IsName`, `Text.IsOperand`, `Text.IsWord`: kinds of words.
* `Scan.Stops`: a text does not go on with a character of some kind.
* `Scan.name?_eq_some_iff`, `Scan.numeral?_eq_some_iff`, `Scan.operand?_eq_some_iff`,
  `Scan.relation?_eq_some_iff`, `Scan.operator?_eq_some_iff`, `Scan.keyword?_eq_some_iff`: the readers.
-/

namespace RegisterLang

theorem Operator.symbol_of_ofSymbol? {c : Char} {op : Operator} (h : ofSymbol? c = some op) :
    op.symbol = c := by
  unfold ofSymbol? at h
  split at h <;> cases h <;> rfl

theorem Relation.ofSymbol?_eq_some_iff {sign : String} {r : Relation} :
    ofSymbol? sign = some r ↔ sign = r.symbol := by
  constructor
  · intro h
    unfold ofSymbol? at h
    split at h <;> cases h <;> rfl
  · rintro rfl
    exact ofSymbol?_symbol r

/-- The sign is one of the six. -/
def Relation.IsSign (sign : String) : Prop := ∃ r : Relation, sign = r.symbol

theorem Relation.isSome_ofSymbol?_iff {sign : String} :
    (ofSymbol? sign).isSome = true ↔ IsSign sign := by
  rw [Option.isSome_iff_exists]
  exact exists_congr fun r => ofSymbol?_eq_some_iff

instance (sign : String) : Decidable (Relation.IsSign sign) :=
  decidable_of_iff ((Relation.ofSymbol? sign).isSome = true) Relation.isSome_ofSymbol?_iff

namespace Text

/-! ## Kinds of characters -/

/-- Each of the ranges lies before or behind each of the others. -/
def apart (ranges others : List (Nat × Nat)) : Bool :=
  ranges.all fun r => others.all fun s => Nat.blt r.2 s.1 || Nat.blt s.2 r.1

theorem within_eq_false {ranges others : List (Nat × Nat)} {c : Char}
    (hapart : apart ranges others = true) (hc : within ranges c = true) :
    within others c = false := by
  simp only [apart, List.all_eq_true, Bool.or_eq_true, Nat.blt_eq] at hapart
  simp only [within, List.any_eq_true, Bool.and_eq_true, decide_eq_true_eq] at hc
  obtain ⟨r, hr, hlow, hhigh⟩ := hc
  simp only [within, List.any_eq_false, Bool.and_eq_true, decide_eq_true_eq]
  intro s hs
  rcases hapart r hr s hs with hlt | hlt
  · omega
  · omega

theorem apart_alphanumericRanges : apart alphanumericRanges blankRanges = true := by
  decide +kernel

theorem toNat_of_isDigit {c : Char} (h : c.isDigit = true) : 48 ≤ c.toNat ∧ c.toNat ≤ 57 := by
  simpa [Char.isDigit, UInt32.le_iff_toNat_le] using h

theorem toNat_of_isAlpha {c : Char} (h : c.isAlpha = true) : 65 ≤ c.toNat := by
  have hcase : (c.isUpper || c.isLower) = true := h
  rcases Bool.or_eq_true_iff.mp hcase with hupper | hlower
  · have hrange : c.val ≥ 'A'.val ∧ c.val ≤ 'Z'.val := of_decide_eq_true hupper
    exact UInt32.le_iff_toNat_le.mp hrange.1
  · have hlow : decide (c.val ≥ 'a'.val) = true := (Bool.and_eq_true_iff.mp hlower).1
    have hlast : 97 ≤ c.toNat := UInt32.le_iff_toNat_le.mp (of_decide_eq_true hlow)
    omega

/-- **No character of a name is blank**: beyond ASCII the ranges of the two lie apart, and in ASCII the
blanks come before the digits and letters. -/
theorem isBlank_eq_false {c : Char} (h : isNameChar c = true) : isBlank c = false := by
  unfold isNameChar at h
  split at h
  · rename_i hascii
    have hlow : 48 ≤ c.toNat := by
      simp only [Char.isAlphanum, Bool.or_eq_true, beq_iff_eq] at h
      rcases h with (h | h) | rfl
      · have := toNat_of_isAlpha h
        omega
      · exact (toNat_of_isDigit h).1
      · decide
    simp only [isBlank, within, blankRanges, List.any_eq_false, Bool.and_eq_true, decide_eq_true_eq,
      List.mem_cons, List.not_mem_nil, or_false]
    rintro r (rfl | rfl | rfl | rfl | rfl | rfl | rfl | rfl | rfl | rfl) <;> simp only <;> omega
  · exact within_eq_false apart_alphanumericRanges h

theorem isNameChar_of_isDigit {c : Char} (h : c.isDigit = true) : isNameChar c = true := by
  have hascii : c.toNat < 0x80 := by
    have := toNat_of_isDigit h
    omega
  rw [isNameChar, if_pos hascii, Char.isAlphanum, h]
  simp

theorem isNameChar_eq_false_of_isBlank {c : Char} (h : isBlank c = true) : isNameChar c = false := by
  cases hc : isNameChar c with
  | false => rfl
  | true => rw [isBlank_eq_false hc] at h; cases h

theorem isDigit_eq_false_of_isNameChar {c : Char} (h : isNameChar c = false) :
    c.isDigit = false := by
  cases hc : c.isDigit with
  | false => rfl
  | true => rw [isNameChar_of_isDigit hc] at h; cases h

/-! ## Kinds of words -/

/-- One or more characters of a name. -/
def IsName (text : String) : Prop := text.toList ≠ [] ∧ ∀ c ∈ text.toList, isNameChar c = true

/-- What may stand for a value: a name, which may consist of digits, or digits behind a `-`. -/
def IsOperand (text : String) : Prop := IsName text ∨ IsNegative text

theorem IsDigits.isName {text : String} (h : IsDigits text.toList) : IsName text :=
  ⟨h.1, fun c hc => isNameChar_of_isDigit (h.2 c hc)⟩

theorem IsNumeral.isOperand {text : String} (h : IsNumeral text) : IsOperand text :=
  h.imp IsDigits.isName id

theorem isOperand_iff {text : String} : IsOperand text ↔ IsName text ∨ IsNumeral text := by
  constructor
  · exact Or.imp_right Or.inr
  · rintro (hname | hnumeral)
    · exact .inl hname
    · exact IsNumeral.isOperand hnumeral

/-- What stands for a value has only characters of names and the sign in it. -/
theorem IsOperand.notMem {text : String} (h : IsOperand text) {c : Char} (hname : isNameChar c = false)
    (hminus : c ≠ '-') : c ∉ text.toList := by
  intro hmem
  rcases h with h | ⟨digits, hdigits, htext⟩
  · rw [h.2 c hmem] at hname
    cases hname
  · rw [htext] at hmem
    rcases List.mem_cons.mp hmem with rfl | hmem
    · exact hminus rfl
    · rw [isNameChar_of_isDigit (hdigits.2 c hmem)] at hname
      cases hname

/-- One or more characters, none of them blank. -/
def IsWord (cs : List Char) : Prop := cs ≠ [] ∧ ∀ c ∈ cs, isBlank c = false

theorem IsName.isWord {text : String} (h : IsName text) : IsWord text.toList :=
  ⟨h.1, fun c hc => isBlank_eq_false (h.2 c hc)⟩

theorem IsOperand.isWord {text : String} (h : IsOperand text) : IsWord text.toList := by
  rcases h with hname | ⟨digits, hdigits, htext⟩
  · exact hname.isWord
  · rw [htext]
    refine ⟨List.cons_ne_nil _ _, List.forall_mem_cons.mpr ⟨by decide, ?_⟩⟩
    intro c hc
    exact isBlank_eq_false (isNameChar_of_isDigit (hdigits.2 c hc))

theorem isWord_singleton {c : Char} (h : isBlank c = false) : IsWord [c] :=
  ⟨List.cons_ne_nil _ _, by simpa using h⟩

instance (text : String) : Decidable (IsName text) :=
  decidable_of_iff (text.toList ≠ [] ∧ text.toList.all isNameChar = true)
    (and_congr_right' List.all_eq_true)

instance (text : String) : Decidable (IsOperand text) := decidable_of_iff _ isOperand_iff.symm

end Text

namespace Scan

open Text

/-! ## Stretches of text -/

/-- Only blanks. -/
def Blanks (cs : List Char) : Prop := ∀ c ∈ cs, isBlank c = true

/-- The text does not start with a character of the kind. -/
def Stops (kind : Char → Bool) (cs : List Char) : Prop := ∀ c ∈ cs.head?, kind c = false

theorem stops_nil (kind : Char → Bool) : Stops kind [] := by
  intro c hc
  cases hc

theorem stops_cons {kind : Char → Bool} {c : Char} {cs : List Char} :
    Stops kind (c :: cs) ↔ kind c = false := by
  simp [Stops]

theorem Stops.mono {kind wider : Char → Bool} {cs : List Char} (h : Stops wider cs)
    (hkind : ∀ c, wider c = false → kind c = false) : Stops kind cs := by
  intro c hc
  exact hkind c (h c hc)

theorem Stops.append {kind : Char → Bool} {cs ds : List Char} (h : Stops kind cs)
    (hds : Stops kind ds) : Stops kind (cs ++ ds) := by
  cases cs with
  | nil => exact hds
  | cons c cs => exact stops_cons.mpr (stops_cons.mp h)

theorem Stops.of_append {kind : Char → Bool} {cs ds : List Char} (h : Stops kind (cs ++ ds)) :
    Stops kind cs := by
  cases cs with
  | nil => exact stops_nil kind
  | cons c cs => exact stops_cons.mpr (stops_cons.mp h)

/-- Blanks end a word, and so does what ends it behind them. -/
theorem Blanks.stops_append {kind : Char → Bool} {gap cs : List Char} (hgap : Blanks gap)
    (hkind : ∀ c, isBlank c = true → kind c = false) (hcs : Stops kind cs) :
    Stops kind (gap ++ cs) := by
  cases gap with
  | nil => exact hcs
  | cons c gap => exact stops_cons.mpr (hkind c (hgap c List.mem_cons_self))

/-- The longest start of a text with characters of one kind, and the rest. -/
theorem takeWhile_and_dropWhile_iff {kind : Char → Bool} {cs word rest : List Char} :
    cs.takeWhile kind = word ∧ cs.dropWhile kind = rest
      ↔ cs = word ++ rest ∧ (∀ c ∈ word, kind c = true) ∧ Stops kind rest := by
  constructor
  · rintro ⟨rfl, rfl⟩
    refine ⟨List.takeWhile_append_dropWhile.symm, ?_, ?_⟩
    · exact List.all_eq_true.mp List.all_takeWhile
    · intro c hc
      have hnot := List.head?_dropWhile_not kind cs
      rw [Option.mem_def.mp hc] at hnot
      simpa using hnot
  · rintro ⟨rfl, hword, hrest⟩
    rw [List.takeWhile_append_of_pos hword, List.dropWhile_append_of_pos hword]
    cases rest with
    | nil => simp
    | cons c rest => simp [stops_cons.mp hrest]

/-! ## Blanks and fixed words -/

theorem skipBlanks_eq_iff {cs rest : List Char} :
    skipBlanks cs = rest ↔ ∃ gap, Blanks gap ∧ Stops isBlank rest ∧ cs = gap ++ rest := by
  constructor
  · intro h
    obtain ⟨hcs, hgap, hrest⟩ := takeWhile_and_dropWhile_iff.mp ⟨rfl, h⟩
    exact ⟨_, hgap, hrest, hcs⟩
  · rintro ⟨gap, hgap, hrest, hcs⟩
    exact (takeWhile_and_dropWhile_iff.mpr ⟨hcs, hgap, hrest⟩).2

/-- A text is its leading blanks and what is left without them. -/
theorem eq_takeWhile_append_skipBlanks (cs : List Char) :
    cs = cs.takeWhile isBlank ++ skipBlanks cs := List.takeWhile_append_dropWhile.symm

theorem blanks_takeWhile (cs : List Char) : Blanks (cs.takeWhile isBlank) :=
  List.all_eq_true.mp List.all_takeWhile

theorem stops_skipBlanks (cs : List Char) : Stops isBlank (skipBlanks cs) := by
  obtain ⟨_, -, hstops, -⟩ := skipBlanks_eq_iff.mp (rfl : skipBlanks cs = skipBlanks cs)
  exact hstops

theorem expect?_eq_some_iff {word cs rest : List Char} :
    expect? word cs = some rest ↔ cs = word ++ rest := by
  unfold expect?
  constructor
  · intro h
    split at h
    · rename_i htake
      cases h
      have hsplit := List.take_append_drop word.length cs
      rw [htake] at hsplit
      exact hsplit.symm
    · cases h
  · rintro rfl
    rw [List.take_left, List.drop_left, if_pos rfl]

/-- A keyword has at least one blank behind it. -/
theorem keyword?_eq_some_iff {word cs rest : List Char} :
    keyword? word cs = some rest
      ↔ ∃ gap, gap ≠ [] ∧ Blanks gap ∧ Stops isBlank rest ∧ cs = word ++ (gap ++ rest) := by
  simp only [keyword?, Option.bind_eq_bind, Option.bind_eq_some_iff, expect?_eq_some_iff]
  constructor
  · rintro ⟨behind, rfl, h⟩
    split at h
    · cases h
    · rename_i c tail
      split at h
      · rename_i hc
        obtain ⟨gap, hgap, hrest, rfl⟩ := skipBlanks_eq_iff.mp (Option.some.inj h)
        refine ⟨c :: gap, by simp, ?_, hrest, rfl⟩
        intro d hd
        rcases List.mem_cons.mp hd with rfl | hd
        · exact hc
        · exact hgap d hd
      · cases h
  · rintro ⟨gap, hne, hgap, hrest, rfl⟩
    refine ⟨gap ++ rest, rfl, ?_⟩
    cases gap with
    | nil => exact absurd rfl hne
    | cons c gap =>
      have htail : skipBlanks (gap ++ rest) = rest :=
        skipBlanks_eq_iff.mpr ⟨gap, fun d hd => hgap d (List.mem_cons_of_mem c hd), hrest, rfl⟩
      simp only [List.cons_append, hgap c List.mem_cons_self, htail, if_true]

/-! ## Names and numbers -/

theorem name?_eq_some_iff {cs rest : List Char} {name : String} :
    name? cs = some (name, rest)
      ↔ cs = name.toList ++ rest ∧ IsName name ∧ Stops isNameChar rest := by
  unfold name?
  constructor
  · intro h
    split at h
    · cases h
    · rename_i hne
      cases h
      obtain ⟨hcs, hword, hrest⟩ := takeWhile_and_dropWhile_iff.mp
        (⟨rfl, rfl⟩ : cs.takeWhile isNameChar = _ ∧ cs.dropWhile isNameChar = _)
      rw [IsName, String.toList_ofList]
      exact ⟨hcs, ⟨hne, hword⟩, hrest⟩
  · rintro ⟨hcs, ⟨hne, hword⟩, hrest⟩
    obtain ⟨htake, hdrop⟩ := takeWhile_and_dropWhile_iff.mpr ⟨hcs, hword, hrest⟩
    rw [htake, hdrop, if_neg hne, String.ofList_toList]

theorem digits?_eq_some_iff {cs digits rest : List Char} :
    digits? cs = some (digits, rest)
      ↔ cs = digits ++ rest ∧ IsDigits digits ∧ Stops Char.isDigit rest := by
  unfold digits?
  constructor
  · intro h
    split at h
    · cases h
    · rename_i hne
      cases h
      obtain ⟨hcs, hword, hrest⟩ := takeWhile_and_dropWhile_iff.mp
        (⟨rfl, rfl⟩ : cs.takeWhile Char.isDigit = _ ∧ cs.dropWhile Char.isDigit = _)
      exact ⟨hcs, ⟨hne, hword⟩, hrest⟩
  · rintro ⟨hcs, ⟨hne, hword⟩, hrest⟩
    obtain ⟨htake, hdrop⟩ := takeWhile_and_dropWhile_iff.mpr ⟨hcs, hword, hrest⟩
    rw [htake, hdrop, if_neg hne]

/-- A text that starts with a character of a name does not start with a sign. -/
theorem head_ne_minus {text rest : List Char} (hne : text ≠ [])
    (h : ∀ c ∈ text, isNameChar c = true) (tail : List Char) : text ++ rest ≠ '-' :: tail := by
  intro heq
  cases text with
  | nil => exact hne rfl
  | cons c text =>
    have hminus : isNameChar '-' = false := by decide
    rw [← (List.cons.inj heq).1, h c List.mem_cons_self] at hminus
    cases hminus

theorem numeral?_minus (cs : List Char) :
    numeral? ('-' :: cs)
      = (digits? cs).map fun (digits, rest) => (String.ofList ('-' :: digits), rest) := rfl

theorem numeral?_of_ne {cs : List Char} (h : ∀ tail, cs ≠ '-' :: tail) :
    numeral? cs = (digits? cs).map fun (digits, rest) => (String.ofList digits, rest) := by
  unfold numeral?
  split
  · exact absurd rfl (h _)
  · rfl

theorem numeral?_eq_some_of_isNegative {text : String} {rest : List Char} (htext : IsNegative text)
    (hrest : Stops Char.isDigit rest) : numeral? (text.toList ++ rest) = some (text, rest) := by
  obtain ⟨digits, hdigits, htext⟩ := htext
  have hread : digits? (digits ++ rest) = some (digits, rest) :=
    digits?_eq_some_iff.mpr ⟨rfl, hdigits, hrest⟩
  rw [htext, List.cons_append, numeral?_minus, hread]
  simp only [Option.map_some, ← htext, String.ofList_toList]

theorem numeral?_eq_some_iff {cs rest : List Char} {text : String} :
    numeral? cs = some (text, rest)
      ↔ cs = text.toList ++ rest ∧ IsNumeral text ∧ Stops Char.isDigit rest := by
  constructor
  · intro h
    unfold numeral? at h
    split at h
    · obtain ⟨⟨digits, tail⟩, hread, heq⟩ := Option.map_eq_some_iff.mp h
      obtain ⟨rfl, hdigits, hstops⟩ := digits?_eq_some_iff.mp hread
      cases heq
      exact ⟨by simp, .inr ⟨digits, hdigits, String.toList_ofList⟩, hstops⟩
    · obtain ⟨⟨digits, tail⟩, hread, heq⟩ := Option.map_eq_some_iff.mp h
      obtain ⟨rfl, hdigits, hstops⟩ := digits?_eq_some_iff.mp hread
      cases heq
      exact ⟨by simp, .inl (by simpa using hdigits), hstops⟩
  · rintro ⟨rfl, hdigits | hnegative, hstops⟩
    · have hread := digits?_eq_some_iff.mpr ⟨rfl, hdigits, hstops⟩
      rw [numeral?_of_ne (head_ne_minus hdigits.1 hdigits.isName.2), hread]
      simp only [Option.map_some, String.ofList_toList]
    · exact numeral?_eq_some_of_isNegative hnegative hstops

/-! ## Operands and signs -/

/-- The characters that would lengthen an operand. -/
def operandChars (text : String) : Char → Bool :=
  if text.toList.head? = some '-' then Char.isDigit else isNameChar

theorem operandChars_of_isName {text : String} (h : IsName text) :
    operandChars text = isNameChar := by
  rw [operandChars, if_neg]
  intro hhead
  obtain ⟨tail, htail⟩ := List.head?_eq_some_iff.mp hhead
  have hne : text.toList ++ [] ≠ '-' :: tail := head_ne_minus h.1 h.2 tail
  exact hne (by rw [List.append_nil, htail])

theorem operandChars_of_isNegative {text : String} (h : IsNegative text) :
    operandChars text = Char.isDigit := by
  obtain ⟨digits, -, htext⟩ := h
  rw [operandChars, htext, List.head?_cons, if_pos rfl]

/-- What is no character of a name ends every operand. -/
theorem stops_operandChars {cs : List Char} (h : Stops isNameChar cs) (text : String) :
    Stops (operandChars text) cs := by
  unfold operandChars
  split
  · exact h.mono fun c => isDigit_eq_false_of_isNameChar
  · exact h

theorem operand?_eq_some_iff {cs rest : List Char} {text : String} :
    operand? cs = some (text, rest)
      ↔ cs = text.toList ++ rest ∧ IsOperand text ∧ Stops (operandChars text) rest := by
  constructor
  · intro h
    unfold operand? at h
    split at h
    · rename_i tail
      obtain ⟨hcs, hdigits | hnegative, hstops⟩ := numeral?_eq_some_iff.mp h
      · exact absurd hcs.symm (head_ne_minus hdigits.1 hdigits.isName.2 tail)
      · rw [operandChars_of_isNegative hnegative]
        exact ⟨hcs, .inr hnegative, hstops⟩
    · obtain ⟨hcs, hname, hstops⟩ := name?_eq_some_iff.mp h
      rw [operandChars_of_isName hname]
      exact ⟨hcs, .inl hname, hstops⟩
  · rintro ⟨rfl, hname | hnegative, hstops⟩
    · rw [operandChars_of_isName hname] at hstops
      unfold operand?
      split
      · rename_i tail hcs
        exact absurd hcs (head_ne_minus hname.1 hname.2 tail)
      · exact name?_eq_some_iff.mpr ⟨rfl, hname, hstops⟩
    · rw [operandChars_of_isNegative hnegative] at hstops
      have hread := numeral?_eq_some_of_isNegative hnegative hstops
      obtain ⟨digits, -, htext⟩ := hnegative
      rw [htext, List.cons_append] at hread ⊢
      exact hread

theorem operator?_eq_some_iff {cs rest : List Char} {op : Operator} :
    operator? cs = some (op, rest) ↔ cs = op.symbol :: rest := by
  constructor
  · intro h
    cases cs with
    | nil => cases h
    | cons c tail =>
      obtain ⟨found, hfound, heq⟩ := Option.map_eq_some_iff.mp h
      cases heq
      rw [Operator.symbol_of_ofSymbol? hfound]
  · rintro rfl
    rw [operator?, Operator.ofSymbol?_symbol, Option.map_some]

/-- A sign is read where no `=` makes a sign of one character into one of two. -/
theorem relation?_symbol_append {r : Relation} {rest : List Char}
    (h : r = .lt ∨ r = .gt → Stops (· == '=') rest) :
    relation? (r.symbol.toList ++ rest) = some (r.symbol, rest) := by
  cases r with
  | eq | ne | le | ge => simp [relation?, relationSigns, Relation.symbol, expect?, List.findSome?]
  | lt | gt =>
    cases rest with
    | nil => rfl
    | cons c rest =>
      have hc : c ≠ '=' := by simpa [stops_cons] using h (by simp)
      simp [relation?, relationSigns, Relation.symbol, expect?, List.findSome?, hc]

theorem exists_symbol_of_relation? {cs rest : List Char} {sign : String}
    (h : relation? cs = some (sign, rest)) :
    ∃ r : Relation, sign = r.symbol ∧ cs = sign.toList ++ rest := by
  obtain ⟨word, hword, hread⟩ := List.exists_of_findSome?_eq_some h
  obtain ⟨tail, htail, heq⟩ := Option.map_eq_some_iff.mp hread
  cases heq
  refine (?_ : ∃ r : Relation, sign = r.symbol).imp
    fun r hr => ⟨hr, expect?_eq_some_iff.mp htail⟩
  simp only [relationSigns, List.mem_cons, List.not_mem_nil, or_false] at hword
  rcases hword with rfl | rfl | rfl | rfl | rfl | rfl
  · exact ⟨.eq, rfl⟩
  · exact ⟨.ne, rfl⟩
  · exact ⟨.ge, rfl⟩
  · exact ⟨.le, rfl⟩
  · exact ⟨.gt, rfl⟩
  · exact ⟨.lt, rfl⟩

theorem relation?_eq_some_iff {cs rest : List Char} {sign : String} :
    relation? cs = some (sign, rest)
      ↔ ∃ r : Relation, sign = r.symbol ∧ cs = sign.toList ++ rest
        ∧ (r = .lt ∨ r = .gt → Stops (· == '=') rest) := by
  constructor
  · intro h
    obtain ⟨r, rfl, rfl⟩ := exists_symbol_of_relation? h
    refine ⟨r, rfl, rfl, ?_⟩
    intro hr
    cases rest with
    | nil => exact stops_nil _
    | cons c rest =>
      rw [stops_cons, beq_eq_false_iff_ne]
      rintro rfl
      -- the longer sign stands here, and it is tried first
      rcases hr with rfl | rfl
      · have hlonger : relation? ('<' :: '=' :: rest) = some ("<=", rest) :=
          relation?_symbol_append (r := .le) (by simp)
        simpa [Relation.symbol] using h.symm.trans hlonger
      · have hlonger : relation? ('>' :: '=' :: rest) = some (">=", rest) :=
          relation?_symbol_append (r := .ge) (by simp)
        simpa [Relation.symbol] using h.symm.trans hlonger
  · rintro ⟨r, rfl, rfl, hstops⟩
    exact relation?_symbol_append hstops

end Scan

end RegisterLang
