import RegisterLang.Text.Numeral

/-!
# Which texts are numerals

* `Text.IsNumeral`: the text of an operand that is read as a constant.
* `Text.IsDecimal`: a text is a decimal form of an integer, with one sign or none.
* `Text.int32OfText?_eq_some_iff`: the reader of words accepts exactly the decimal forms of words.
* `Text.intText_inj`, `Text.zeroPadded_inj`: the written form of a number tells which number it is.
-/

namespace RegisterLang.Text

/-- One or more ASCII digits. -/
def IsDigits (digits : List Char) : Prop := digits ≠ [] ∧ ∀ c ∈ digits, c.isDigit = true

/-- Digits behind a `-`. -/
def IsNegative (text : String) : Prop := ∃ digits, IsDigits digits ∧ text.toList = '-' :: digits

/-- Digits, behind a `-` or not. -/
def IsNumeral (text : String) : Prop := IsDigits text.toList ∨ IsNegative text

/-- The text is a decimal form of the integer. Leading zeros and one sign of either kind are allowed. -/
def IsDecimal (text : String) (n : Int) : Prop :=
  ∃ digits, IsDigits digits
    ∧ ((text.toList = digits ∨ text.toList = '+' :: digits) ∧ n = Nat.ofDigitChars 10 digits 0
      ∨ text.toList = '-' :: digits ∧ n = -(Nat.ofDigitChars 10 digits 0 : Int))

/-- The text is a decimal form of an integer that fits in 32 bits. -/
def IsDecimal32 (text : String) : Prop := ∃ value : Int32, IsDecimal text value.toInt

/-- A sign is no digit. -/
theorem IsDigits.ne_cons {digits : List Char} (h : IsDigits digits) {sign : Char}
    (hsign : sign.isDigit = false) (tail : List Char) : digits ≠ sign :: tail := by
  rintro rfl
  rw [h.2 sign List.mem_cons_self] at hsign
  cases hsign

theorem isDigits_iff {digits : List Char} :
    (!digits.isEmpty && digits.all Char.isDigit) = true ↔ IsDigits digits := by
  simp [IsDigits]

theorem isNumeral_eq_true_iff {text : String} : isNumeral text = true ↔ IsNumeral text := by
  unfold isNumeral IsNumeral IsNegative
  split
  · rename_i digits htext
    rw [isDigits_iff, htext]
    constructor
    · intro h
      exact .inr ⟨digits, h, rfl⟩
    · rintro (h | ⟨_, h, heq⟩)
      · exact absurd rfl (h.ne_cons (by decide) digits)
      · cases heq
        exact h
  · rename_i hminus
    rw [isDigits_iff]
    constructor
    · exact .inl
    · rintro (h | ⟨digits, -, htext⟩)
      · exact h
      · exact absurd htext (hminus digits)

instance (text : String) : Decidable (IsNumeral text) :=
  decidable_of_iff (isNumeral text = true) isNumeral_eq_true_iff

/-! ## Values -/

theorem digitsValue?_eq_some_iff {digits : List Char} {n : Nat} :
    digitsValue? digits = some n ↔ IsDigits digits ∧ n = Nat.ofDigitChars 10 digits 0 := by
  unfold digitsValue?
  split
  · rename_i h
    have hdigits : IsDigits digits := ⟨h.1, List.all_eq_true.mp h.2⟩
    rw [Option.some.injEq]
    exact ⟨fun heq => ⟨hdigits, heq.symm⟩, fun heq => heq.2.symm⟩
  · rename_i h
    constructor
    · intro heq
      cases heq
    · rintro ⟨hdigits, -⟩
      exact absurd ⟨hdigits.1, List.all_eq_true.mpr hdigits.2⟩ h

theorem intOfText?_eq_some_iff {text : String} {n : Int} :
    intOfText? text = some n ↔ IsDecimal text n := by
  unfold intOfText? IsDecimal
  split
  · rename_i digits htext
    simp only [Option.map_eq_some_iff, Option.bind_eq_bind, Option.bind_eq_some_iff,
      Option.pure_def, Option.some.injEq, digitsValue?_eq_some_iff, htext]
    constructor
    · rintro ⟨_, ⟨_, ⟨hdigits, rfl⟩, rfl⟩, rfl⟩
      exact ⟨digits, hdigits, .inr ⟨rfl, rfl⟩⟩
    · rintro ⟨_, hdigits, ⟨heq | heq, rfl⟩ | ⟨heq, rfl⟩⟩
      · exact absurd heq.symm (hdigits.ne_cons (by decide) digits)
      · cases heq
      · cases heq
        exact ⟨_, ⟨_, ⟨hdigits, rfl⟩, rfl⟩, rfl⟩
  · rename_i digits htext
    simp only [Option.map_eq_some_iff, digitsValue?_eq_some_iff, htext]
    constructor
    · rintro ⟨_, ⟨hdigits, rfl⟩, rfl⟩
      exact ⟨digits, hdigits, .inl ⟨.inr rfl, rfl⟩⟩
    · rintro ⟨_, hdigits, ⟨heq | heq, rfl⟩ | ⟨heq, rfl⟩⟩
      · exact absurd heq.symm (hdigits.ne_cons (by decide) digits)
      · cases heq
        exact ⟨_, ⟨hdigits, rfl⟩, rfl⟩
      · cases heq
  · rename_i hminus hplus
    simp only [Option.map_eq_some_iff, digitsValue?_eq_some_iff]
    constructor
    · rintro ⟨_, ⟨hdigits, rfl⟩, rfl⟩
      exact ⟨text.toList, hdigits, .inl ⟨.inl rfl, rfl⟩⟩
    · rintro ⟨digits, hdigits, ⟨heq | heq, rfl⟩ | ⟨heq, rfl⟩⟩
      · rw [heq]
        exact ⟨_, ⟨hdigits, rfl⟩, rfl⟩
      · exact absurd heq (hplus digits)
      · exact absurd heq (hminus digits)

theorem int32OfInt?_eq_some_iff {n : Int} {value : Int32} :
    int32OfInt? n = some value ↔ n = value.toInt := by
  unfold int32OfInt?
  have hlow := value.le_toInt
  have hhigh := value.toInt_lt
  split
  · rename_i h
    rw [Option.some.injEq]
    constructor
    · rintro rfl
      exact (Int32.toInt_ofInt_of_le (by omega) (by omega)).symm
    · rintro rfl
      exact Int32.ofInt_toInt value
  · rename_i h
    constructor
    · intro heq
      cases heq
    · rintro rfl
      omega

/-- **A text is read as a word exactly if it is a decimal form of it.** -/
theorem int32OfText?_eq_some_iff {text : String} {value : Int32} :
    int32OfText? text = some value ↔ IsDecimal text value.toInt := by
  rw [int32OfText?, Option.bind_eq_some_iff]
  constructor
  · rintro ⟨n, hn, hvalue⟩
    obtain rfl := int32OfInt?_eq_some_iff.mp hvalue
    exact intOfText?_eq_some_iff.mp hn
  · intro h
    exact ⟨value.toInt, intOfText?_eq_some_iff.mpr h, int32OfInt?_eq_some_iff.mpr rfl⟩

theorem isSome_int32OfText?_iff {text : String} :
    (int32OfText? text).isSome = true ↔ IsDecimal32 text := by
  rw [Option.isSome_iff_exists]
  exact exists_congr fun value => int32OfText?_eq_some_iff

instance (text : String) : Decidable (IsDecimal32 text) :=
  decidable_of_iff ((int32OfText? text).isSome = true) isSome_int32OfText?_iff

/-! ## Written numbers -/

theorem isDigits_repr (n : Nat) : IsDigits n.repr.toList := by
  rw [Nat.toList_repr]
  exact ⟨Nat.toDigits_ne_nil, fun c hc => Nat.isDigit_of_mem_toDigits (by decide) (by decide) hc⟩

theorem ofDigitChars_repr (n : Nat) : Nat.ofDigitChars 10 n.repr.toList 0 = n := by
  rw [Nat.toList_repr, Nat.ofDigitChars_ten_toDigits]

theorem isDecimal_intText (n : Int) : IsDecimal (intText n) n := by
  cases n with
  | ofNat n =>
    refine ⟨_, isDigits_repr n, .inl ⟨.inl rfl, ?_⟩⟩
    rw [ofDigitChars_repr]
    rfl
  | negSucc n =>
    refine ⟨_, isDigits_repr (n + 1), .inr ⟨by simp [intText], ?_⟩⟩
    rw [ofDigitChars_repr]
    rfl

theorem isNumeral_intText (n : Int) : IsNumeral (intText n) := by
  cases n with
  | ofNat n => exact .inl (isDigits_repr n)
  | negSucc n => exact .inr ⟨_, isDigits_repr (n + 1), by simp [intText]⟩

/-- **The decimal text of an integer tells which integer it is.** -/
theorem intText_inj {m n : Int} (h : intText m = intText n) : m = n := by
  have hm := intOfText?_eq_some_iff.mpr (isDecimal_intText m)
  rw [h, intOfText?_eq_some_iff.mpr (isDecimal_intText n)] at hm
  exact (Option.some.inj hm).symm

theorem toList_zeroPadded (width n : Nat) :
    (zeroPadded width n).toList = List.replicate (width - n.repr.length) '0' ++ n.repr.toList := by
  simp [zeroPadded]

theorem isDigits_zeroPadded (width n : Nat) : IsDigits (zeroPadded width n).toList := by
  rw [toList_zeroPadded]
  refine ⟨by simp, List.forall_mem_append.mpr ⟨?_, (isDigits_repr n).2⟩⟩
  intro c hc
  rw [List.eq_of_mem_replicate hc]
  decide

/-- **Zeros on the left do not hide which number it is.** -/
theorem zeroPadded_inj {width m n : Nat} (h : zeroPadded width m = zeroPadded width n) : m = n := by
  have hvalue (k : Nat) : Nat.ofDigitChars 10 (zeroPadded width k).toList 0 = k := by
    rw [toList_zeroPadded, Nat.ofDigitChars_append, Nat.ofDigitChars_replicate_zero, Nat.mul_zero,
      ofDigitChars_repr]
  rw [← hvalue m, h, hvalue n]

end RegisterLang.Text
