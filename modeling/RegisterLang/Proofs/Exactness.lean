import RegisterLang.Machine.Arithmetic

/-!
# Exact arithmetic

The machine calculates with words, but an operator gives its result over the integers or none at all.

* `Arithmetic.fdiv_eq_tdiv_sub_one`, `Arithmetic.fdiv_eq_tdiv`: division toward negative infinity as a
  correction of division toward zero.
* `Arithmetic.ExactSteps`: no word on the way to a quotient or a remainder is cut off.
* `Arithmetic.floorDiv?_eq_narrow?`, `Arithmetic.floorMod?_eq_narrow?`: quotient and remainder are those
  over the integers.
* `Operator.apply?_eq_narrow?`: so is the result of every operator, and `Operator.edge_of_not_fits` says
  which results do not fit.
-/

namespace RegisterLang

namespace Arithmetic

/-! ## Numbers that fit -/

/-- The integer is the value of some register. -/
def Fits (n : Int) : Prop := -0x8000000000000000 ≤ n ∧ n < 0x8000000000000000

instance (n : Int) : Decidable (Fits n) := inferInstanceAs (Decidable (_ ∧ _))

theorem fits_toInt (a : Int64) : Fits a.toInt := ⟨a.le_toInt, a.toInt_lt⟩

theorem narrow?_eq_some_iff {n : Int} {a : Int64} : narrow? n = some a ↔ a.toInt = n := by
  constructor
  · intro h
    obtain ⟨hfits, ha⟩ := Option.ite_none_right_eq_some.mp h
    cases ha
    exact Int64.toInt_ofInt_of_le hfits.1 hfits.2
  · rintro rfl
    have hnarrow : narrow? a.toInt = some (Int64.ofInt a.toInt) := if_pos (fits_toInt a)
    rw [hnarrow, Int64.ofInt_toInt]

theorem narrow?_toInt (a : Int64) : narrow? a.toInt = some a := narrow?_eq_some_iff.mpr rfl

theorem narrow?_eq_none_iff {n : Int} : narrow? n = none ↔ ¬ Fits n := by
  constructor
  · intro h hfits
    have hnarrow : narrow? n = some (Int64.ofInt n) := if_pos hfits
    rw [hnarrow] at h
    cases h
  · intro h
    exact if_neg h

/-! ## Division toward zero and toward negative infinity -/

section Integers

variable {a b : Int}

theorem tmod_bounds (a : Int) (hb : b ≠ 0) :
    (0 ≤ a → 0 ≤ a.tmod b) ∧ (a ≤ 0 → a.tmod b ≤ 0) ∧ (a.tmod b).natAbs < b.natAbs := by
  refine ⟨Int.tmod_nonneg b, ?_, ?_⟩
  · intro ha
    have hneg := Int.tmod_nonneg b (Int.neg_nonneg_of_nonpos ha)
    rw [Int.neg_tmod] at hneg
    omega
  · rw [Int.natAbs_tmod]
    exact Nat.mod_lt _ (Int.natAbs_pos.mpr hb)

/-- A remainder that is not zero has the sign of the dividend. -/
theorem tmod_neg_iff (hb : b ≠ 0) (hr : a.tmod b ≠ 0) : a.tmod b < 0 ↔ a < 0 := by
  obtain ⟨hnonneg, hnonpos, -⟩ := tmod_bounds a hb
  omega

theorem sign_eq_of_ne_zero (hb : b ≠ 0) : b.sign = if b < 0 then -1 else 1 := by
  split
  · exact Int.sign_eq_neg_one_of_neg ‹_›
  · exact Int.sign_eq_one_of_pos (by omega)

/-- Where the signs differ and something is left over, the two quotients differ by one. -/
theorem fdiv_eq_tdiv_sub_one (hb : b ≠ 0) (hr : a.tmod b ≠ 0) (hsign : ¬ (a < 0 ↔ b < 0)) :
    a.fdiv b = a.tdiv b - 1 := by
  have hdvd : ¬ b ∣ a := fun h => hr (Int.dvd_iff_tmod_eq_zero.mp h)
  rw [Int.fdiv_eq_tdiv, if_neg hdvd, sign_eq_of_ne_zero hb]
  omega

theorem fdiv_eq_tdiv (hb : b ≠ 0) (h : a.tmod b ≠ 0 → (a < 0 ↔ b < 0)) : a.fdiv b = a.tdiv b := by
  rw [Int.fdiv_eq_tdiv, sign_eq_of_ne_zero hb]
  by_cases hdvd : b ∣ a
  · rw [if_pos hdvd, Int.sub_zero]
  · have hsign := h fun hr => hdvd (Int.dvd_iff_tmod_eq_zero.mpr hr)
    rw [if_neg hdvd]
    omega

theorem sub_mul_fdiv_eq_tmod_add (hb : b ≠ 0) (hr : a.tmod b ≠ 0)
    (hsign : ¬ (a.tmod b < 0 ↔ b < 0)) : a - b * a.fdiv b = a.tmod b + b := by
  rw [tmod_neg_iff hb hr] at hsign
  rw [fdiv_eq_tdiv_sub_one hb hr hsign, Int.tmod_def, Int.mul_sub]
  omega

theorem sub_mul_fdiv_eq_tmod (hb : b ≠ 0) (h : a.tmod b ≠ 0 → (a.tmod b < 0 ↔ b < 0)) :
    a - b * a.fdiv b = a.tmod b := by
  have hsign : a.tmod b ≠ 0 → (a < 0 ↔ b < 0) := fun hr => (tmod_neg_iff hb hr).symm.trans (h hr)
  rw [fdiv_eq_tdiv hb hsign, Int.tmod_def]

/-- What is left over is zero or has the sign of the divisor. -/
theorem sub_mul_fdiv_sign (hb : b ≠ 0) :
    a - b * a.fdiv b = 0 ∨ (a - b * a.fdiv b < 0 ↔ b < 0) := by
  obtain ⟨-, -, hlt⟩ := tmod_bounds a hb
  by_cases h : a.tmod b ≠ 0 → (a.tmod b < 0 ↔ b < 0)
  · rw [sub_mul_fdiv_eq_tmod hb h]
    exact Decidable.or_iff_not_imp_left.mpr h
  · obtain ⟨hr, hsign⟩ := Classical.not_imp.mp h
    rw [sub_mul_fdiv_eq_tmod_add hb hr hsign]
    omega

end Integers

/-! ## Division of register values -/

variable {a b : Int64}

/-- The operands of the one division whose quotient does not fit. -/
def Edge (a b : Int64) : Prop := a = Int64.minValue ∧ b = -1

theorem divisible_iff : Divisible a b ↔ b ≠ 0 ∧ ¬ Edge a b := not_or

theorem quotient?_eq_some_iff {q : Int64} : quotient? a b = some q ↔ Divisible a b ∧ a / b = q := by
  rw [quotient?, Option.ite_none_right_eq_some, Option.some.injEq]

theorem remainder?_eq_some_iff {r : Int64} : remainder? a b = some r ↔ Divisible a b ∧ a % b = r := by
  rw [remainder?, Option.ite_none_right_eq_some, Option.some.injEq]

theorem toInt_ne_zero (h : b ≠ 0) : b.toInt ≠ 0 := fun hb => h (Int64.toInt_inj.mp hb)

theorem toInt_div (h : ¬ Edge a b) : (a / b).toInt = a.toInt.tdiv b.toInt := by
  by_cases ha : a = Int64.minValue
  · exact Int64.toInt_div_of_ne_right a b fun hb => h ⟨ha, hb⟩
  · exact Int64.toInt_div_of_ne_left a b ha

/-- A quotient that is made smaller still fits: had it been the least value, nothing would be left over. -/
theorem fits_tdiv_sub_one (hb : b ≠ 0) (hedge : ¬ Edge a b) (hr : a.toInt.tmod b.toInt ≠ 0) :
    Fits (a.toInt.tdiv b.toInt - 1) := by
  obtain ⟨hlow, hhigh⟩ := fits_toInt (a / b)
  rw [toInt_div hedge] at hlow hhigh
  obtain ⟨halow, hahigh⟩ := fits_toInt a
  obtain ⟨hnonneg, hnonpos, hlt⟩ := tmod_bounds a.toInt (toInt_ne_zero hb)
  have hmul := Int.mul_tdiv_add_tmod a.toInt b.toInt
  refine ⟨?_, by omega⟩
  apply Int.not_lt.mp
  intro hless
  have hleast : a.toInt.tdiv b.toInt = -0x8000000000000000 := by omega
  rw [hleast] at hmul
  omega

/-- A remainder and a divisor of different signs have a sum that fits. -/
theorem fits_tmod_add (hb : b ≠ 0) (hsign : ¬ (a.toInt.tmod b.toInt < 0 ↔ b.toInt < 0)) :
    Fits (a.toInt.tmod b.toInt + b.toInt) := by
  obtain ⟨hlow, hhigh⟩ := fits_toInt b
  obtain ⟨-, -, hlt⟩ := tmod_bounds a.toInt (toInt_ne_zero hb)
  unfold Fits
  omega

theorem toInt_add_of_fits (h : Fits (a.toInt + b.toInt)) : (a + b).toInt = a.toInt + b.toInt := by
  rw [Int64.toInt_add]
  exact Int.bmod_eq_of_le h.1 h.2

/-- When a quotient or a remainder is corrected, said on integers. -/
theorem corrected_iff {r : Int64} :
    (r ≠ 0 ∧ decide (a < 0) ≠ decide (b < 0)) ↔ r.toInt ≠ 0 ∧ ¬ (a.toInt < 0 ↔ b.toInt < 0) := by
  simp only [ne_eq, decide_eq_decide, Int64.lt_iff_toInt_lt, ← Int64.toInt_inj, Int64.toInt_zero]

theorem not_corrected_iff {r : Int64} :
    ¬ (r ≠ 0 ∧ decide (a < 0) ≠ decide (b < 0)) ↔ (r.toInt ≠ 0 → (a.toInt < 0 ↔ b.toInt < 0)) := by
  rw [corrected_iff, Decidable.not_and_not_right]

/-- No word on the way to a quotient or a remainder toward negative infinity is cut off: the words can be
divided, the two words that the division gives are those over the integers, and where they are corrected
the corrected ones fit. -/
structure ExactSteps (a b : Int64) : Prop where
  quotient : ∃ q, quotient? a b = some q ∧ q.toInt = a.toInt.tdiv b.toInt
  remainder : ∃ r, remainder? a b = some r ∧ r.toInt = a.toInt.tmod b.toInt
  lowered : ∀ q r, quotient? a b = some q → remainder? a b = some r →
    r ≠ 0 ∧ decide (a < 0) ≠ decide (b < 0) → Fits (q.toInt - 1)
  raised : ∀ r, remainder? a b = some r →
    r ≠ 0 ∧ decide (r < 0) ≠ decide (b < 0) → Fits (r.toInt + b.toInt)

theorem exactSteps (hb : b ≠ 0) (hedge : ¬ Edge a b) : ExactSteps a b := by
  have hdivisible : Divisible a b := divisible_iff.mpr ⟨hb, hedge⟩
  refine ⟨⟨a / b, if_pos hdivisible, toInt_div hedge⟩,
    ⟨a % b, if_pos hdivisible, Int64.toInt_mod a b⟩, ?_, ?_⟩
  · intro q r hquotient hremainder hcorrected
    obtain ⟨-, rfl⟩ := quotient?_eq_some_iff.mp hquotient
    obtain ⟨-, rfl⟩ := remainder?_eq_some_iff.mp hremainder
    have hr := (corrected_iff.mp hcorrected).1
    rw [Int64.toInt_mod] at hr
    rw [toInt_div hedge]
    exact fits_tdiv_sub_one hb hedge hr
  · intro r hremainder hcorrected
    obtain ⟨-, rfl⟩ := remainder?_eq_some_iff.mp hremainder
    have hsign := (corrected_iff.mp hcorrected).2
    rw [Int64.toInt_mod] at hsign ⊢
    exact fits_tmod_add hb hsign

theorem not_fits_edge (h : Edge a b) : ¬ Fits (a.toInt.fdiv b.toInt) := by
  obtain ⟨rfl, rfl⟩ := h
  decide

/-- **The corrected quotient is the quotient toward negative infinity**, where that fits. -/
theorem floorDiv?_eq_narrow? (hb : b ≠ 0) : floorDiv? a b = narrow? (a.toInt.fdiv b.toInt) := by
  have hdivisor := toInt_ne_zero hb
  by_cases hedge : Edge a b
  · have hnone : quotient? a b = none := if_neg fun hdivisible => (divisible_iff.mp hdivisible).2 hedge
    rw [narrow?_eq_none_iff.mpr (not_fits_edge hedge), floorDiv?, hnone]
    rfl
  · have hsteps := exactSteps hb hedge
    obtain ⟨q, hquotient, hq⟩ := hsteps.quotient
    obtain ⟨r, hremainder, hr⟩ := hsteps.remainder
    rw [floorDiv?, hquotient, hremainder, Option.bind_eq_bind, Option.bind_some, Option.bind_some]
    split
    · rename_i hcorrected
      obtain ⟨hleft, hsign⟩ := corrected_iff.mp hcorrected
      rw [hr] at hleft
      rw [fdiv_eq_tdiv_sub_one hdivisor hleft hsign, hq]
    · rename_i hexact
      have hsign := not_corrected_iff.mp hexact
      rw [hr] at hsign
      rw [fdiv_eq_tdiv hdivisor hsign, ← hq, narrow?_toInt]

/-- **The corrected remainder is what the quotient toward negative infinity leaves over.** -/
theorem floorMod?_eq_narrow? (hb : b ≠ 0) :
    floorMod? a b = narrow? (a.toInt - b.toInt * a.toInt.fdiv b.toInt) := by
  have hdivisor := toInt_ne_zero hb
  unfold floorMod?
  rw [eq_comm]
  split
  · rename_i hminus
    subst hminus
    have hzero : a.toInt.tmod (-1) = 0 := by simp
    have hleft : a.toInt - (-1) * a.toInt.fdiv (-1) = 0 :=
      (sub_mul_fdiv_eq_tmod (by decide) fun hr => absurd hzero hr).trans hzero
    exact narrow?_eq_some_iff.mpr hleft.symm
  · rename_i hminus
    have hsteps : ExactSteps a b := exactSteps hb fun hedge => hminus hedge.2
    obtain ⟨r, hremainder, hr⟩ := hsteps.remainder
    rw [hremainder, Option.bind_eq_bind, Option.bind_some]
    split
    · rename_i hcorrected
      obtain ⟨hleft, hsign⟩ := corrected_iff.mp hcorrected
      rw [narrow?_eq_some_iff, toInt_add_of_fits (hsteps.raised r hremainder hcorrected)]
      rw [hr] at hleft hsign ⊢
      exact (sub_mul_fdiv_eq_tmod_add hdivisor hleft hsign).symm
    · rename_i hexact
      have hsign := not_corrected_iff.mp hexact
      rw [narrow?_eq_some_iff]
      rw [hr] at hsign ⊢
      exact (sub_mul_fdiv_eq_tmod hdivisor hsign).symm

theorem fits_fdiv_iff (hb : b ≠ 0) : Fits (a.toInt.fdiv b.toInt) ↔ ¬ Edge a b := by
  constructor
  · intro hfits hedge
    exact not_fits_edge hedge hfits
  · intro hedge
    by_cases h : a.toInt.tmod b.toInt ≠ 0 → (a.toInt < 0 ↔ b.toInt < 0)
    · rw [fdiv_eq_tdiv (toInt_ne_zero hb) h, ← toInt_div hedge]
      exact fits_toInt (a / b)
    · obtain ⟨hr, hsign⟩ := Classical.not_imp.mp h
      rw [fdiv_eq_tdiv_sub_one (toInt_ne_zero hb) hr hsign]
      exact fits_tdiv_sub_one hb hedge hr

theorem fits_sub_mul_fdiv (hb : b ≠ 0) : Fits (a.toInt - b.toInt * a.toInt.fdiv b.toInt) := by
  by_cases h : a.toInt.tmod b.toInt ≠ 0 → (a.toInt.tmod b.toInt < 0 ↔ b.toInt < 0)
  · rw [sub_mul_fdiv_eq_tmod (toInt_ne_zero hb) h, ← Int64.toInt_mod]
    exact fits_toInt (a % b)
  · obtain ⟨hr, hsign⟩ := Classical.not_imp.mp h
    rw [sub_mul_fdiv_eq_tmod_add (toInt_ne_zero hb) hr hsign]
    exact fits_tmod_add hb hsign

theorem floorDiv?_eq_none_iff : floorDiv? a b = none ↔ b = 0 ∨ Edge a b := by
  by_cases hb : b = 0
  · subst hb
    exact iff_of_true rfl (.inl rfl)
  · rw [floorDiv?_eq_narrow? hb, narrow?_eq_none_iff, fits_fdiv_iff hb, Classical.not_not]
    simp only [hb, false_or]

theorem floorMod?_eq_none_iff : floorMod? a b = none ↔ b = 0 := by
  by_cases hb : b = 0
  · subst hb
    exact iff_of_true rfl rfl
  · rw [floorMod?_eq_narrow? hb, narrow?_eq_none_iff]
    exact iff_of_false (fun h => h (fits_sub_mul_fdiv hb)) hb

theorem toInt_of_floorDiv? {q : Int64} (h : floorDiv? a b = some q) :
    q.toInt = a.toInt.fdiv b.toInt := by
  have hb : b ≠ 0 := by
    rintro rfl
    cases h
  rw [floorDiv?_eq_narrow? hb] at h
  exact narrow?_eq_some_iff.mp h

theorem toInt_of_floorMod? {r : Int64} (h : floorMod? a b = some r) :
    r.toInt = a.toInt - b.toInt * a.toInt.fdiv b.toInt ∧ (r = 0 ∨ (r < 0 ↔ b < 0)) := by
  have hb : b ≠ 0 := by
    rintro rfl
    cases h
  rw [floorMod?_eq_narrow? hb] at h
  have hr := narrow?_eq_some_iff.mp h
  have hsign := sub_mul_fdiv_sign (a := a.toInt) (toInt_ne_zero hb)
  rw [← hr] at hsign
  refine ⟨hr, ?_⟩
  rwa [← Int64.toInt_inj, Int64.lt_iff_toInt_lt, Int64.lt_iff_toInt_lt, Int64.toInt_zero]

end Arithmetic

namespace Operator

open Arithmetic

/-- The result of the operator over the integers. Division rounds toward negative infinity, and the
remainder is what its quotient leaves over. -/
def exact : Operator → Int → Int → Int
  | add, a, b => a + b
  | sub, a, b => a - b
  | mul, a, b => a * b
  | div, a, b => a.fdiv b
  | mod, a, b => a - b * a.fdiv b

/-- **An operator gives its result over the integers, where that fits.** -/
theorem apply?_eq_narrow? {op : Operator} {a b : Int64} (h : op.divides = true → b ≠ 0) :
    op.apply? a b = narrow? (op.exact a.toInt b.toInt) := by
  cases op with
  | add => rfl
  | sub => rfl
  | mul => rfl
  | div => exact floorDiv?_eq_narrow? (h rfl)
  | mod => exact floorMod?_eq_narrow? (h rfl)

/-- A remainder always fits, and a single quotient does not. -/
theorem edge_of_not_fits {op : Operator} {a b : Int64} (h : ¬ Fits (op.exact a.toInt b.toInt)) :
    op ≠ .mod ∧ (op = .div → Edge a b) := by
  by_cases hb : b = 0
  · subst hb
    refine ⟨?_, ?_⟩
    · rintro rfl
      exact absurd (fits_toInt a) (by simpa [exact] using h)
    · rintro rfl
      exact absurd (fits_toInt 0) (by simpa [exact] using h)
  · refine ⟨?_, ?_⟩
    · rintro rfl
      exact h (fits_sub_mul_fdiv hb)
    · rintro rfl
      exact Classical.byContradiction fun hedge => h ((fits_fdiv_iff hb).mpr hedge)

end Operator

end RegisterLang
