import ScopeScript.Proofs.Decimal.Nearest
import ScopeScript.Proofs.Decimal.Numerals

/-!
# Written numbers are read back

What a decimal is read as depends on its exact value alone, not on the zeros at its end
(`ofDecimal?_eq_ofValue?`), and positional notation keeps the value (`read?_positional`). The digits
that a number is written with have been checked to be read back, or are those of its exact value,
to which it is the nearest number. So every finite number without a sign is read back from its
written form (`read?_format`).
-/

namespace ScopeScript
namespace Decimal

open Binary64 (nearest)

/-- The number nearest to an exact value; `none` if it is too large. -/
def ofValue? (negative : Bool) (x : ℚ) : Option Float :=
  let finite? (magnitude : Float) : Option Float :=
    if isFinite magnitude then some (if negative then -magnitude else magnitude) else none
  let magnitude := Int.log 10 x + 1
  if x = 0 ∨ magnitude < -330 then finite? 0.0
  else if 310 < magnitude then none
  else finite? (.ofModel (.pack (nearest x)))

/-! ## The value of a decimal -/

/-- A number of digits bounds the value from both sides. -/
theorem bounds_of_digitCount {value : ℕ} (positive : 0 < value) :
    10 ^ (digitCount value - 1) ≤ value ∧ value < 10 ^ digitCount value ∧ 0 < digitCount value := by
  have someDigits : 0 < digitCount value := Nat.length_toDigits_pos
  refine ⟨?_, (Nat.length_toDigits_le_iff (by decide) someDigits).1 (Nat.le_refl _), someDigits⟩
  rcases Nat.eq_zero_or_pos (digitCount value - 1) with single | several
  · rw [single]
    exact positive
  · by_contra small
    have fewer := (Nat.length_toDigits_le_iff (by decide) several).2 (not_le.1 small)
    change digitCount value ≤ digitCount value - 1 at fewer
    omega

/-- The number of digits in front of the point of a decimal is the same for all decimals of a
value. -/
theorem digitCount_add {value : ℕ} (positive : 0 < value) (exponent : ℤ) :
    digitCount value + exponent = Int.log 10 ((value : ℚ) * 10 ^ exponent) + 1 := by
  obtain ⟨lower, upper, someDigits⟩ := bounds_of_digitCount positive
  obtain ⟨count, isCount⟩ : ∃ count, digitCount value = count + 1 :=
    ⟨digitCount value - 1, by omega⟩
  rw [isCount, Nat.add_sub_cancel] at lower
  rw [isCount] at upper ⊢
  have ten : (10 : ℚ) ≠ 0 := by norm_num
  have place : Int.log 10 ((value : ℚ) * 10 ^ exponent) = count + exponent := by
    refine Binary64.log_of_bounds (by decide) ?_ ?_ <;> rw [Nat.cast_ofNat]
    · rw [zpow_add₀ ten, zpow_natCast]
      exact mul_le_mul_of_nonneg_right (by exact_mod_cast lower) (by positivity)
    · rw [add_right_comm, zpow_add₀ ten, ← Nat.cast_add_one, zpow_natCast]
      exact mul_lt_mul_of_pos_right (by exact_mod_cast upper) (by positivity)
  rw [place]
  push_cast
  ring

/-- A decimal is read by its value. -/
theorem ofDecimal?_eq_ofValue? (negative : Bool) (value : ℕ) (exponent : ℤ) :
    ofDecimal? negative value exponent = ofValue? negative (value * 10 ^ exponent) := by
  rw [ofDecimal?_eq, ofValue?]
  rcases Nat.eq_zero_or_pos value with rfl | positive
  · simp
  · have notZero : (value : ℚ) * 10 ^ exponent ≠ 0 := by positivity
    have someDigits := (bounds_of_digitCount positive).2.2
    have few : digitCount value ≤ value.log2 + 1 := by
      refine (Nat.length_toDigits_le_iff (by decide) (Nat.succ_pos _)).2 ?_
      exact Nat.lt_log2_self.trans_le (Nat.pow_le_pow_left (by decide) _)
    simp only [positive.ne', notZero, false_or, digitCount_add positive exponent]
    split
    · rfl
    · split
      · rfl
      · next notSmall notLarge =>
        rw [← digitCount_add positive exponent] at notSmall notLarge
        rw [Binary64.float_ofScientific_eq_nearest positive (by omega) (by omega)]

section

variable {x : ℚ} {count places : ℕ}

/-- A small power of two bounds the decimal logarithm from below. -/
theorem le_log_ten (scale : 2 ^ count ≤ 10 ^ places) (lower : 2 ^ (-count : ℤ) ≤ x) :
    (-places : ℤ) ≤ Int.log 10 x := by
  have scale : (2 : ℚ) ^ count ≤ 10 ^ places := by exact_mod_cast scale
  refine (Int.zpow_le_iff_le_log (by decide) (lt_of_lt_of_le (by positivity) lower)).1 ?_
  refine le_trans ?_ lower
  rw [Nat.cast_ofNat, zpow_neg, zpow_neg, zpow_natCast, zpow_natCast]
  exact inv_anti₀ (by positivity) scale

/-- And a large one from above. -/
theorem log_ten_lt (scale : 2 ^ count ≤ 10 ^ places) (positive : 0 < x)
    (upper : x < 2 ^ (count : ℤ)) : Int.log 10 x < places := by
  have scale : (2 : ℚ) ^ count ≤ 10 ^ places := by exact_mod_cast scale
  refine (Int.lt_zpow_iff_log_lt (by decide) positive).1 ?_
  rw [Nat.cast_ofNat, zpow_natCast]
  rw [zpow_natCast] at upper
  exact upper.trans_le scale

end

/-- Ninety-three bits are less than twenty-eight digits, as often as needed. -/
theorem two_pow_le {rest others : ℕ} (le : 2 ^ rest ≤ 10 ^ others) :
    2 ^ (93 * 11 + rest) ≤ 10 ^ (28 * 11 + others) := by
  rw [pow_add, pow_add, pow_mul, pow_mul]
  exact Nat.mul_le_mul (Nat.pow_le_pow_left (by norm_num) 11) le

/-- The magnitude of a number is neither too small nor too large to be read. -/
theorem log_ten_value {mantissa : ℕ} {exponent : ℤ} (positive : 0 < mantissa)
    (small : mantissa < 2 ^ 53) (least : Binary64.leastExponent ≤ exponent)
    (most : exponent ≤ 971) :
    -331 ≤ Int.log 10 ((mantissa : ℚ) * 2 ^ exponent) ∧
      Int.log 10 ((mantissa : ℚ) * 2 ^ exponent) < 310 := by
  have scale : (0 : ℚ) < 2 ^ exponent := by positivity
  constructor
  · have one : (1 : ℚ) ≤ mantissa := by exact_mod_cast positive
    have above := le_log_ten (two_pow_le (by norm_num : 2 ^ 51 ≤ 10 ^ 16))
      ((zpow_le_zpow_right₀ one_le_two least).trans (le_mul_of_one_le_left scale.le one))
    omega
  · have small : (mantissa : ℚ) < 2 ^ ((53 : ℕ) : ℤ) := by exact_mod_cast small
    have upper := mul_lt_mul_of_pos_right small scale
    rw [← zpow_add₀ two_ne_zero] at upper
    have below := log_ten_lt (two_pow_le (by norm_num : 2 ^ 1 ≤ 10 ^ 1)) (by positivity)
      (upper.trans_le (zpow_le_zpow_right₀ one_le_two (by omega)))
    omega

/-- A number is read from its exact value. -/
theorem ofValue?_value {number : Float} {mantissa : ℕ} {exponent : ℤ}
    (taken : Binary64.ofFloat number = .finite false mantissa exponent) (positive : 0 < mantissa) :
    ofValue? false (mantissa * 2 ^ exponent) = some number := by
  obtain ⟨small, most⟩ := Binary64.bounds_of_ofFloat taken
  obtain ⟨-, least, -⟩ := Binary64.toNat_toBits taken
  obtain ⟨above, below⟩ := log_ten_value positive small least most
  have notZero : (mantissa : ℚ) * 2 ^ exponent ≠ 0 := by positivity
  have finite : isFinite number = true := by simp [isFinite, taken]
  rw [ofValue?, Binary64.nearest_value taken positive]
  simp only [notZero, false_or, finite, if_true, Bool.false_eq_true, if_false]
  rw [if_neg (by omega), if_neg (by omega)]

/-! ## Digits -/

/-- A decimal digit has its value. -/
theorem digit?_of_isDigit {c : Char} (digit : c.isDigit = true) :
    digit? .ten c = some (c.toNat - 48) := by
  obtain ⟨lower, upper⟩ := Char.isDigit_iff_toNat.1 digit
  exact if_pos ⟨UInt32.le_iff_toNat_le.2 lower, UInt32.le_iff_toNat_le.2 upper⟩

/-- Digits are read one after the other. -/
theorem readDigits_append {chars : List Char} (areDigits : ∀ c ∈ chars, c.isDigit = true)
    (rest : List Char) : ∀ digits : Digits,
      readDigits .ten digits (chars ++ rest) =
        readDigits .ten
          { value := Nat.ofDigitChars 10 chars digits.value
            any := digits.any || !chars.isEmpty
            places := digits.places.map (· + chars.length) }
          rest := by
  induction chars with
  | nil => rintro ⟨value, any, places⟩; simp
  | cons c chars inductionHypothesis =>
      rintro ⟨value, any, places⟩
      rw [List.forall_mem_cons] at areDigits
      obtain ⟨isDigit, areDigits⟩ := areDigits
      have notUnderscore : c ≠ '_' := by rintro rfl; exact absurd isDigit (by decide)
      have notPoint : c ≠ '.' := by rintro rfl; exact absurd isDigit (by decide)
      rw [List.cons_append, readDigits, if_neg notUnderscore, if_neg (by simp [notPoint]),
        digit?_of_isDigit isDigit]
      simp only
      rw [inductionHypothesis areDigits, Nat.ofDigitChars_cons]
      congr 2
      · rw [Nat.mul_comm]
        rfl
      · simp
      · cases places <;> simp; omega

/-- Digits alone are read as an integer. -/
theorem readUnsigned?_whole {whole : List Char} (someDigits : whole ≠ [])
    (areDigits : ∀ c ∈ whole, c.isDigit = true) :
    readUnsigned? false .ten whole = ofDecimal? false (Nat.ofDigitChars 10 whole 0) 0 := by
  have read := readDigits_append areDigits [] {}
  rw [List.append_nil] at read
  simp [readUnsigned?, read, readDigits, someDigits]

/-- Digits behind the point lower the exponent. -/
theorem readUnsigned?_places {whole places : List Char} (someDigits : whole ≠ [])
    (areDigits : ∀ c ∈ whole, c.isDigit = true) (areOthers : ∀ c ∈ places, c.isDigit = true) :
    readUnsigned? false .ten (whole ++ '.' :: places) =
      ofDecimal? false (Nat.ofDigitChars 10 (whole ++ places) 0) (-places.length) := by
  have read := readDigits_append areDigits ('.' :: places) {}
  have readPlaces := readDigits_append areOthers []
    { value := Nat.ofDigitChars 10 whole 0, any := !whole.isEmpty, places := some 0 }
  rw [List.append_nil] at readPlaces
  simp only [Bool.false_or, Option.map_none] at read
  simp [readUnsigned?, read, readDigits, someDigits, readPlaces, Nat.ofDigitChars_append]

/-! ## Written forms -/

/-- The exact value of a decimal. -/
def Scaled.value (decimal : Scaled) : ℚ :=
  decimal.digits * 10 ^ decimal.exponent

/-- Zeros at the end may be dropped. -/
theorem Scaled.value_reduced (decimal : Scaled) : decimal.reduced.value = decimal.value := by
  induction decimal using Scaled.reduced.induct with
  | case1 decimal divisible inductionHypothesis =>
      rw [reduced, dif_pos divisible, inductionHypothesis, value, value]
      have ten : decimal.digits = decimal.digits / 10 * 10 := by omega
      have scaled : (decimal.digits : ℚ) = (decimal.digits / 10 : ℕ) * 10 := by exact_mod_cast ten
      rw [scaled, zpow_add_one₀ (by norm_num)]
      ring
  | case2 decimal whole => rw [reduced, dif_neg whole]

/-- The positional form of a decimal is read as its value. -/
theorem readUnsigned?_positional (decimal : Scaled) :
    readUnsigned? false .ten decimal.positional.toList = ofValue? false decimal.value := by
  have digits := isDigit_toDigits decimal.digits
  rw [Scaled.value]
  unfold Scaled.positional
  simp only []
  split
  · next whole =>
    obtain ⟨count, isCount⟩ : ∃ count : ℕ, decimal.exponent = count :=
      ⟨decimal.exponent.toNat, by omega⟩
    rw [String.toList_ofList, readUnsigned?_whole
      (List.append_ne_nil_of_left_ne_nil Nat.toDigits_ne_nil _)
      (List.forall_mem_append.2 ⟨digits, isDigit_zeros _⟩), ofDecimal?_eq_ofValue?,
      Nat.ofDigitChars_append, Nat.ofDigitChars_ten_toDigits, Nat.ofDigitChars_replicate_zero,
      isCount, Int.toNat_natCast, zpow_zero, mul_one, zpow_natCast]
    push_cast
    rw [mul_comm]
  · next fraction =>
    obtain ⟨places, isPlaces⟩ : ∃ places : ℕ, decimal.exponent = -places :=
      ⟨(-decimal.exponent).toNat, by omega⟩
    rw [isPlaces, neg_neg, Int.toNat_natCast, String.toList_ofList]
    generalize shape : List.replicate (places + 1 - (Nat.toDigits 10 decimal.digits).length) '0' ++
      Nat.toDigits 10 decimal.digits = padded
    have long : places < padded.length := by
      rw [← shape, List.length_append, List.length_replicate]
      omega
    have areDigits : ∀ c ∈ padded, c.isDigit = true := by
      rw [← shape]
      exact List.forall_mem_append.2 ⟨isDigit_zeros _, digits⟩
    have padding : Nat.ofDigitChars 10 padded 0 = decimal.digits := by
      rw [← shape, Nat.ofDigitChars_append, Nat.ofDigitChars_replicate_zero, Nat.mul_zero,
        Nat.ofDigitChars_ten_toDigits]
    have someDigits : padded.take (padded.length - places) ≠ [] := by
      rw [← List.length_pos_iff, List.length_take]
      omega
    rw [readUnsigned?_places someDigits (fun c member => areDigits c (List.mem_of_mem_take member))
      (fun c member => areDigits c (List.mem_of_mem_drop member)), List.take_append_drop, padding,
      ofDecimal?_eq_ofValue?, List.length_drop, Nat.sub_sub_self long.le]

/-- Positional notation is read as the value of the decimal. -/
theorem read?_positional (decimal : Scaled) :
    read? decimal.positional = ofValue? false decimal.value := by
  have positional := positional_digits decimal
  have numeral : ∀ c ∈ decimal.positional.toList, isNumeralChar c = true := by
    obtain ⟨whole, -, wholeDigits, shape | ⟨places, -, placesDigits, shape⟩⟩ := positional
    · exact fun c member => by simp [isNumeralChar, wholeDigits c (shape ▸ member)]
    · intro c member
      rw [shape, List.mem_append, List.mem_cons] at member
      rcases member with member | rfl | member
      · simp [isNumeralChar, wholeDigits c member]
      · rfl
      · simp [isNumeralChar, placesDigits c member]
  have someChars : decimal.positional.toList ≠ [] := by
    obtain ⟨whole, someDigits, -, shape | ⟨places, -, -, shape⟩⟩ := positional
    · rwa [shape]
    · rw [shape]
      exact List.append_ne_nil_of_left_ne_nil someDigits _
  rw [← readUnsigned?_positional, ← read?_eq_readUnsigned? someChars numeral, String.ofList_toList]

/-! ## Numbers -/

/-- The decimal that writes a number out has its value. -/
theorem value_exactly (mantissa : ℕ) (exponent : ℤ) :
    (exactly mantissa exponent).value = mantissa * 2 ^ exponent := by
  unfold exactly
  split
  · next notNegative =>
    obtain ⟨count, rfl⟩ : ∃ count : ℕ, exponent = count := ⟨exponent.toNat, by omega⟩
    simp [Scaled.value]
  · next negative =>
    obtain ⟨count, rfl⟩ : ∃ count : ℕ, exponent = -count := ⟨(-exponent).toNat, by omega⟩
    have halves : (10 : ℚ) = 5 * 2 := by norm_num
    simp only [Scaled.value, neg_neg, Int.toNat_natCast, Nat.pow_eq, zpow_neg, zpow_natCast]
    rw [halves, mul_pow]
    push_cast
    field_simp

/-- The shortest decimal that has been found reads back as the number. -/
theorem ofValue?_of_shortest? {number : Float} {mantissa : ℕ} {exponent : ℤ} {decimal : Scaled}
    (found : shortest? number mantissa exponent = some decimal) :
    ofValue? false decimal.value = some number := by
  obtain ⟨count, -, chosen⟩ := List.exists_of_findSome?_eq_some found
  have readsBack := List.find?_some chosen
  unfold Scaled.readsBackAs at readsBack
  rw [ofDecimal?_eq_ofValue?] at readsBack
  split at readsBack
  · next result isResult =>
    have same : result = number := Binary64.eq_of_toBits (by simpa using readsBack)
    rw [Scaled.value, isResult, same]
  · cases readsBack

/-- A finite number without a sign is read back from its written form. -/
theorem read?_format {number : Float} {mantissa : ℕ} {exponent : ℤ}
    (taken : Binary64.ofFloat number = .finite false mantissa exponent) :
    read? (format number) = some number := by
  unfold format
  simp only [taken, Bool.false_eq_true, if_false]
  split
  · next zero =>
    have isZero : (0.0 : Float) = number := by
      obtain ⟨bits, least, full⟩ := Binary64.toNat_toBits taken
      refine Binary64.eq_of_toBits (UInt64.toNat_inj.1 ?_)
      change 0 = _
      omega
    have finite : isFinite number = true := by simp [isFinite, taken]
    have written : "0" = (Scaled.mk 0 0).positional := rfl
    rw [written, read?_positional, ofValue?, if_pos (.inl (by simp [Scaled.value])), isZero]
    exact if_pos finite
  · next positive =>
    rw [read?_positional, Scaled.value_reduced]
    cases found : shortest? number mantissa exponent with
    | some decimal => exact ofValue?_of_shortest? found
    | none =>
        rw [Option.getD_none, value_exactly]
        exact ofValue?_value taken (Nat.pos_of_ne_zero positive)

end Decimal
end ScopeScript
