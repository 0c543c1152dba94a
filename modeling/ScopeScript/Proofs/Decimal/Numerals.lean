import ScopeScript.Proofs.Decimal.Sign

/-!
# Numerals without sign and exponent

Digits with at most a point among them are read as a number that is finite and has no sign
(`ofFloat_of_read?`), and such a number is written as digits, with a point and more digits behind
them if it is not whole (`format_digits`).
-/

namespace ScopeScript
namespace Decimal

/-- A decimal is converted unless it overflows, and its sign is put in front afterwards. -/
theorem ofDecimal?_eq (negative : Bool) (value : Nat) (exponent : Int) :
    ofDecimal? negative value exponent =
      let finite? (magnitude : Float) : Option Float :=
        if isFinite magnitude then some (if negative then -magnitude else magnitude) else none
      let magnitude := digitCount value + exponent
      if value = 0 ∨ magnitude < -330 then finite? 0.0
      else if 310 < magnitude then none
      else finite? (Float.ofScientific value (exponent < 0) exponent.natAbs) :=
  rfl

/-- The sign of a number is its highest bit. -/
theorem negative_of_ofFloat {number : Float} {negative : Bool} {mantissa : Nat} {exponent : Int}
    (taken : Binary64.ofFloat number = .finite negative mantissa exponent) :
    negative = decide (Binary64.signBit ≤ number.toBits.toNat) := by
  unfold Binary64.ofFloat at taken
  simp only [] at taken
  split at taken
  · split at taken <;> cases taken
  · split at taken
    · cases taken
      rfl
    · cases taken
      rfl

/-- A finite number without the sign bit is finite and not negative. -/
theorem ofFloat_of_isFinite {number : Float} (finite : isFinite number = true)
    (small : number.toBits.toNat < 2 ^ 63) :
    ∃ mantissa exponent, Binary64.ofFloat number = .finite false mantissa exponent := by
  cases taken : Binary64.ofFloat number with
  | notANumber => simp [isFinite, taken] at finite
  | infinite negative => simp [isFinite, taken] at finite
  | finite negative mantissa exponent =>
      have unsigned : negative = false := by
        rw [negative_of_ofFloat taken]
        exact decide_eq_false (Nat.not_le.2 small)
      exact ⟨mantissa, exponent, by rw [unsigned]⟩

/-- A number made of a decimal without a sign is finite and has none either. -/
theorem ofFloat_of_ofDecimal? {value : Nat} {exponent : Int} {number : Float}
    (found : ofDecimal? false value exponent = some number) :
    ∃ mantissa exponent, Binary64.ofFloat number = .finite false mantissa exponent := by
  have finite {magnitude : Float} (small : magnitude.toBits.toNat < 2 ^ 63)
      (found : (if isFinite magnitude then some magnitude else none) = some number) :
      ∃ mantissa exponent, Binary64.ofFloat number = .finite false mantissa exponent := by
    split at found
    · rename_i isFinite
      cases found
      exact ofFloat_of_isFinite isFinite small
    · cases found
  rw [ofDecimal?_eq] at found
  simp only [Bool.false_eq_true, if_false] at found
  split at found
  · exact finite (by decide) found
  · split at found
    · cases found
    · exact finite (ofScientific_lt _ _ _) found

/-- A digit or a point. -/
def isNumeralChar (c : Char) : Bool :=
  c.isDigit || c == '.'

/-- The characters of numerals stand together in the code. -/
theorem toNat_of_isNumeralChar {c : Char} (numeral : isNumeralChar c = true) :
    46 ≤ c.toNat ∧ c.toNat ≤ 57 := by
  rcases Bool.or_eq_true_iff.1 numeral with digit | point
  · have bounds := Char.isDigit_iff_toNat.1 digit
    exact ⟨Nat.le_trans (by decide) bounds.1, bounds.2⟩
  · rw [beq_iff_eq.1 point]
    decide

theorem lower_of_isNumeralChar {c : Char} (numeral : isNumeralChar c = true) : lower c = c := by
  have small := (toNat_of_isNumeralChar numeral).2
  refine dif_neg fun upper => ?_
  have large : 65 ≤ c.toNat := UInt32.le_iff_toNat_le.1 upper.1
  omega

/-- Digits and points are not the given character. -/
theorem isNumeralChar_ne {c : Char} (numeral : isNumeralChar c = true) (other : Char)
    (outside : isNumeralChar other = false) : c ≠ other := by
  rintro rfl
  rw [outside] at numeral
  cases numeral

/-- What is read of an unsigned decimal is the conversion of some decimal. -/
theorem exists_ofDecimal?_of_readUnsigned? {chars : List Char} {number : Float}
    (found : readUnsigned? false .ten chars = some number) :
    ∃ value exponent, ofDecimal? false value exponent = some number := by
  unfold readUnsigned? at found
  simp only [Option.bind_eq_bind, if_true, Option.bind_some] at found
  obtain ⟨_, _, found⟩ := Option.bind_eq_some_iff.1 found
  -- Whatever the exponent is, a decimal is made of it and the digits.
  split at found
  · split at found
    · obtain ⟨exponent, _, found⟩ := Option.bind_eq_some_iff.1 found
      obtain ⟨_, _, found⟩ := Option.bind_eq_some_iff.1 found
      exact ⟨_, _, found⟩
    · obtain ⟨_, _, found⟩ := Option.bind_eq_some_iff.1 found
      exact ⟨_, _, found⟩
  · obtain ⟨_, _, found⟩ := Option.bind_eq_some_iff.1 found
    exact ⟨_, _, found⟩

/-- A numeral has no sign and is no word, so only its digits are read. -/
theorem read?_eq_readUnsigned? {chars : List Char} (someChars : chars ≠ [])
    (numeral : ∀ c ∈ chars, isNumeralChar c = true) :
    read? (String.ofList chars) = readUnsigned? false .ten chars := by
  have noUnderscore : '_' ∉ chars := fun member =>
    isNumeralChar_ne (numeral '_' member) '_' (by decide) rfl
  obtain ⟨first, rest, rfl⟩ := List.exists_cons_of_ne_nil someChars
  have firstChar := numeral first List.mem_cons_self
  have noSign : splitSign (first :: rest) = (false, first :: rest) := by
    have notPlus := isNumeralChar_ne firstChar '+' (by decide)
    have notMinus := isNumeralChar_ne firstChar '-' (by decide)
    unfold splitSign
    split <;> simp_all
  have noWord : readWord? (first :: rest) = none := by
    have notI := isNumeralChar_ne firstChar 'i' (by decide)
    have notN := isNumeralChar_ne firstChar 'n' (by decide)
    simp [readWord?, noSign, lower_of_isNumeralChar firstChar, notI, notN]
  unfold read?
  simp only [String.toList_ofList, noWord, noSign, noUnderscore, false_and, if_false]
  split
  · rename_i mark c tail same
    have markChar := numeral mark (by rw [same]; simp)
    have notHexadecimal : lower mark ≠ 'x' := by
      rw [lower_of_isNumeralChar markChar]
      exact isNumeralChar_ne markChar 'x' (by decide)
    rw [if_neg notHexadecimal]
  · rfl

/-- Digits and points are read as a finite number without a sign. -/
theorem ofFloat_of_read? {chars : List Char} (someChars : chars ≠ [])
    (numeral : ∀ c ∈ chars, isNumeralChar c = true) {number : Float}
    (found : read? (String.ofList chars) = some number) :
    ∃ mantissa exponent, Binary64.ofFloat number = .finite false mantissa exponent := by
  rw [read?_eq_readUnsigned? someChars numeral] at found
  obtain ⟨value, exponent, made⟩ := exists_ofDecimal?_of_readUnsigned? found
  exact ofFloat_of_ofDecimal? made

/-! ## Writing -/

/-- Digits, and maybe a point and more digits behind them. -/
def Positional (chars : List Char) : Prop :=
  ∃ whole, whole ≠ [] ∧ (∀ c ∈ whole, c.isDigit = true) ∧
    (chars = whole ∨
      ∃ places, places ≠ [] ∧ (∀ c ∈ places, c.isDigit = true) ∧ chars = whole ++ '.' :: places)

theorem isDigit_toDigits (value : Nat) : ∀ c ∈ Nat.toDigits 10 value, c.isDigit = true :=
  fun _ member => Nat.isDigit_of_mem_toDigits (by decide) (by decide) member

theorem isDigit_zeros (count : Nat) : ∀ c ∈ List.replicate count '0', c.isDigit = true :=
  fun _ member => List.eq_of_mem_replicate member ▸ by decide

/-- The positional form has digits on both sides of its point. -/
theorem positional_digits (decimal : Scaled) : Positional decimal.positional.toList := by
  have digits := isDigit_toDigits decimal.digits
  unfold Scaled.positional
  simp only []
  split
  · refine ⟨_, ?_, ?_, .inl String.toList_ofList⟩
    · exact List.append_ne_nil_of_left_ne_nil Nat.toDigits_ne_nil _
    · exact List.forall_mem_append.2 ⟨digits, isDigit_zeros _⟩
  · rename_i negative
    generalize count : (-decimal.exponent).toNat = places
    generalize shape : List.replicate (places + 1 - (Nat.toDigits 10 decimal.digits).length) '0' ++
      Nat.toDigits 10 decimal.digits = padded
    have somePlaces : 0 < places := by omega
    have enough : places < padded.length := by
      rw [← shape, List.length_append, List.length_replicate]
      omega
    have paddedDigits : ∀ c ∈ padded, c.isDigit = true := by
      rw [← shape]
      exact List.forall_mem_append.2 ⟨isDigit_zeros _, digits⟩
    refine ⟨padded.take (padded.length - places), ?_,
      fun c member => paddedDigits c (List.mem_of_mem_take member),
      .inr ⟨padded.drop (padded.length - places), ?_,
        fun c member => paddedDigits c (List.mem_of_mem_drop member), String.toList_ofList⟩⟩
    · rw [← List.length_pos_iff, List.length_take]
      omega
    · rw [← List.length_pos_iff, List.length_drop]
      omega

/-- A finite number without a sign is written as digits. -/
theorem format_digits {number : Float} {mantissa : Nat} {exponent : Int}
    (taken : Binary64.ofFloat number = .finite false mantissa exponent) :
    Positional (format number).toList := by
  unfold format
  simp only [taken, Bool.false_eq_true, if_false]
  split
  · exact ⟨['0'], by simp, List.forall_mem_singleton.2 rfl, .inl rfl⟩
  · exact positional_digits _

end Decimal
end ScopeScript
