import ScopeScript.Proofs.Decimal.Rounding
import ScopeScript.Proofs.Parser.Offset
import ScopeScript.Value.Operation

/-!
# Sizes of texts

The size of a text that an operator makes is limited for repetition only. There the limit is
compared with the number as it is, not with its integer part, so a number just above the largest
number of copies that fit gives nothing. A sum of texts may have any size (`texts_of_operators`).
-/

namespace ScopeScript
namespace Binary64

/-! ## Integer parts -/

/-- A magnitude is an integer or a quotient of integers. -/
theorem magnitude_natCast (mantissa count : ℕ) :
    (mantissa : ℚ) * 2 ^ (count : ℤ) = (mantissa * 2 ^ count : ℕ) := by
  rw [zpow_natCast]
  push_cast
  rfl

theorem magnitude_neg_natCast (mantissa count : ℕ) :
    (mantissa : ℚ) * 2 ^ (-(count : ℤ)) = mantissa / (2 ^ count : ℕ) := by
  rw [zpow_neg, zpow_natCast, div_eq_mul_inv]
  push_cast
  rfl

/-- The integer part of a magnitude, in integer arithmetic. -/
theorem floor_magnitude (mantissa : ℕ) (exponent : ℤ) :
    ⌊(mantissa : ℚ) * 2 ^ exponent⌋₊ =
      if 0 ≤ exponent then mantissa * Nat.pow 2 exponent.toNat
      else mantissa / Nat.pow 2 (-exponent).toNat := by
  split
  · next notNegative =>
    obtain ⟨count, rfl⟩ : ∃ count : ℕ, exponent = count := ⟨exponent.toNat, by omega⟩
    rw [magnitude_natCast, Nat.floor_natCast]
    rfl
  · next negative =>
    obtain ⟨count, rfl⟩ : ∃ count : ℕ, exponent = -count := ⟨(-exponent).toNat, by omega⟩
    rw [magnitude_neg_natCast, Nat.floor_div_eq_div, neg_neg]
    rfl

/-- A finite number is truncated to the integer part of its magnitude, with its sign. -/
theorem truncate?_finite (negative : Bool) (mantissa : ℕ) (exponent : ℤ) :
    (finite negative mantissa exponent).truncate? =
      some (signed negative ⌊(mantissa : ℚ) * 2 ^ exponent⌋₊) := by
  rw [floor_magnitude]
  rfl

/-- A number is an integer if nothing is left of its magnitude behind the integer part. -/
theorem isInteger_finite (negative : Bool) (mantissa : ℕ) (exponent : ℤ) :
    (finite negative mantissa exponent).isInteger ↔
      (⌊(mantissa : ℚ) * 2 ^ exponent⌋₊ : ℚ) = mantissa * 2 ^ exponent := by
  have unfolded : (finite negative mantissa exponent).isInteger ↔
      0 ≤ exponent ∨ mantissa % Nat.pow 2 (-exponent).toNat = 0 := by
    simp [isInteger]
  rw [unfolded]
  by_cases notNegative : 0 ≤ exponent
  · obtain ⟨count, rfl⟩ : ∃ count : ℕ, exponent = count := ⟨exponent.toNat, by omega⟩
    rw [magnitude_natCast, Nat.floor_natCast]
    exact iff_of_true (.inl notNegative) rfl
  · obtain ⟨count, rfl⟩ : ∃ count : ℕ, exponent = -count := ⟨(-exponent).toNat, by omega⟩
    have unit : ((2 ^ count : ℕ) : ℚ) ≠ 0 := by exact_mod_cast (Nat.two_pow_pos count).ne'
    rw [or_iff_right notNegative, neg_neg, magnitude_neg_natCast, Nat.floor_div_eq_div,
      eq_div_iff unit]
    norm_cast
    exact Nat.dvd_iff_mod_eq_zero.symm.trans (Nat.dvd_iff_div_mul_eq _ _)

/-- How many copies a number asks for: as many as its integer part says, and none if that is
negative or the number is not a number. -/
def asked : Binary64 → ℕ∞
  | .notANumber => 0
  | .infinite negative => if negative then 0 else ⊤
  | .finite negative mantissa exponent =>
      (⌊(signed negative mantissa * 2 ^ exponent : ℚ)⌋₊ : ℕ)

end Binary64

namespace Value

open Binary64

/-! ## Copies -/

/-- Every copy adds the size of the text. -/
theorem size_repeatText (content : String) (count : ℕ) :
    Text.size (repeatText content count) = count * Text.size content := by
  induction count with
  | zero =>
      rw [zero_mul]
      rfl
  | succ count inductionHypothesis =>
      change Text.size (repeatText content count ++ content) = _
      rw [Text.size_append, inductionHypothesis, Nat.succ_mul]

/-- An integer is exceeded by the integer part of a number, or by what is behind it. -/
theorem lt_iff_floor {limit : ℕ} {value : ℚ} (atLeastOne : 1 ≤ value) :
    (limit : ℚ) < value ↔ limit < ⌊value⌋₊ ∨ ⌊value⌋₊ = limit ∧ (⌊value⌋₊ : ℚ) ≠ value := by
  have floorLe : (⌊value⌋₊ : ℚ) ≤ value := Nat.floor_le (zero_le_one.trans atLeastOne)
  constructor
  · intro exceeds
    rcases (Nat.le_floor exceeds.le).lt_or_eq with less | rfl
    · exact .inl less
    · exact .inr ⟨rfl, exceeds.ne⟩
  · rintro (less | ⟨rfl, different⟩)
    · exact (Nat.cast_lt.2 less).trans_le floorLe
    · exact floorLe.lt_of_ne different

/-- The number of copies is limited by comparing the value of a number with how many copies fit. -/
theorem copies_finite (size : ℕ) (negative : Bool) (mantissa : ℕ) (exponent : ℤ) {value : ℚ}
    (isValue : (signed negative mantissa : ℚ) * 2 ^ exponent = value) :
    copies size (.finite negative mantissa exponent) =
      if value < 1 then .noneAtAll
      else if (sizeLimit / size : ℕ) < value then .tooMany
      else .count ⌊value⌋₊ := by
  have magnitude : (0 : ℚ) ≤ mantissa * 2 ^ exponent := by positivity
  unfold copies
  simp only [truncate?_finite]
  cases negative with
  | true =>
      have belowOne : value < 1 := by
        rw [← isValue, signed, if_pos rfl]
        push_cast
        linarith
      have noCopy : signed true ⌊(mantissa : ℚ) * 2 ^ exponent⌋₊ < 1 := by
        rw [signed, if_pos rfl]
        omega
      rw [if_pos noCopy, if_pos belowOne]
  | false =>
      obtain rfl : (mantissa : ℚ) * 2 ^ exponent = value := isValue
      have whole (number : ℕ) : signed false number = number := rfl
      have wholeLtOne : ((⌊(mantissa : ℚ) * 2 ^ exponent⌋₊ : ℕ) : ℤ) < 1 ↔
          (mantissa : ℚ) * 2 ^ exponent < 1 := by
        rw [← Nat.floor_lt_one magnitude]
        exact Nat.cast_lt
      simp only [whole, wholeLtOne]
      split
      · rfl
      · next atLeastOne =>
        refine if_congr ?_ rfl rfl
        rw [lt_iff_floor (not_lt.1 atLeastOne), ne_eq, ← isInteger_finite false,
          Bool.not_eq_true', Bool.not_eq_true]
        norm_cast

/-- A number of copies is larger than the largest one that fits, but not by a whole copy. -/
def Fringe (size : ℕ) (number : Binary64) : Prop :=
  ∃ value, number.value? = some value ∧ 0 < sizeLimit / size ∧
    (sizeLimit / size : ℕ) < value ∧ value < (sizeLimit / size : ℕ) + 1

/-- On the fringe the copies that are asked for would fit, and yet count as too many. -/
theorem Fringe.copies {size : ℕ} {number : Binary64} (fringe : Fringe size number) :
    copies size number = .tooMany ∧ asked number = (sizeLimit / size : ℕ) := by
  obtain ⟨value, valueIs, positive, above, below⟩ := fringe
  cases number with
  | notANumber => cases valueIs
  | infinite negative => cases valueIs
  | finite negative mantissa exponent =>
      have isValue := Option.some.inj valueIs
      have atLeastOne : ((1 : ℕ) : ℚ) ≤ (sizeLimit / size : ℕ) := Nat.cast_le.2 positive
      rw [Nat.cast_one] at atLeastOne
      refine ⟨?_, ?_⟩
      · rw [copies_finite size negative mantissa exponent isValue,
          if_neg (not_lt.2 (atLeastOne.trans above.le)), if_pos above]
      · rw [asked, isValue, (Nat.floor_eq_iff (by linarith)).2 ⟨above.le, below⟩]

/-- Away from the fringe the copies are those that are asked for. -/
theorem copies_eq {size : ℕ} {number : Binary64} (regular : ¬ Fringe size number) :
    copies size number =
      if asked number = 0 then .noneAtAll
      else if ((sizeLimit / size : ℕ) : ℕ∞) < asked number then .tooMany
      else .count (asked number).toNat := by
  cases number with
  | notANumber => rfl
  | infinite negative => cases negative <;> rfl
  | finite negative mantissa exponent =>
      obtain ⟨value, isValue⟩ : ∃ value, (signed negative mantissa : ℚ) * 2 ^ exponent = value :=
        ⟨_, rfl⟩
      rw [copies_finite size negative mantissa exponent isValue, asked, isValue]
      simp only [Nat.cast_eq_zero, Nat.cast_lt, ENat.toNat_natCast, Nat.floor_eq_zero]
      split
      · rfl
      · next atLeastOne =>
        refine if_congr ⟨fun above => ?_, fun less => ?_⟩ rfl rfl
        · by_contra notMore
          have same : ⌊value⌋₊ = sizeLimit / size :=
            le_antisymm (not_lt.1 notMore) (Nat.le_floor above.le)
          refine regular ⟨value, congrArg some isValue, ?_, above, ?_⟩
          · rw [← same]
            exact Nat.floor_pos.2 (not_lt.1 atLeastOne)
          · rw [← same]
            exact Nat.lt_floor_add_one value
        · exact (lt_iff_floor (not_lt.1 atLeastOne)).2 (.inl less)

/-! ## Repeated texts -/

/-- The copies of a text that are asked for, and the empty value if these are too large. -/
def repetition (content : String) (count : ℕ∞) : Value :=
  if count * Text.size content ≤ sizeLimit then text (repeatText content count.toNat) else none

/-- Copies of nothing are nothing. -/
theorem repetition_empty (count : ℕ∞) : repetition "" count = text "" := by
  have empty : repeatText "" count.toNat = "" :=
    String.utf8ByteSize_eq_zero_iff.1 (size_repeatText "" count.toNat)
  rw [repetition, show Text.size "" = 0 from rfl, empty]
  simp

theorem size_pos {content : String} (notEmpty : content ≠ "") : 0 < Text.size content :=
  Nat.pos_of_ne_zero fun zero => notEmpty (String.utf8ByteSize_eq_zero_iff.1 zero)

/-- On the fringe nothing is made. -/
theorem repeated_of_fringe {content : String} {count : Float}
    (fringe : Fringe (Text.size content) (ofFloat count)) : repeated content count = none := by
  have notEmpty : content ≠ "" := by
    rintro rfl
    obtain ⟨_, _, positive, _⟩ := fringe
    exact absurd positive (by decide)
  rw [repeated, if_neg notEmpty, fringe.copies.1]

/-- Everywhere else the copies are made that are asked for. -/
theorem repeated_of_not_fringe {content : String} {count : Float}
    (regular : ¬ Fringe (Text.size content) (ofFloat count)) :
    repeated content count = repetition content (asked (ofFloat count)) := by
  unfold repeated
  split
  · next empty => rw [empty, repetition_empty]
  · next notEmpty =>
    have positive := size_pos notEmpty
    rw [copies_eq regular]
    cases asked (ofFloat count) with
    | top => simp [repetition, positive.ne']
    | coe whole =>
      have tooMany : ((sizeLimit / Text.size content : ℕ) : ℕ∞) < whole ↔
          ¬ (whole : ℕ∞) * Text.size content ≤ sizeLimit := by
        rw [not_le]
        norm_cast
        exact Nat.div_lt_iff_lt_mul positive
      unfold repetition
      rw [ENat.toNat_natCast]
      rcases Nat.eq_zero_or_pos whole with rfl | some
      · rw [if_pos Nat.cast_zero, if_pos (by simp)]
        rfl
      · rw [if_neg (Nat.cast_ne_zero.2 some.ne')]
        by_cases fits : (whole : ℕ∞) * Text.size content ≤ sizeLimit
        · rw [if_neg (mt tooMany.1 (not_not.2 fits)), if_pos fits]
        · rw [if_pos (tooMany.2 fits), if_neg fits]

/-! ## The operators -/

/-- On the fringe, the copies that are asked for fit. -/
theorem Fringe.fits {content : String} {number : Binary64}
    (fringe : Fringe (Text.size content) number) :
    repetition content (asked number) =
      text (repeatText content (sizeLimit / Text.size content)) := by
  rw [repetition, fringe.copies.2, ENat.toNat_natCast, if_pos]
  exact_mod_cast Nat.div_mul_le_self sizeLimit (Text.size content)

/-- A repetition never exceeds the limit. -/
theorem size_le_of_repetition {content result : String} {count : ℕ∞}
    (isText : repetition content count = text result) : Text.size result ≤ sizeLimit := by
  unfold repetition at isText
  split at isText
  · next fits =>
    cases isText
    rw [size_repeatText]
    calc count.toNat * Text.size content
        = (count * Text.size content).toNat := by rw [ENat.toNat_mul, ENat.toNat_natCast]
      _ ≤ (sizeLimit : ℕ∞).toNat := ENat.toNat_le_toNat fits (ENat.natCast_ne_top _)
      _ = sizeLimit := ENat.toNat_natCast _
  · cases isText

/-- Nor does what the operator makes. -/
theorem size_le_of_repeated {content result : String} {count : Float}
    (isText : repeated content count = text result) : Text.size result ≤ sizeLimit := by
  by_cases fringe : Fringe (Text.size content) (ofFloat count)
  · rw [repeated_of_fringe fringe] at isText
    cases isText
  · rw [repeated_of_not_fringe fringe] at isText
    exact size_le_of_repetition isText

/-- Whether a value is a text. -/
def isText : Value → Bool
  | text _ => true
  | _ => false

section

variable (left right : Value)

@[simp] theorem isText_bool (value : Bool) : (bool value).isText = false := rfl

@[simp] theorem isText_onNumbers (operation : Float → Float → Float) :
    (onNumbers operation left right).isText = false := by
  unfold onNumbers
  split <;> rfl

@[simp] theorem isText_bitwise (onWords : BitVec 64 → BitVec 64 → BitVec 64)
    (onBools : Bool → Bool → Bool) : (bitwise onWords onBools left right).isText = false := by
  unfold bitwise
  split <;> rfl

@[simp] theorem isText_shift (operation : ℕ → ℕ → ℕ) :
    (shift operation left right).isText = false := by
  unfold shift
  split <;> rfl

@[simp] theorem isText_compare (onNumbers : Float → Float → Bool) (onTexts : Ordering → Bool) :
    (compare onNumbers onTexts left right).isText = false := by
  unfold compare
  split <;> rfl

end

/-- A range is no text. -/
theorem isText_of_range? {first last : Float} {result : Value}
    (counted : range? first last = some result) : result.isText = false := by
  unfold range? at counted
  -- Every branch gives a fixed value, but for the one that counts.
  repeat' split at counted
  all_goals first
    | obtain rfl := Option.some.inj counted
      rfl
    | obtain ⟨_, _, rfl⟩ := Option.map_eq_some_iff.1 counted
      rfl

/-- A sum that is a text is the concatenation of both operands as texts. -/
theorem eq_append_of_add {left right : Value} {result : String}
    (isSum : left.add right = text result) : result = left.toText ++ right.toText := by
  unfold add at isSum
  split at isSum <;> cases isSum <;> rfl

/-- A product that is a text never exceeds the limit. -/
theorem size_le_of_multiply {left right : Value} {result : String}
    (isProduct : left.multiply right = text result) : Text.size result ≤ sizeLimit := by
  unfold multiply at isProduct
  split at isProduct
  · cases isProduct
  · exact size_le_of_repeated isProduct
  · exact size_le_of_repeated isProduct
  · cases isProduct

/-- A text is a sum, or it consists of copies. -/
theorem sum_or_size_le {operator : BinaryOperator} {left right : Value} {result : String}
    (made : operator.result? left right = some (text result)) :
    (operator = .add ∧ result = left.toText ++ right.toText) ∨ Text.size result ≤ sizeLimit := by
  have noText {value : Value} (never : value.isText = false) : some value ≠ some (text result) := by
    rintro same
    cases same
    cases never
  cases operator with
  | add => exact .inl ⟨rfl, eq_append_of_add (Option.some.inj made)⟩
  | multiply => exact .inr (size_le_of_multiply (Option.some.inj made))
  | range =>
      simp only [BinaryOperator.result?] at made
      split at made
      · cases isText_of_range? made
      · cases made
  | _ => exact absurd made (noText (by simp))

/-- Texts made by operators. The sum of two texts is their concatenation, of any size. As many
copies of a text as a number asks for are the result of repetition exactly if the number is not on
the fringe; there they fit but are refused. Only sums have more bytes than the limit. -/
theorem texts_of_operators (first second content made : String) (count : Float)
    (operator : BinaryOperator) (left right : Value) :
    BinaryOperator.add.result? (text first) (text second) = some (text (first ++ second)) ∧
    (∀ result ∈ [BinaryOperator.multiply.result? (text content) (number count),
        BinaryOperator.multiply.result? (number count) (text content)],
      (¬ Fringe (Text.size content) (ofFloat count) →
        result = some (repetition content (asked (ofFloat count)))) ∧
      (Fringe (Text.size content) (ofFloat count) → result = some none ∧
        repetition content (asked (ofFloat count)) =
          text (repeatText content (sizeLimit / Text.size content)))) ∧
    (operator.result? left right = some (text made) → sizeLimit < Text.size made →
      operator = .add ∧ made = left.toText ++ right.toText) := by
  refine ⟨rfl, fun result member => ?_, fun isMade large => ?_⟩
  · obtain rfl : result = some (repeated content count) := by
      simpa only [List.mem_cons, List.not_mem_nil, or_false, BinaryOperator.result?, multiply,
        or_self] using member
    exact ⟨fun regular => congrArg some (repeated_of_not_fringe regular),
      fun fringe => ⟨congrArg some (repeated_of_fringe fringe), fringe.fits⟩⟩
  · exact (sum_or_size_le isMade).resolve_right large.not_ge

/-- Half a copy more than fits is refused, half a copy more than three is left out, and one byte may
be added to a text of the maximal size. -/
theorem copies_and_sums :
    BinaryOperator.multiply.result? (text "ab") (number 8388608.5) = some none ∧
      BinaryOperator.multiply.result? (number 3.5) (text "ab") =
        some (repetition "ab" (asked (ofFloat 3.5))) ∧
      ∃ content, BinaryOperator.add.result? (text (repeatText "a" sizeLimit)) (text "b") =
          some (text content) ∧
        sizeLimit < Text.size content ∧ content = repeatText "a" sizeLimit ++ "b" := by
  have half : (ofFloat 8388608.5).value? = some (16777217 / 2) := by decide +kernel
  have threeAndHalf : (ofFloat 3.5).value? = some (7 / 2) := by decide +kernel
  have fits : (sizeLimit / Text.size "ab" : ℕ) = 8388608 := by decide
  have fringe : Fringe (Text.size "ab") (ofFloat 8388608.5) := by
    refine ⟨_, half, ?_⟩
    rw [fits]
    norm_num
  have regular : ¬ Fringe (Text.size "ab") (ofFloat 3.5) := by
    rintro ⟨value, valueIs, -, above, -⟩
    cases threeAndHalf.symm.trans valueIs
    rw [fits] at above
    norm_num at above
  have larger : sizeLimit < Text.size (repeatText "a" sizeLimit ++ "b") := by
    rw [Text.size_append, size_repeatText]
    decide
  have operators (count : Float) := texts_of_operators (repeatText "a" sizeLimit) "b" "ab"
    (repeatText "a" sizeLimit ++ "b") count .add (text (repeatText "a" sizeLimit)) (text "b")
  obtain ⟨concatenates, halves, sums⟩ := operators 8388608.5
  refine ⟨?_, ?_, _, concatenates, larger, ?_⟩
  · exact ((halves _ (.head _)).2 fringe).1
  · exact ((operators 3.5).2.1 _ (.tail _ (.head _))).1 regular
  · exact (sums concatenates larger).2

/-- A text of the maximal size to which one more byte is added is longer than the limit, and half
a copy more than the maximal number of copies is refused, although the copies would fit. -/
theorem limit_exceeded_and_missed :
    BinaryOperator.add.result? (text (repeatText "a" 16777216)) (text "b") =
        some (text (repeatText "a" 16777216 ++ "b")) ∧
      sizeLimit < Text.size (repeatText "a" 16777216 ++ "b") ∧
      BinaryOperator.multiply.result? (text "a") (number 16777216.5) = some none ∧
      repetition "a" (asked (ofFloat 16777216.5)) = text (repeatText "a" 16777216) := by
  have half : (ofFloat 16777216.5).value? = some (33554433 / 2) := by decide +kernel
  have fits : (sizeLimit / Text.size "a" : ℕ) = 16777216 := by decide
  have fringe : Fringe (Text.size "a") (ofFloat 16777216.5) := by
    refine ⟨_, half, ?_⟩
    rw [fits]
    norm_num
  refine ⟨rfl, ?_, congrArg some (repeated_of_fringe fringe), ?_⟩
  · rw [Text.size_append, size_repeatText]
    decide
  · rw [fringe.fits, fits]

end Value
end ScopeScript
