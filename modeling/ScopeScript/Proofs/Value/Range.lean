import ScopeScript.Proofs.Decimal.Rounding
import ScopeScript.Value.Operation

/-!
# Ranges

The range operator counts upwards in numbers, and the next number is not always the next integer.
`Counts` is this counting without numbers. Between `-2 ^ 53` and `2 ^ 53` it goes through all
integers. Further out it leaves integers out, or stays where it is. So the operator gives all the
integers between its ends only if they are so small, or if there is but one of them
(`range_of_numbers`).
-/

namespace ScopeScript
namespace Value

open Binary64

/-! ## Stored integers -/

/-- Integers of at most 53 bits are stored as they are, and so is the first larger one. -/
theorem storedInteger_of_le {value : ℤ} (lower : -2 ^ 53 ≤ value) (upper : value ≤ 2 ^ 53) :
    storedInteger value = value := by
  by_cases small : value.natAbs < 2 ^ 53
  · exact storedInteger_of_lt small
  · obtain rfl | rfl : value = -2 ^ 53 ∨ value = 2 ^ 53 := by omega
    · decide
    · decide

/-- Larger integers are stored as even ones. -/
theorem storedInteger_even {value : ℤ} (large : 2 ^ 53 ≤ value.natAbs) :
    storedInteger value % 2 = 0 := by
  have bits : 53 ≤ value.natAbs.log2 := (Nat.le_log2 (by omega)).2 large
  obtain ⟨count, isCount⟩ : ∃ count, value.natAbs.log2 - 52 = count + 1 :=
    ⟨value.natAbs.log2 - 53, by omega⟩
  obtain ⟨magnitude, stored⟩ : ∃ magnitude : ℕ,
      storedInteger value = signed (value < 0) (magnitude * 2 ^ (count + 1)) := by
    rw [← isCount]
    exact ⟨_, if_neg (not_lt.2 large)⟩
  rw [stored, pow_succ, ← mul_assoc]
  unfold signed
  split <;> push_cast <;> omega

/-- Counting stays at the first integer that takes 54 bits. -/
theorem storedInteger_stuck : storedInteger (2 ^ 53 + 1) = 2 ^ 53 := by
  decide

/-! ## Counting -/

/-- The integers that counting visits up to a last one, each stored before the next is taken. -/
inductive Counts (last : ℤ) : ℤ → List ℤ → Prop
  | past {current : ℤ} : last < current → Counts last current []
  | next {current : ℤ} {rest : List ℤ} : current ≤ last →
      current < storedInteger (current + 1) → Counts last (storedInteger (current + 1)) rest →
      Counts last current (current :: rest)

/-- Counting ends behind the last number. -/
theorem countUp_of_lt {current last : ℤ} (past : last < current) (value : Float)
    (collected : Array Value) : countUp current last value collected = some collected := by
  rw [countUp, dif_neg (by omega)]

/-- Counting goes on with the number that is stored for the next integer. -/
theorem countUp_of_le {current last : ℤ} (le : current ≤ last)
    (grows : current < storedInteger (current + 1)) (value : Float) (collected : Array Value) :
    countUp current last value collected =
      countUp (storedInteger (current + 1)) last (value + 1) (collected.push (number value)) := by
  rw [countUp, dif_pos le, dif_pos grows]

/-- Counting never ends where the next integer is stored as the same number. -/
theorem countUp_of_stuck {current last : ℤ} (le : current ≤ last)
    (stuck : ¬ current < storedInteger (current + 1)) (value : Float) (collected : Array Value) :
    countUp current last value collected = Option.none := by
  rw [countUp, dif_pos le, dif_neg stuck]

/-- What is collected are as many numbers as counting visits integers. -/
theorem exists_counts {current last : ℤ} {value : Float} {collected items : Array Value}
    (counted : countUp current last value collected = some items) :
    ∃ integers, Counts last current integers ∧
      items.size = collected.size + integers.length := by
  induction current, value, collected using countUp.induct last with
  | case1 current value collected le next grows inductionHypothesis =>
      rw [countUp_of_le le grows] at counted
      obtain ⟨integers, counts, size⟩ := inductionHypothesis counted
      refine ⟨current :: integers, .next le grows counts, ?_⟩
      rw [size, Array.size_push, List.length_cons]
      omega
  | case2 current value collected le next stuck =>
      rw [countUp_of_stuck le stuck] at counted
      cases counted
  | case3 current value collected past =>
      rw [countUp_of_lt (by omega)] at counted
      cases counted
      exact ⟨[], .past (by omega), rfl⟩

/-- Counting never visits more integers than there are. -/
theorem Counts.length_le {current last : ℤ} {integers : List ℤ}
    (counts : Counts last current integers) :
    integers.length ≤ (last + 1 - current).toNat := by
  induction counts with
  | past _ => exact Nat.zero_le _
  | next le grows _ inductionHypothesis =>
      rw [List.length_cons]
      omega

/-- Counting to beyond `2 ^ 53` never gets there. -/
theorem Counts.not_reaching {current last : ℤ} {integers : List ℤ}
    (counts : Counts last current integers) (lower : -2 ^ 53 ≤ current) (upper : current ≤ 2 ^ 53)
    (beyond : 2 ^ 53 ≤ last) : False := by
  induction counts with
  | past past => omega
  | @next current rest le grows counts inductionHypothesis =>
      rcases upper.lt_or_eq with below | rfl
      · rw [storedInteger_of_le (by omega) (by omega)] at inductionHypothesis
        exact inductionHypothesis (by omega) (by omega)
      · rw [storedInteger_stuck] at grows
        omega

/-- From an even integer of more than 53 bits counting does not go to the next one. -/
theorem Counts.skipping {current last : ℤ} {integers : List ℤ}
    (counts : Counts last current integers) (lt : current < last)
    (outside : current < -2 ^ 53 ∨ 2 ^ 53 ≤ current) (even : current % 2 = 0) :
    integers.length < (last + 1 - current).toNat := by
  cases counts with
  | past past => omega
  | next le grows counts =>
      have stored := storedInteger_even (show 2 ^ 53 ≤ (current + 1).natAbs by omega)
      have rest := counts.length_le
      rw [List.length_cons]
      omega

/-- Where all the integers can be counted: they take at most 53 bits, or there is only one and the
count gets past it. -/
def Countable (low high : ℤ) : Prop :=
  (-2 ^ 53 ≤ low ∧ high < 2 ^ 53) ∨ (low = high ∧ low < storedInteger (low + 1))

/-- Elsewhere counting does not come to an end or leaves integers out. -/
theorem Counts.length_lt {low high : ℤ} {integers : List ℤ} (counts : Counts high low integers)
    (le : low ≤ high) (even : 2 ^ 53 < low.natAbs → low % 2 = 0)
    (uncountable : ¬ Countable low high) : integers.length < (high + 1 - low).toNat := by
  unfold Countable at uncountable
  rcases le.lt_or_eq with lt | rfl
  · by_cases outside : low < -2 ^ 53 ∨ 2 ^ 53 ≤ low
    · refine counts.skipping lt outside ?_
      rcases eq_or_ne low (2 ^ 53) with rfl | different
      · decide
      · exact even (by omega)
    · exact (counts.not_reaching (by omega) (by omega) (by omega)).elim
  · cases counts with
    | past past => omega
    | next le grows counts => omega

/-! ## Numbers -/

/-- Integers from a first one onwards, as exact values. -/
def valuesFrom (low : ℤ) (count : ℕ) : List (Option ℚ) :=
  (List.range count).map fun index : ℕ => some ((low + index : ℤ) : ℚ)

/-- The integers from a first one on are that one and those behind it. -/
theorem valuesFrom_succ (low : ℤ) (count : ℕ) :
    valuesFrom low (count + 1) = some (low : ℚ) :: valuesFrom (low + 1) count := by
  rw [valuesFrom, List.range_succ_eq_map, List.map_cons, List.map_map]
  refine congrArg₂ List.cons (by simp) (List.map_congr_left fun index _ => ?_)
  simp only [Function.comp_apply]
  push_cast
  ring_nf

/-- Between `-2 ^ 53` and `2 ^ 53` the numbers are all the integers. -/
theorem countUp_exact {current last : ℤ} {value : Float} (collected : Array Value)
    (lower : -2 ^ 53 ≤ current) (upper : last < 2 ^ 53)
    (valueIs : (ofFloat value).value? = some (current : ℚ)) :
    ∃ numbers : List Float,
      countUp current last value collected =
        some (collected ++ (numbers.map number).toArray) ∧
      numbers.map (fun number => (ofFloat number).value?) =
        valuesFrom current (last + 1 - current).toNat := by
  induction count : (last + 1 - current).toNat generalizing current value collected with
  | zero =>
      refine ⟨[], ?_, rfl⟩
      rw [countUp_of_lt (by omega)]
      simp
  | succ count inductionHypothesis =>
      have stored : storedInteger (current + 1) = current + 1 :=
        storedInteger_of_le (by omega) (by omega)
      have bits : (storedInteger (current + 1)).natAbs.log2 < 54 :=
        log2_lt_of_lt (by decide) (by omega)
      have next := value?_add_one valueIs (bits.trans (by decide))
      rw [stored] at next
      obtain ⟨numbers, counted, values⟩ := inductionHypothesis (collected.push (number value))
        (by omega) next (by omega)
      refine ⟨value :: numbers, ?_, ?_⟩
      · rw [countUp_of_le (by omega) (by omega), stored, counted]
        simp
      · rw [List.map_cons, valueIs, values, valuesFrom_succ]

/-! ## The operator -/

/-- An end of a range: a number rounded to an integer, halves away from zero, or something
infinite. -/
def bound? : Binary64 → Option (WithBot (WithTop ℤ))
  | .notANumber => Option.none
  | .infinite negative => some (if negative then ⊥ else (⊤ : WithTop ℤ))
  | .finite negative mantissa exponent =>
      some ((roundAway (signed negative mantissa * 2 ^ exponent) : ℤ) : WithTop ℤ)

/-- A result is the sequence of all integers from one to another, as numbers. -/
def IsRange (result : Option Value) (low high : ℤ) : Prop :=
  ∃ numbers : List Float, result = some (sequence (numbers.map number)) ∧
    numbers.map (fun number => (ofFloat number).value?) =
      valuesFrom low (high + 1 - low).toNat

/-- An end of a range is infinite in one direction or the other, or an integer. -/
theorem cases_of_bound? {number : Binary64} {bound : WithBot (WithTop ℤ)}
    (boundIs : bound? number = some bound) :
    (number = .infinite true ∧ bound = ⊥) ∨
      (number = .infinite false ∧ bound = (⊤ : WithTop ℤ)) ∨
      ∃ negative mantissa exponent, number = .finite negative mantissa exponent ∧
        ∃ value : ℤ, number.round? = some value ∧ bound = (value : WithTop ℤ) := by
  cases number with
  | notANumber => cases boundIs
  | infinite negative =>
      cases negative <;> cases boundIs
      · exact .inr (.inl ⟨rfl, rfl⟩)
      · exact .inl ⟨rfl, rfl⟩
  | finite negative mantissa exponent =>
      cases boundIs
      exact .inr (.inr ⟨negative, mantissa, exponent, rfl, _, round?_finite _ _ _, rfl⟩)

/-- A bound that is an integer is the rounded number. -/
theorem round?_of_bound? {number : Binary64} {value : ℤ}
    (boundIs : bound? number = some ((value : WithTop ℤ) : WithBot (WithTop ℤ))) :
    number.round? = some value := by
  rcases cases_of_bound? boundIs with ⟨_, same⟩ | ⟨_, same⟩ | ⟨_, _, _, _, other, rounds, same⟩
  · cases same
  · cases same
  · rw [rounds, Option.some_inj]
    exact (WithTop.coe_injective (WithBot.coe_injective same)).symm

/-- Integers between which there are not too many. -/
theorem range?_of_round? {first last : Float} {low high : ℤ}
    (lowIs : (ofFloat first).round? = some low) (highIs : (ofFloat last).round? = some high) :
    range? first last =
      if high < low then some (sequence [])
      else if (sizeLimit : ℤ) < high - low + 1 then some none
      else (countUp low high (ofFloat first).rounded #[]).map fun items =>
        sequence items.toList := by
  unfold range?
  obtain ⟨_, _, _, takenFirst⟩ := exists_finite_of_round? lowIs
  obtain ⟨_, _, _, takenLast⟩ := exists_finite_of_round? highIs
  rw [takenFirst] at lowIs ⊢
  rw [takenLast] at highIs ⊢
  simp only [lowIs, highIs]

variable {first last : Float} {start stop : WithBot (WithTop ℤ)}

theorem result?_range (first last : Float) :
    BinaryOperator.range.result? (number first) (number last) = range? first last := rfl

/-- A range with a bound that is not a number is empty. -/
theorem range?_of_none
    (unbounded : bound? (ofFloat first) = Option.none ∨ bound? (ofFloat last) = Option.none) :
    range? first last = some (sequence []) := by
  unfold range?
  cases takenFirst : ofFloat first with
  | notANumber => rfl
  | infinite negative =>
      cases takenLast : ofFloat last with
      | notANumber => rfl
      | _ => simp [takenFirst, takenLast, bound?] at unbounded
  | finite _ _ _ =>
      cases takenLast : ofFloat last with
      | notANumber => rfl
      | _ => simp [takenFirst, takenLast, bound?] at unbounded

/-- Where an end is infinite, only the order of the ends matters. -/
theorem range?_of_infinite (startIs : bound? (ofFloat first) = some start)
    (stopIs : bound? (ofFloat last) = some stop)
    (infinite : ∀ low high : ℤ, start = (low : WithTop ℤ) → stop ≠ (high : WithTop ℤ)) :
    range? first last = some (if stop < start then sequence [] else none) := by
  obtain ⟨taken, rfl⟩ | ⟨taken, rfl⟩ | ⟨_, _, _, taken, low, -, rfl⟩ := cases_of_bound? startIs <;>
    obtain ⟨takenLast, rfl⟩ | ⟨takenLast, rfl⟩ | ⟨_, _, _, takenLast, high, -, rfl⟩ :=
      cases_of_bound? stopIs
  -- The last of the nine cases is that of two integers.
  on_goal 9 => exact absurd rfl (infinite low high rfl)
  all_goals
    rw [range?, taken, takenLast]
    simp

/-- A descending range is empty. -/
theorem range?_of_lt (startIs : bound? (ofFloat first) = some start)
    (stopIs : bound? (ofFloat last) = some stop) (descending : stop < start) :
    range? first last = some (sequence []) := by
  by_cases finite : ∃ low high : ℤ, start = (low : WithTop ℤ) ∧ stop = (high : WithTop ℤ)
  · obtain ⟨low, high, rfl, rfl⟩ := finite
    have below : high < low := WithTop.coe_lt_coe.1 (WithBot.coe_lt_coe.1 descending)
    rw [range?_of_round? (round?_of_bound? startIs) (round?_of_bound? stopIs), if_pos below]
  · push Not at finite
    rw [range?_of_infinite startIs stopIs finite, if_pos descending]

/-- A range that is too long is nothing. -/
theorem range?_of_long (startIs : bound? (ofFloat first) = some start)
    (stopIs : bound? (ofFloat last) = some stop) (le : start ≤ stop)
    (long : ∀ low high : ℤ, start = (low : WithTop ℤ) → stop = (high : WithTop ℤ) →
      sizeLimit < high - low + 1) : range? first last = some none := by
  by_cases finite : ∃ low high : ℤ, start = (low : WithTop ℤ) ∧ stop = (high : WithTop ℤ)
  · obtain ⟨low, high, rfl, rfl⟩ := finite
    have ascending : low ≤ high := WithTop.coe_le_coe.1 (WithBot.coe_le_coe.1 le)
    rw [range?_of_round? (round?_of_bound? startIs) (round?_of_bound? stopIs),
      if_neg (not_lt.2 ascending), if_pos (long low high rfl rfl)]
  · push Not at finite
    rw [range?_of_infinite startIs stopIs finite, if_neg (not_lt.2 le)]

/-- Where counting passes every integer, the range is exact. -/
theorem isRange_of_countable {first last : Float} {low high : ℤ}
    (lowIs : (ofFloat first).round? = some low) (highIs : (ofFloat last).round? = some high)
    (le : low ≤ high) (fits : high - low + 1 ≤ sizeLimit) (countable : Countable low high) :
    IsRange (range? first last) low high := by
  have valueIs := value?_rounded lowIs
  rw [range?_of_round? lowIs highIs, if_neg (not_lt.2 le), if_neg (not_lt.2 fits)]
  rcases countable with ⟨lower, upper⟩ | ⟨rfl, grows⟩
  · obtain ⟨numbers, counted, values⟩ := countUp_exact #[] lower upper valueIs
    refine ⟨numbers, ?_, values⟩
    rw [counted]
    simp
  · refine ⟨[(ofFloat first).rounded], ?_, ?_⟩
    · rw [countUp_of_le le grows, countUp_of_lt grows]
      rfl
    · have one : (low + 1 - low).toNat = 1 := by omega
      rw [one, List.map_singleton, valueIs]
      simp [valuesFrom]

/-- Everywhere else counting never ends or leaves integers out. -/
theorem endless_or_shorter {first last : Float} {low high : ℤ}
    (lowIs : (ofFloat first).round? = some low) (highIs : (ofFloat last).round? = some high)
    (le : low ≤ high) (fits : high - low + 1 ≤ sizeLimit) (uncountable : ¬ Countable low high) :
    range? first last = Option.none ∨ ∃ items, range? first last = some (sequence items) ∧
      items.length < (high + 1 - low).toNat := by
  rw [range?_of_round? lowIs highIs, if_neg (not_lt.2 le), if_neg (not_lt.2 fits)]
  cases counted : countUp low high (ofFloat first).rounded #[] with
  | none => exact .inl rfl
  | some items =>
      obtain ⟨integers, counts, size⟩ := exists_counts counted
      have shorter := counts.length_lt le (stored_of_round? lowIs).2.2 uncountable
      refine .inr ⟨items.toList, rfl, ?_⟩
      rw [Array.length_toList, size]
      simpa using shorter

/-- A range has as many elements as there are integers between its bounds. -/
theorem IsRange.length {items : List Value} {low high : ℤ}
    (isRange : IsRange (some (sequence items)) low high) :
    items.length = (high + 1 - low).toNat := by
  obtain ⟨numbers, same, values⟩ := isRange
  cases same
  have lengths := congrArg List.length values
  simpa [valuesFrom] using lengths

/-- The range operator on two numbers. What is not a number has an empty range, and so have ends in
decreasing order. Other ranges without end or with too many elements are empty values. The rest are
the integers between the ends exactly if these can be counted; if not, the operator has no result or
leaves integers out. -/
theorem range_of_numbers (first last : Float) :
    (bound? (ofFloat first) = Option.none ∨ bound? (ofFloat last) = Option.none →
      BinaryOperator.range.result? (number first) (number last) = some (sequence [])) ∧
    ∀ start stop, bound? (ofFloat first) = some start → bound? (ofFloat last) = some stop →
      (stop < start →
        BinaryOperator.range.result? (number first) (number last) = some (sequence [])) ∧
      (start ≤ stop →
        (∀ low high : ℤ, start = (low : WithTop ℤ) → stop = (high : WithTop ℤ) →
          sizeLimit < high - low + 1) →
        BinaryOperator.range.result? (number first) (number last) = some none) ∧
      ∀ low high : ℤ, start = (low : WithTop ℤ) → stop = (high : WithTop ℤ) → low ≤ high →
        high - low + 1 ≤ sizeLimit →
        (IsRange (BinaryOperator.range.result? (number first) (number last)) low high ↔
          Countable low high) ∧
        (¬ Countable low high →
          BinaryOperator.range.result? (number first) (number last) = Option.none ∨
            ∃ items, BinaryOperator.range.result? (number first) (number last) =
                some (sequence items) ∧
              items.length < (high + 1 - low).toNat) := by
  rw [result?_range]
  refine ⟨?_, fun start stop startIs stopIs => ⟨?_, ?_, ?_⟩⟩
  · exact range?_of_none
  · exact range?_of_lt startIs stopIs
  · exact range?_of_long startIs stopIs
  · rintro low high rfl rfl le fits
    have lowIs := round?_of_bound? startIs
    have highIs := round?_of_bound? stopIs
    refine ⟨⟨fun isRange => ?_, isRange_of_countable lowIs highIs le fits⟩,
      endless_or_shorter lowIs highIs le fits⟩
    by_contra uncountable
    rcases endless_or_shorter lowIs highIs le fits uncountable with
      endless | ⟨items, result, shorter⟩
    · obtain ⟨numbers, same, _⟩ := isRange
      rw [endless] at same
      cases same
    · rw [result] at isRange
      exact shorter.ne isRange.length

/-- Small ends, in either order, an end that is infinite, and one that is not a number. -/
theorem small_ranges :
    IsRange (BinaryOperator.range.result? (number 1.5) (number 3.4)) 2 3 ∧
      BinaryOperator.range.result? (number 3) (number 1) = some (sequence []) ∧
      BinaryOperator.range.result? (number 1) (number (1.0 / 0.0)) = some none ∧
      BinaryOperator.range.result? (number (0.0 / 0.0)) (number 1) = some (sequence []) := by
  have startIs : bound? (ofFloat 1.5) = some ((2 : ℤ) : WithTop ℤ) := by decide +kernel
  have stopIs : bound? (ofFloat 3.4) = some ((3 : ℤ) : WithTop ℤ) := by decide +kernel
  have one : bound? (ofFloat 1) = some ((1 : ℤ) : WithTop ℤ) := by decide +kernel
  have three : bound? (ofFloat 3) = some ((3 : ℤ) : WithTop ℤ) := by decide +kernel
  have infinite : bound? (ofFloat (1.0 / 0.0)) = some (⊤ : WithTop ℤ) := by decide +kernel
  have undefined : bound? (ofFloat (0.0 / 0.0)) = Option.none := by decide +kernel
  have countable : Countable 2 3 := .inl (by decide)
  refine ⟨?_, ?_, ?_, ?_⟩
  · exact ((range_of_numbers 1.5 3.4).2 _ _ startIs stopIs |>.2.2 2 3 rfl rfl (by decide)
      (by decide)).1.2 countable
  · exact ((range_of_numbers 3 1).2 _ _ three one).1 (by decide)
  · exact ((range_of_numbers 1 (1.0 / 0.0)).2 _ _ one infinite).2.1 (by decide) (by simp)
  · exact (range_of_numbers (0.0 / 0.0) 1).1 (.inl undefined)

/-- At `2 ^ 53` counting does not get past a single integer, and below `-2 ^ 53` it leaves one of
five out. -/
theorem counting_stays_or_skips :
    BinaryOperator.range.result? (number 9007199254740992) (number 9007199254740992) =
        Option.none ∧
      ∃ items, BinaryOperator.range.result? (number (-9007199254740994))
          (number (-9007199254740990)) = some (sequence items) ∧ items.length = 4 := by
  constructor
  · have bound : (ofFloat 9007199254740992).round? = some 9007199254740992 := by decide +kernel
    rw [result?_range, range?_of_round? bound bound, if_neg (by decide), if_neg (by decide),
      countUp_of_stuck (by decide) (by decide)]
    rfl
  · have lowIs : (ofFloat (-9007199254740994)).round? = some (-9007199254740994) := by
      decide +kernel
    have highIs : (ofFloat (-9007199254740990)).round? = some (-9007199254740990) := by
      decide +kernel
    have first : storedInteger (-9007199254740994 + 1) = -9007199254740992 := by decide
    have second : storedInteger (-9007199254740992 + 1) = -9007199254740991 := by decide
    have third : storedInteger (-9007199254740991 + 1) = -9007199254740990 := by decide
    have fourth : storedInteger (-9007199254740990 + 1) = -9007199254740989 := by decide
    rw [result?_range, range?_of_round? lowIs highIs, if_neg (by decide), if_neg (by decide),
      countUp_of_le (by decide) (by decide), first, countUp_of_le (by decide) (by decide), second,
      countUp_of_le (by decide) (by decide), third, countUp_of_le (by decide) (by decide), fourth,
      countUp_of_lt (by decide)]
    exact ⟨_, rfl, rfl⟩

end Value
end ScopeScript
