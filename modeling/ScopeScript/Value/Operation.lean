import ScopeScript.Value

/-!
# Operations on values

Operators are total: operands an operator is not defined for give the empty value. The one
exception is the range operator. It counts upwards in numbers, and where adding one does not
change a number it would count forever; there it has no result.

Texts made by repetition and ranges have a maximal size; a larger result is the empty value.
-/

namespace ScopeScript
namespace Value

/-- Largest number of bytes of a repeated text and of elements of a range. -/
def sizeLimit : Nat := 16777216

/-- Number of copies of a text that an exact count asks for, and whether the result fits. -/
inductive Copies
  | noneAtAll
  | tooMany
  | count (copies : Nat)
  deriving DecidableEq, Repr

/-- How many copies of a text of the given positive size a number asks for: its integer part,
unless the number exceeds the number of copies that fit. -/
def copies (size : Nat) : Binary64 → Copies
  | .notANumber => .noneAtAll
  | .infinite negative => if negative then .noneAtAll else .tooMany
  | number@(.finite _ _ _) =>
      match number.truncate? with
      | .none => .noneAtAll
      | .some whole =>
          let limit : Int := (sizeLimit / size : Nat)
          if whole < 1 then .noneAtAll
          else if limit < whole ∨ (whole = limit ∧ !number.isInteger) then .tooMany
          else .count whole.toNat

/-- The given number of copies of a text. -/
def repeatText (text : String) (count : Nat) : String :=
  Nat.repeat (· ++ text) count ""

/-- Text repeated as often as a number says. -/
def repeated (string : String) (number : Float) : Value :=
  if string = "" then
    text ""
  else
    match copies (Text.size string) (Binary64.ofFloat number) with
    | .noneAtAll => text ""
    | .tooMany => none
    | .count count => text (repeatText string count)

/-- Sum of numbers, concatenation of texts, disjunction of truth values. -/
def add : Value → Value → Value
  | number left, number right => number (left + right)
  | text left, text right => text (left ++ right)
  | text left, number right => text (left ++ Decimal.format right)
  | number left, text right => text (Decimal.format left ++ right)
  | bool left, bool right => bool (left || right)
  | _, _ => none

/-- Product of numbers, repetition of a text. -/
def multiply : Value → Value → Value
  | number left, number right => number (left * right)
  | text left, number right => repeated left right
  | number left, text right => repeated right left
  | _, _ => none

/-- Apply an operation that is defined for numbers only. -/
def onNumbers (operation : Float → Float → Float) : Value → Value → Value
  | number left, number right => number (operation left right)
  | _, _ => none

/-- Count up to `last` by adding one to a number whose value is `current`, behind the numbers
already collected. There is no result once adding one leaves the number unchanged. -/
def countUp (current last : Int) (value : Float) (collected : Array Value) :
    Option (Array Value) :=
  if _inRange : current ≤ last then
    let next := Binary64.storedInteger (current + 1)
    if _grows : current < next then
      countUp next last (value + 1) (collected.push (number value))
    else
      Option.none
  else
    some collected
termination_by (last + 1 - current).toNat
decreasing_by omega

/-- The numbers from one rounded end to the other; `Option.none` if counting never ends. -/
def range? (first last : Float) : Option Value :=
  match Binary64.ofFloat first, Binary64.ofFloat last with
  | .notANumber, _ | _, .notANumber => some (sequence [])
  | .infinite false, .finite _ _ _ | .finite _ _ _, .infinite true
  | .infinite false, .infinite true => some (sequence [])
  | .infinite _, _ | _, .infinite _ => some none
  | exactFirst, exactLast =>
      match exactFirst.round?, exactLast.round? with
      | some low, some high =>
          if high < low then some (sequence [])
          else if (sizeLimit : Int) < high - low + 1 then some none
          else
            (countUp low high exactFirst.rounded #[]).map fun items => sequence items.toList
      | _, _ => some none

/-- Shift of unsigned words; bits beyond the word are lost. -/
def shift (operation : Nat → Nat → Nat) : Value → Value → Value
  | number left, number right =>
      let word := (Binary64.ofFloat left).toUnsignedWord
      let amount := (Binary64.ofFloat right).toUnsignedWord
      number (Float.ofNat (if amount < 64 then operation word amount % Binary64.wordCount else 0))
  | _, _ => none

/-- Bitwise operation on signed words, or the same operation on truth values. -/
def bitwise (onWords : BitVec 64 → BitVec 64 → BitVec 64) (onBools : Bool → Bool → Bool) :
    Value → Value → Value
  | bool left, bool right => bool (onBools left right)
  | number left, number right =>
      let word := onWords (BitVec.ofInt 64 (Binary64.ofFloat left).toSignedWord)
        (BitVec.ofInt 64 (Binary64.ofFloat right).toSignedWord)
      number (Float.ofInt word.toInt)
  | _, _ => none

/-- Comparison of numbers or of texts. Texts are ordered byte by byte, and nothing compares with
what is not a number. -/
def compare (onNumbers : Float → Float → Bool) (onTexts : Ordering → Bool) :
    Value → Value → Value
  | number left, number right => bool (onNumbers left right)
  | text left, text right =>
      bool (onTexts (if left < right then .lt else if left = right then .eq else .gt))
  | _, _ => none

end Value

/-- Result of a binary operator; `none` if it never comes to an end. -/
def BinaryOperator.result? (operator : BinaryOperator) (left right : Value) : Option Value :=
  match operator with
  | .add => some (left.add right)
  | .subtract => some (Value.onNumbers (· - ·) left right)
  | .multiply => some (left.multiply right)
  | .divide => some (Value.onNumbers (· / ·) left right)
  | .power => some (Value.onNumbers Float.pow left right)
  | .range =>
      match left, right with
      | .number first, .number last => Value.range? first last
      | _, _ => some .none
  | .modulo => some (Value.onNumbers Binary64.remainder left right)
  | .and => some (.bool (left.isTrue && right.isTrue))
  | .or => some (.bool (left.isTrue || right.isTrue))
  | .xor => some (.bool (left.isTrue != right.isTrue))
  | .bitAnd => some (Value.bitwise (· &&& ·) (· && ·) left right)
  | .bitOr => some (Value.bitwise (· ||| ·) (· || ·) left right)
  | .bitXor => some (Value.bitwise (· ^^^ ·) (· != ·) left right)
  | .shiftLeft => some (Value.shift (· <<< ·) left right)
  | .shiftRight => some (Value.shift (· >>> ·) left right)
  | .equal => some (.bool (left.equal right))
  | .notEqual => some (.bool (!left.equal right))
  | .less => some (Value.compare (· < ·) (· == .lt) left right)
  | .lessEqual => some (Value.compare (· ≤ ·) (· != .gt) left right)
  | .greater => some (Value.compare (· > ·) (· == .gt) left right)
  | .greaterEqual => some (Value.compare (· ≥ ·) (· != .lt) left right)

/-- Result of a unary operator. -/
def UnaryOperator.apply : UnaryOperator → Value → Value
  | .plus, value => value
  | .not, value => .bool (!value.isTrue)
  | .minus, .number value => .number (-value)
  | .bitNot, .number value => .number (Float.ofInt (-(Binary64.ofFloat value).toSignedWord - 1))
  | .increment, .number value => .number (value + 1)
  | .decrement, .number value => .number (value - 1)
  | _, _ => .none

end ScopeScript
