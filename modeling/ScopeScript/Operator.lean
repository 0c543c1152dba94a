/-!
# Operators

The binary, prefix and assignment operators of the language and the way they are written in
rendered expressions. Word operators keep a blank on both sides.
-/

namespace ScopeScript

/-- Operators with two operands. -/
inductive BinaryOperator
  | add
  | subtract
  | multiply
  | divide
  | power
  | range
  | modulo
  | and
  | or
  | xor
  | bitAnd
  | bitOr
  | bitXor
  | shiftLeft
  | shiftRight
  | equal
  | notEqual
  | less
  | lessEqual
  | greater
  | greaterEqual
  deriving DecidableEq, Repr, Inhabited

namespace BinaryOperator

/-- All binary operators. -/
def all : List BinaryOperator :=
  [add, subtract, multiply, divide, power, range, modulo, and, or, xor, bitAnd, bitOr, bitXor,
    shiftLeft, shiftRight, equal, notEqual, less, lessEqual, greater, greaterEqual]

/-- How an operator is written between its operands. -/
def symbol : BinaryOperator → String
  | add => "+"
  | subtract => "-"
  | multiply => "*"
  | divide => "/"
  | power => "^"
  | range => ".."
  | modulo => "%"
  | and => " and "
  | or => " or "
  | xor => " xor "
  | bitAnd => "&"
  | bitOr => "|"
  | bitXor => " bxor "
  | shiftLeft => "<<"
  | shiftRight => ">>"
  | equal => "=="
  | notEqual => "!="
  | less => "<"
  | lessEqual => "<="
  | greater => ">"
  | greaterEqual => ">="

end BinaryOperator

/-- Operators in front of one operand. -/
inductive UnaryOperator
  | plus
  | minus
  | not
  | bitNot
  | increment
  | decrement
  deriving DecidableEq, Repr, Inhabited

namespace UnaryOperator

/-- All unary operators. -/
def all : List UnaryOperator :=
  [plus, minus, not, bitNot, increment, decrement]

/-- How an operator is written in front of its operand. -/
def symbol : UnaryOperator → String
  | plus => "+"
  | minus => "-"
  | not => "!"
  | bitNot => "~"
  | increment => "++"
  | decrement => "--"

end UnaryOperator

/-- Ways to assign: a value, a formula, or the result of a binary operator. -/
inductive AssignOperator
  | value
  | formula
  | add
  | subtract
  | multiply
  | divide
  | power
  | modulo
  deriving DecidableEq, Repr, Inhabited

namespace AssignOperator

/-- How an assignment operator is written. -/
def symbol : AssignOperator → String
  | value => "="
  | formula => ":="
  | add => "+="
  | subtract => "-="
  | multiply => "*="
  | divide => "/="
  | power => "^="
  | modulo => "%="

/-- The operator that a compound assignment applies to the old value and the new one. -/
def binary? : AssignOperator → Option BinaryOperator
  | value | formula => none
  | add => some .add
  | subtract => some .subtract
  | multiply => some .multiply
  | divide => some .divide
  | power => some .power
  | modulo => some .modulo

end AssignOperator

end ScopeScript
