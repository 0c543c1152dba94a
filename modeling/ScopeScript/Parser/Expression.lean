import ScopeScript.Expr
import ScopeScript.Parser.Stream

/-!
# Parsing expressions

From loose to tight, the operators bind as follows: the conditional, the ten levels of
`binaryLevels`, multiplication, the operators in front of an operand, the power, and what stands
behind an operand. All binary levels group to the left, the power groups to the right. A number
literal is multiplied with a name or a parenthesis that follows it.

Every nested expression begins behind at least one token of the enclosing one. So an amount of
fuel larger than the number of tokens never runs out; `Parser.expression` takes that amount as its
argument.
-/

namespace ScopeScript
namespace Parser

/-- The parsers an expression is made of recursively, and a bound for repetitions. -/
structure Operands where
  expression : Parser Expr
  unary : Parser Expr
  fuel : Nat

/-- The operator of a level that a kind of token stands for. -/
abbrev Level := TokenKind → Option BinaryOperator

/-- The binary operators from loose to tight, down to addition. -/
def binaryLevels : List Level :=
  [ fun
      | .keyword .kwOr | .mark .pipePipe => some .or
      | .keyword .kwXor => some .xor
      | _ => none,
    fun
      | .keyword .kwAnd | .mark .ampAmp => some .and
      | _ => none,
    fun
      | .mark .pipe | .keyword .kwBor => some .bitOr
      | _ => none,
    fun
      | .keyword .kwBxor => some .bitXor
      | _ => none,
    fun
      | .mark .amp | .keyword .kwBand => some .bitAnd
      | _ => none,
    fun
      | .mark .equal => some .equal
      | .mark .notEqual => some .notEqual
      | _ => none,
    fun
      | .mark .less => some .less
      | .mark .lessEqual => some .lessEqual
      | .mark .greater => some .greater
      | .mark .greaterEqual => some .greaterEqual
      | _ => none,
    fun
      | .mark .dotDot => some .range
      | _ => none,
    fun
      | .mark .shiftLeft => some .shiftLeft
      | .mark .shiftRight => some .shiftRight
      | _ => none,
    fun
      | .mark .plus => some .add
      | .mark .minus => some .subtract
      | _ => none ]

/-- The operators that bind like multiplication. -/
def factorLevel : Level
  | .mark .star => some .multiply
  | .mark .slash => some .divide
  | .mark .percent => some .modulo
  | _ => none

/-- The operators that stand in front of their operand. -/
def unaryOperator? : TokenKind → Option UnaryOperator
  | .mark .minus => some .minus
  | .mark .plus => some .plus
  | .mark .bang | .keyword .kwNot => some .not
  | .mark .tilde | .keyword .kwBnot => some .bitNot
  | .mark .plusPlus => some .increment
  | .mark .minusMinus => some .decrement
  | _ => none

/-- The operator of a level that comes next, if there is one. -/
def operatorAhead? (level : Level) : Parser (Option BinaryOperator) := do
  return (← frontKind?).bind level

/-- Read expressions separated by commas up to a closing mark; a comma may stand in front of
it. -/
def itemsUntil (operands : Operands) (close : Mark) : Nat → List Expr → Parser (List Expr)
  | 0, items => return items.reverse
  | fuel + 1, items => do
      if ← isAtMark close then
        return items.reverse
      let item ← operands.expression
      if ← acceptMark .comma then
        itemsUntil operands close fuel (item :: items)
      else
        return (item :: items).reverse

/-- Read a list of expressions between two marks, and its span. -/
def enclosedItems (operands : Operands) (opening close : Mark) : Parser (Span × List Expr) := do
  let start ← here
  expectMark opening
  let items ← itemsUntil operands close operands.fuel []
  expectMark close
  return (← since start, items)

/-- Read the arguments of a call. -/
def callArguments (operands : Operands) : Parser (Span × List Expr) :=
  enclosedItems operands .leftParen .rightParen

/-- Read a literal, a name, a call, a sequence or an expression in parentheses. -/
def primary (operands : Operands) : Parser Expr := do
  let start ← here
  match ← front? with
  | none => unexpected "expression"
  | some token =>
      match token.kind with
      | .number =>
          advance
          match Decimal.read? token.text with
          | some value => return .number start value
          | none => fail start (.malformedNumber token.text)
      | .text =>
          advance
          return .text start token.content
      | .keyword .kwTrue =>
          advance
          return .bool start true
      | .keyword .kwFalse =>
          advance
          return .bool start false
      | .keyword .kwNone =>
          advance
          return .none start
      | .name =>
          advance
          if ← isAtMark .leftParen then
            let (argumentsSpan, arguments) ← callArguments operands
            return .call (← since start) token.text argumentsSpan arguments
          else
            return .name start token.text
      | .mark .leftParen =>
          advance
          let expr ← operands.expression
          expectMark .rightParen
          return expr
      | .mark .leftBracket =>
          let (span, items) ← enclosedItems operands .leftBracket .rightBracket
          return .sequence span items
      | _ => unexpected "expression"

/-- Read the member accesses behind an object that starts at `start`. -/
def membersOf (operands : Operands) (start : Span) : Nat → Expr → Parser Expr
  | 0, object => return object
  | fuel + 1, object => do
      if ← acceptMark .dot then
        let nameSpan ← here
        let name ← memberName
        if ← isAtMark .leftParen then
          let (argumentsSpan, arguments) ← callArguments operands
          let callSpan ← since nameSpan
          membersOf operands start fuel
            (.method (← since start) object callSpan name argumentsSpan arguments)
        else
          membersOf operands start fuel (.member (← since start) object nameSpan name)
      else if ← acceptMark .leftBracket then
        let key ← operands.expression
        expectMark .rightBracket
        membersOf operands start fuel (.index (← since start) object key)
      else
        return object

/-- Read an operand with the member accesses behind it. -/
def withMembers (operands : Operands) : Parser Expr := do
  let start ← here
  let object ← primary operands
  membersOf operands start operands.fuel object

/-- Read a power or its base alone. -/
def power (operands : Operands) : Parser Expr := do
  let start ← here
  let base ← withMembers operands
  if ← acceptMark .caret then
    let exponent ← operands.unary
    return .binary (← since start) base .power exponent
  else
    return base

/-- Read an operand with the operators in front of it. -/
def unaryStep (operands : Operands) : Parser Expr := do
  let start ← here
  match ← frontKind? with
  | none => power operands
  | some kind =>
      match unaryOperator? kind, kind with
      | some operator, _ =>
          advance
          let operand ← operands.unary
          return .unary (← since start) operator operand
      | none, .keyword .kwAwait =>
          advance
          let operand ← operands.unary
          return .await (← since start) operand
      | none, .keyword .kwDelete =>
          advance
          let nameSpan ← here
          let name ← identifier
          return .delete (← since start) nameSpan name
      | none, .keyword .kwNew =>
          advance
          let callSpan ← here
          if !(← isAt .name) || (← secondKind?) != some (.mark .leftParen) then
            unexpected "constructor call"
          let callee ← identifier
          let (argumentsSpan, arguments) ← callArguments operands
          let callSpan ← since callSpan
          return .construct (← since start) callSpan callee argumentsSpan arguments
      | none, _ => power operands

/-- Read the further operands of a level behind the first one. -/
def chainFrom (level : Level) (operand : Parser Expr) (start : Span) : Nat → Expr → Parser Expr
  | 0, left => return left
  | fuel + 1, left => do
      match ← operatorAhead? level with
      | none => return left
      | some operator =>
          advance
          let right ← operand
          chainFrom level operand start fuel (.binary (← since start) left operator right)

/-- Read operands joined by the operators of a level, grouping to the left. -/
def chain (fuel : Nat) (level : Level) (operand : Parser Expr) : Parser Expr := do
  let start ← here
  let left ← operand
  chainFrom level operand start fuel left

/-- Read the further factors of a product behind the first one. -/
def factorsFrom (operands : Operands) (start : Span) : Nat → Expr → Parser Expr
  | 0, left => return left
  | fuel + 1, left => do
      if left.isNumber && ((← isAt .name) || (← isAtMark .leftParen)) then
        let right ← unaryStep operands
        factorsFrom operands start fuel (.binary (← since start) left .multiply right)
      else
        match ← operatorAhead? factorLevel with
        | none => return left
        | some operator =>
            advance
            let right ← unaryStep operands
            factorsFrom operands start fuel (.binary (← since start) left operator right)

/-- Read a product. -/
def product (operands : Operands) : Parser Expr := do
  let start ← here
  let left ← unaryStep operands
  factorsFrom operands start operands.fuel left

/-- Read operands joined by the operators of some levels, the first of which binds loosest. -/
def binaryOf (operands : Operands) : List Level → Parser Expr
  | [] => product operands
  | level :: levels => chain operands.fuel level (binaryOf operands levels)

/-- Read a conditional or its test alone. -/
def expressionStep (operands : Operands) : Parser Expr := do
  let start ← here
  let test ← binaryOf operands binaryLevels
  if ← acceptMark .question then
    let consequent ← operands.expression
    expectMark .colon
    let alternate ← operands.expression
    return .conditional (← since start) test consequent alternate
  else
    return test

mutual

/-- Read an expression. The fuel bounds the nesting; it suffices if it exceeds the number of
tokens. -/
def expression : Nat → Parser Expr
  | 0 => unexpected "expression"
  | fuel + 1 => fun stream => expressionStep ⟨expression fuel, unary fuel, fuel + 1⟩ stream

/-- Read an operand with the operators in front of it. -/
def unary : Nat → Parser Expr
  | 0 => unexpected "expression"
  | fuel + 1 => fun stream => unaryStep ⟨expression fuel, unary fuel, fuel + 1⟩ stream

end

end Parser
end ScopeScript
