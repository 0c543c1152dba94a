import ScopeScript.Decimal.Shortest
import ScopeScript.Operator
import ScopeScript.Span
import ScopeScript.Text.Quoted

/-!
# Expressions

The tree of an expression. Every node carries the span of source text it was read from. A call
names its function and has an argument list with a span of its own; a member is a name, a call or
an arbitrary key.

`Expr.render` writes an expression with parentheses around every operator, so that its structure
can be read off.
-/

namespace ScopeScript

/-- An expression of the language. -/
inductive Expr
  | number (span : Span) (value : Float)
  | text (span : Span) (value : String)
  | bool (span : Span) (value : Bool)
  | none (span : Span)
  | absent (span : Span)
  | name (span : Span) (name : String)
  | binary (span : Span) (left : Expr) (operator : BinaryOperator) (right : Expr)
  | unary (span : Span) (operator : UnaryOperator) (operand : Expr)
  | conditional (span : Span) (test consequent alternate : Expr)
  | sequence (span : Span) (items : List Expr)
  | call (span : Span) (callee : String) (argumentsSpan : Span) (arguments : List Expr)
  | member (span : Span) (object : Expr) (nameSpan : Span) (name : String)
  | method (span : Span) (object : Expr) (callSpan : Span) (callee : String)
      (argumentsSpan : Span) (arguments : List Expr)
  | index (span : Span) (object key : Expr)
  | await (span : Span) (operand : Expr)
  | delete (span : Span) (nameSpan : Span) (name : String)
  | construct (span : Span) (callSpan : Span) (callee : String) (argumentsSpan : Span)
      (arguments : List Expr)
  deriving Inhabited

namespace Expr

/-- The source text a node was read from. -/
def span : Expr → Span
  | number span _ | text span _ | bool span _ | none span | absent span | name span _
  | binary span _ _ _ | unary span _ _ | conditional span _ _ _ | sequence span _
  | call span _ _ _ | member span _ _ _ | method span _ _ _ _ _ | index span _ _
  | await span _ | delete span _ _ | construct span _ _ _ _ => span

/-- Whether an expression is a number literal; only these multiply what follows them. -/
def isNumber : Expr → Bool
  | number _ _ => true
  | _ => false

/-- Whether an expression can stand on the left of an assignment. -/
def isAssignable : Expr → Bool
  | name _ _ | member _ _ _ _ | method _ _ _ _ _ _ | index _ _ _ => true
  | _ => false

mutual

/-- Written form of an expression, with parentheses around every operator. -/
def render : Expr → String
  | number _ value => Decimal.format value
  | text _ value => Text.quoted value
  | bool _ value => if value then "true" else "false"
  | none _ => "None"
  | absent _ => "None"
  | name _ label => label
  | binary _ left operator right =>
      "(" ++ left.render ++ operator.symbol ++ right.render ++ ")"
  | unary _ operator operand => "(" ++ operator.symbol ++ operand.render ++ ")"
  | conditional _ test consequent alternate =>
      "(" ++ test.render ++ " ? " ++ consequent.render ++ " : " ++ alternate.render ++ ")"
  | sequence _ items => "[" ++ ", ".intercalate (renderAll items) ++ "]"
  | call _ callee _ arguments => callee ++ "(" ++ ", ".intercalate (renderAll arguments) ++ ")"
  | member _ object _ label => object.render ++ "." ++ label
  | method _ object _ callee _ arguments =>
      object.render ++ "." ++ callee ++ "(" ++ ", ".intercalate (renderAll arguments) ++ ")"
  | index _ object key => object.render ++ "[" ++ key.render ++ "]"
  | await _ operand => "await " ++ operand.render
  | delete _ _ label => "delete " ++ label
  | construct _ _ callee _ arguments =>
      "new " ++ callee ++ "(" ++ ", ".intercalate (renderAll arguments) ++ ")"

/-- Written forms of a list of expressions. -/
def renderAll : List Expr → List String
  | [] => []
  | expr :: rest => expr.render :: renderAll rest

end

end Expr

end ScopeScript
