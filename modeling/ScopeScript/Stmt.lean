import ScopeScript.Expr

/-!
# Statements

The tree of a statement and of a whole program. Bodies in braces keep the span of the braces
beside the list of their statements.
-/

namespace ScopeScript

/-- A statement of the language. -/
inductive Stmt
  | evaluate (span : Span) (expr : Expr)
  | returns (span : Span) (argument : Option Expr)
  | yields (span : Span) (argument : Option Expr)
  | throws (span : Span) (argument : Expr)
  | breaks (span : Span)
  | continues (span : Span)
  | declare (span : Span) (name : String) (initial : Expr) (isFormula : Bool)
  | function (span : Span) (name : String) (parameters : List String) (body : List Stmt)
      (isAsync : Bool)
  | scope (span : Span) (name : String) (body : List Stmt)
  | context (span : Span) (name : String) (body : List Stmt)
  | conditional (span : Span) (test : Expr) (consequentSpan : Span) (consequent : List Stmt)
      (alternate : Option Stmt)
  | forEach (span : Span) (loopName : String) (iterable : Expr) (bodySpan : Span)
      (body : List Stmt)
  | whileLoop (span : Span) (test : Expr) (bodySpan : Span) (body : List Stmt)
  | loop (span : Span) (bodySpan : Span) (body : List Stmt)
  | block (span : Span) (body : List Stmt)
  | assign (span : Span) (target : Expr) (operator : AssignOperator) (right : Expr)
  | imports (span : Span) (source : String) (aliasName : String)
  | attempt (span : Span) (bodySpan : Span) (body : List Stmt) (caught : String)
      (handlerSpan : Span) (handler : List Stmt)
  deriving Inhabited

namespace Stmt

/-- The source text a node was read from. -/
def span : Stmt → Span
  | evaluate span _ | returns span _ | yields span _ | throws span _ | breaks span
  | continues span | declare span _ _ _ | function span _ _ _ _ | scope span _ _
  | context span _ _ | conditional span _ _ _ _ | forEach span _ _ _ _ | whileLoop span _ _ _
  | loop span _ _ | block span _ | assign span _ _ _ | imports span _ _
  | attempt span _ _ _ _ _ => span

end Stmt

/-- A whole source text. -/
structure Program where
  span : Span
  body : List Stmt
  deriving Inhabited

end ScopeScript
