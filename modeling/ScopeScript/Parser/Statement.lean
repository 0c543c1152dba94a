import ScopeScript.Parser.Expression
import ScopeScript.Stmt

/-!
# Parsing statements

Statements end with a semicolon, which may be left out in front of a closing brace and at the end
of the input; statements that end with a body in braces need none. As for expressions, an amount
of fuel larger than the number of tokens never runs out.
-/

namespace ScopeScript
namespace Parser

/-- The parsers a statement is made of. -/
structure Parts where
  statement : Parser Stmt
  expression : Parser Expr
  fuel : Nat

/-- Read the end of a statement. -/
def endStatement : Parser Unit := do
  if ← acceptMark .semicolon then
    return ()
  if (← isAtMark .rightBrace) || (← isAtEnd) then
    return ()
  unexpected "`;`"

/-- Read statements and lone semicolons up to a closing brace or, if none is wanted, up to the
end of the input. -/
def statementsUntil (parts : Parts) (close? : Option Mark) : Nat → List Stmt → Parser (List Stmt)
  | 0, statements => return statements.reverse
  | fuel + 1, statements => do
      match close?, ← front? with
      | none, none => return statements.reverse
      | some close, none => unexpected (TokenKind.mark close).describe
      | _, some token =>
          if close?.map TokenKind.mark = some token.kind then
            return statements.reverse
          else if token.kind = .mark .semicolon then
            advance
            statementsUntil parts close? fuel statements
          else
            let statement ← parts.statement
            statementsUntil parts close? fuel (statement :: statements)

/-- Read a body in braces, and its span. -/
def body (parts : Parts) : Parser (Span × List Stmt) := do
  let start ← here
  expectMark .leftBrace
  let statements ← statementsUntil parts (some .rightBrace) parts.fuel []
  expectMark .rightBrace
  return (← since start, statements)

/-- Read an expression unless the statement ends here. -/
def optionalExpression (parts : Parts) : Parser (Option Expr) := do
  match ← frontKind? with
  | none | some (.mark .semicolon) | some (.mark .rightBrace) => return none
  | some _ => return some (← parts.expression)

/-- Read a declaration of a name. -/
def declaration (parts : Parts) : Parser Stmt := do
  let start ← here
  expectKeyword .kwLet
  let name ← identifier
  let (initial, isFormula) ← do
    if ← acceptMark .assign then
      pure (← parts.expression, false)
    else if ← acceptMark .colonAssign then
      pure (← parts.expression, true)
    else
      pure (.absent (← since start), false)
  endStatement
  return .declare (← since start) name initial isFormula

/-- Read parameter names separated by commas; a comma may stand behind the last one. -/
def parametersUntil : Nat → List String → Parser (List String)
  | 0, names => return names.reverse
  | fuel + 1, names => do
      if ← isAtMark .rightParen then
        return names.reverse
      let name ← identifier
      if ← acceptMark .comma then
        parametersUntil fuel (name :: names)
      else
        return (name :: names).reverse

/-- Read a function declaration; its body is a single statement or stands in braces. -/
def functionDeclaration (parts : Parts) (isAsync : Bool) : Parser Stmt := do
  let start ← here
  expectKeyword .kwFn
  let name ← identifier
  expectMark .leftParen
  let parameters ← parametersUntil parts.fuel []
  expectMark .rightParen
  let statements ← do
    if ← isAtMark .leftBrace then
      pure (← body parts).2
    else
      pure [← parts.statement]
  return .function (← since start) name parameters statements isAsync

/-- Read an `if` statement; behind `else` comes another one or a body in braces. -/
def conditionalStatement (parts : Parts) : Parser Stmt := do
  let start ← here
  expectKeyword .kwIf
  let test ← parts.expression
  let (consequentSpan, consequent) ← body parts
  let alternate ← do
    if ← accept (.keyword .kwElse) then
      if ← isAt (.keyword .kwIf) then
        pure (some (← parts.statement))
      else
        let (span, statements) ← body parts
        pure (some (.block span statements))
    else
      pure none
  return .conditional (← since start) test consequentSpan consequent alternate

/-- Read a statement that catches what its body throws. -/
def attemptStatement (parts : Parts) : Parser Stmt := do
  let start ← here
  expectKeyword .kwTry
  let (bodySpan, statements) ← body parts
  expectKeyword .kwCatch
  let caught ← do
    if ← isAt .name then identifier else pure ""
  let (handlerSpan, handler) ← body parts
  return .attempt (← since start) bodySpan statements caught handlerSpan handler

/-- Read an import; the file is given by a name or by a text. -/
def importStatement : Parser Stmt := do
  let start ← here
  expectKeyword .kwImport
  let source ← do
    if ← isAt .name then identifier else pure (← expect .text).content
  let aliasName ← do
    if ← accept (.keyword .kwAs) then identifier else pure ""
  endStatement
  return .imports (← since start) source aliasName

/-- The assignment operator that a kind of token stands for. -/
def assignOperator? : TokenKind → Option AssignOperator
  | .mark .assign => some .value
  | .mark .colonAssign => some .formula
  | .mark .plusAssign => some .add
  | .mark .minusAssign => some .subtract
  | .mark .starAssign => some .multiply
  | .mark .slashAssign => some .divide
  | .mark .caretAssign => some .power
  | .mark .percentAssign => some .modulo
  | _ => none

/-- Read an expression or an assignment. -/
def expressionStatement (parts : Parts) : Parser Stmt := do
  let start ← here
  let expr ← parts.expression
  match (← frontKind?).bind assignOperator? with
  | some operator =>
      if !expr.isAssignable then
        fail expr.span (.unassignable expr.render)
      advance
      let right ← parts.expression
      endStatement
      return .assign (← since start) expr operator right
  | none =>
      endStatement
      return .evaluate (← since start) expr

/-- Read a scope or a context behind its keyword. -/
def scopeDeclaration (parts : Parts) (start : Span)
    (make : Span → String → List Stmt → Stmt) : Parser Stmt := do
  advance
  let name ← identifier
  let (_, statements) ← body parts
  return make (← since start) name statements

/-- Read a statement that consists of its keyword only. -/
def bareStatement (start : Span) (make : Span → Stmt) : Parser Stmt := do
  advance
  endStatement
  return make (← since start)

/-- Read a statement. -/
def statementStep (parts : Parts) : Parser Stmt := do
  let start ← here
  match ← frontKind? with
  | some (.mark .leftBrace) =>
      let (span, statements) ← body parts
      return .block span statements
  | some (.keyword .kwLet) => declaration parts
  | some (.keyword .kwFn) => functionDeclaration parts false
  | some (.keyword .kwAsync) =>
      advance
      functionDeclaration parts true
  | some (.keyword .kwScope) => scopeDeclaration parts start .scope
  | some (.keyword .kwContext) => scopeDeclaration parts start .context
  | some (.keyword .kwIf) => conditionalStatement parts
  | some (.keyword .kwWhile) =>
      advance
      let test ← parts.expression
      let (bodySpan, statements) ← body parts
      return .whileLoop (← since start) test bodySpan statements
  | some (.keyword .kwLoop) =>
      advance
      let (bodySpan, statements) ← body parts
      return .loop (← since start) bodySpan statements
  | some (.keyword .kwFor) =>
      advance
      let name ← identifier
      expectKeyword .kwIn
      let iterable ← parts.expression
      let (bodySpan, statements) ← body parts
      return .forEach (← since start) name iterable bodySpan statements
  | some (.keyword .kwTry) => attemptStatement parts
  | some (.keyword .kwReturn) =>
      advance
      let argument ← optionalExpression parts
      endStatement
      return .returns (← since start) argument
  | some (.keyword .kwYield) =>
      advance
      let argument ← optionalExpression parts
      endStatement
      return .yields (← since start) argument
  | some (.keyword .kwThrow) =>
      advance
      let argument ← parts.expression
      endStatement
      return .throws (← since start) argument
  | some (.keyword .kwBreak) => bareStatement start .breaks
  | some (.keyword .kwContinue) => bareStatement start .continues
  | some (.keyword .kwImport) => importStatement
  | _ => expressionStatement parts

/-- Read a statement. The fuel bounds the nesting; it suffices if it exceeds the number of
tokens. -/
def statement : Nat → Parser Stmt
  | 0 => unexpected "expression"
  | fuel + 1 => fun stream =>
      statementStep ⟨statement fuel, expression (fuel + 1), fuel + 1⟩ stream

/-- Read a whole program. -/
def program (fuel : Nat) : Parser Program := do
  let start ← here
  let statements ←
    statementsUntil ⟨statement fuel, expression fuel, fuel⟩ none fuel []
  return ⟨← since start, statements⟩

/-- Read a single expression, which may end with a semicolon. -/
def wholeExpression (fuel : Nat) : Parser Expr := do
  let expr ← expression fuel
  let _ ← acceptMark .semicolon
  if ← isAtEnd then
    return expr
  else
    unexpected "end of expression"

end Parser
end ScopeScript
