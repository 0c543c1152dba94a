import ScopeScript.Parser.Statement

/-!
# Outlines of trees

The outline of an expression, a statement or a program keeps the spans of the nodes, which node is
part of which in the order of the source text, and the names and literals. Keywords, operators and
punctuation are left out. `Outline.leaves` are the names and literals from left to right.

`Token.leaves` are the names and literals among tokens. What a token is depends on the token in
front of it: behind a dot a keyword is the name of a member, and behind the keyword of an import a
name or a text is the file.
-/

namespace ScopeScript

/-- A name or a literal. A numeral that cannot be read has no value. -/
inductive Leaf
  | name (label : String)
  | number (value? : Option Float)
  | text (content : String)
  | truth (value : Bool)
  | nothing
  | source (file : String)

/-- The nodes of a tree with their spans, and its names and literals. The initial value that a
declaration leaves out is a node which nothing is written for. -/
inductive Outline
  | leaf (content : Leaf)
  | blank (span : Span)
  | node (span : Span) (parts : List Outline)

namespace Outline

/-- The span of a node. -/
def span? : Outline → Option Span
  | leaf _ => none
  | blank span | node span _ => some span

/-- The outlines that a node is made of, in the order of the source text. -/
def parts : Outline → List Outline
  | leaf _ | blank _ => []
  | node _ parts => parts

/-- The spans of the nodes that a node is made of, in the order of the source text. -/
def childSpans (outline : Outline) : List Span :=
  outline.parts.filterMap span?

mutual

/-- The names and literals from left to right. -/
def leaves : Outline → List Leaf
  | leaf content => [content]
  | blank _ => []
  | node _ parts => leavesAll parts

/-- The names and literals of some outlines from left to right. -/
def leavesAll : List Outline → List Leaf
  | [] => []
  | outline :: rest => outline.leaves ++ leavesAll rest

end

mutual

/-- An outline and all outlines it is made of. -/
def subtrees : Outline → List Outline
  | leaf content => [.leaf content]
  | blank span => [.blank span]
  | node span parts => .node span parts :: subtreesAll parts

/-- Some outlines and all outlines they are made of. -/
def subtreesAll : List Outline → List Outline
  | [] => []
  | outline :: rest => outline.subtrees ++ subtreesAll rest

end

/-- The name of something. -/
def named (label : String) : Outline :=
  .leaf (.name label)

/-- The name of something that may have none, which the empty text stands for. -/
def named? (label : String) : List Outline :=
  if label = "" then [] else [named label]

end Outline

/-! ## Trees -/

namespace Expr

mutual

/-- The outline of an expression. -/
def outline : Expr → Outline
  | number span value => .node span [.leaf (.number (some value))]
  | text span value => .node span [.leaf (.text value)]
  | bool span value => .node span [.leaf (.truth value)]
  | none span => .node span [.leaf .nothing]
  | absent span => .blank span
  | name span label => .node span [.named label]
  | binary span left _ right => .node span [left.outline, right.outline]
  | unary span _ operand | await span operand => .node span [operand.outline]
  | conditional span test consequent alternate =>
      .node span [test.outline, consequent.outline, alternate.outline]
  | sequence span items => .node span (outlines items)
  | call span callee argumentsSpan arguments =>
      .node span [.named callee, .node argumentsSpan (outlines arguments)]
  | member span object nameSpan label =>
      .node span [object.outline, .node nameSpan [.named label]]
  | method span object callSpan callee argumentsSpan arguments =>
      .node span
        [object.outline,
          .node callSpan [.named callee, .node argumentsSpan (outlines arguments)]]
  | index span object key => .node span [object.outline, key.outline]
  | delete span nameSpan label => .node span [.node nameSpan [.named label]]
  | construct span callSpan callee argumentsSpan arguments =>
      .node span [.node callSpan [.named callee, .node argumentsSpan (outlines arguments)]]

/-- The outlines of some expressions. -/
def outlines : List Expr → List Outline
  | [] => []
  | expr :: rest => expr.outline :: outlines rest

end

theorem outlines_eq_map (exprs : List Expr) : outlines exprs = exprs.map outline := by
  induction exprs with
  | nil => rfl
  | cons expr exprs inductionHypothesis => rw [outlines, inductionHypothesis, List.map_cons]

end Expr

namespace Stmt

mutual

/-- The outline of a statement. -/
def outline : Stmt → Outline
  | breaks span | continues span => .node span []
  | evaluate span expr | throws span expr => .node span [expr.outline]
  | returns span argument | yields span argument =>
      .node span (argument.map Expr.outline).toList
  | declare span label initial _ => .node span [.named label, initial.outline]
  | function span label parameters body _ =>
      .node span (.named label :: (parameters.map .named ++ outlines body))
  | scope span label body | context span label body => .node span (.named label :: outlines body)
  | conditional span test consequentSpan consequent alternate =>
      .node span
        (test.outline :: .node consequentSpan (outlines consequent) :: outlineOf? alternate)
  | forEach span label iterable bodySpan body =>
      .node span [.named label, iterable.outline, .node bodySpan (outlines body)]
  | whileLoop span test bodySpan body =>
      .node span [test.outline, .node bodySpan (outlines body)]
  | loop span bodySpan body => .node span [.node bodySpan (outlines body)]
  | block span body => .node span (outlines body)
  | assign span target _ right => .node span [target.outline, right.outline]
  | imports span file aliasName => .node span (.leaf (.source file) :: Outline.named? aliasName)
  | attempt span bodySpan body caught handlerSpan handler =>
      .node span
        (.node bodySpan (outlines body) ::
          (Outline.named? caught ++ [.node handlerSpan (outlines handler)]))

/-- The outlines of some statements. -/
def outlines : List Stmt → List Outline
  | [] => []
  | statement :: rest => statement.outline :: outlines rest

/-- The outline of a statement, if there is one. -/
def outlineOf? : Option Stmt → List Outline
  | none => []
  | some statement => [statement.outline]

end

theorem outlines_eq_map (statements : List Stmt) :
    outlines statements = statements.map outline := by
  induction statements with
  | nil => rfl
  | cons statement statements inductionHypothesis =>
      rw [outlines, inductionHypothesis, List.map_cons]

end Stmt

namespace Program

/-- The outline of a program. -/
def outline (program : Program) : Outline :=
  .node program.span (Stmt.outlines program.body)

/-- The names and literals of a program from left to right. -/
def leaves (program : Program) : List Leaf :=
  program.outline.leaves

end Program

/-! ## Tokens -/

namespace Token

/-- What the tokens before it make of a token. -/
inductive Role
  | ordinary
  | member
  | source
  deriving DecidableEq

namespace Role

/-- The role of the token behind a token. -/
def next : Role → TokenKind → Role
  | member, _ => ordinary
  | _, .mark .dot => member
  | _, .keyword .kwImport => source
  | _, _ => ordinary

/-- The name or literal that a token is. -/
def leaf? (role : Role) (token : Token) : Option Leaf :=
  match role, token.kind with
  | member, .keyword _ => some (.name token.text)
  | source, .name => some (.source token.text)
  | source, .text => some (.source token.content)
  | _, .name => some (.name token.text)
  | _, .number => some (.number (Decimal.read? token.text))
  | _, .text => some (.text token.content)
  | _, .keyword .kwTrue => some (.truth true)
  | _, .keyword .kwFalse => some (.truth false)
  | _, .keyword .kwNone => some .nothing
  | _, _ => none

end Role

/-- The names and literals among tokens, the first of which has a role. -/
def leavesFrom : Role → List Token → List Leaf
  | _, [] => []
  | role, token :: rest => (role.leaf? token).toList ++ leavesFrom (role.next token.kind) rest

/-- The names and literals among tokens. -/
def leaves (tokens : List Token) : List Leaf :=
  leavesFrom .ordinary tokens

end Token

end ScopeScript
