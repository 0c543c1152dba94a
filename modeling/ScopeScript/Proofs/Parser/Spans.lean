import ScopeScript.Parser.Statement

/-!
# The spans of a tree

`mapSpans` changes all spans of an expression, a statement or a program, and `EverySpan` states
something about all of them. What is written or decided about an expression does not depend on its
spans.
-/

namespace ScopeScript

namespace Expr

mutual

/-- The same expression with other spans. -/
def mapSpans (move : Span → Span) : Expr → Expr
  | number span value => .number (move span) value
  | text span value => .text (move span) value
  | bool span value => .bool (move span) value
  | none span => .none (move span)
  | absent span => .absent (move span)
  | name span label => .name (move span) label
  | binary span left operator right =>
      .binary (move span) (left.mapSpans move) operator (right.mapSpans move)
  | unary span operator operand => .unary (move span) operator (operand.mapSpans move)
  | conditional span test consequent alternate =>
      .conditional (move span) (test.mapSpans move) (consequent.mapSpans move)
        (alternate.mapSpans move)
  | sequence span items => .sequence (move span) (mapSpansAll move items)
  | call span callee argumentsSpan arguments =>
      .call (move span) callee (move argumentsSpan) (mapSpansAll move arguments)
  | member span object nameSpan label =>
      .member (move span) (object.mapSpans move) (move nameSpan) label
  | method span object callSpan callee argumentsSpan arguments =>
      .method (move span) (object.mapSpans move) (move callSpan) callee (move argumentsSpan)
        (mapSpansAll move arguments)
  | index span object key => .index (move span) (object.mapSpans move) (key.mapSpans move)
  | await span operand => .await (move span) (operand.mapSpans move)
  | delete span nameSpan label => .delete (move span) (move nameSpan) label
  | construct span callSpan callee argumentsSpan arguments =>
      .construct (move span) (move callSpan) callee (move argumentsSpan)
        (mapSpansAll move arguments)

/-- The same expressions with other spans. -/
def mapSpansAll (move : Span → Span) : List Expr → List Expr
  | [] => []
  | expr :: rest => expr.mapSpans move :: mapSpansAll move rest

end

mutual

/-- Something holds of all spans of an expression. -/
def EverySpan (P : Span → Prop) : Expr → Prop
  | number span _ | text span _ | bool span _ | none span | absent span | name span _ => P span
  | binary span left _ right => P span ∧ left.EverySpan P ∧ right.EverySpan P
  | unary span _ operand | await span operand => P span ∧ operand.EverySpan P
  | conditional span test consequent alternate =>
      P span ∧ test.EverySpan P ∧ consequent.EverySpan P ∧ alternate.EverySpan P
  | sequence span items => P span ∧ EverySpanAll P items
  | call span _ argumentsSpan arguments =>
      P span ∧ P argumentsSpan ∧ EverySpanAll P arguments
  | member span object nameSpan _ => P span ∧ object.EverySpan P ∧ P nameSpan
  | method span object callSpan _ argumentsSpan arguments =>
      P span ∧ object.EverySpan P ∧ P callSpan ∧ P argumentsSpan ∧ EverySpanAll P arguments
  | index span object key => P span ∧ object.EverySpan P ∧ key.EverySpan P
  | delete span nameSpan _ => P span ∧ P nameSpan
  | construct span callSpan _ argumentsSpan arguments =>
      P span ∧ P callSpan ∧ P argumentsSpan ∧ EverySpanAll P arguments

/-- Something holds of all spans of some expressions. -/
def EverySpanAll (P : Span → Prop) : List Expr → Prop
  | [] => True
  | expr :: rest => expr.EverySpan P ∧ EverySpanAll P rest

end

end Expr

namespace Stmt

mutual

/-- The same statement with other spans. -/
def mapSpans (move : Span → Span) : Stmt → Stmt
  | evaluate span expr => .evaluate (move span) (expr.mapSpans move)
  | returns span argument => .returns (move span) (argument.map (Expr.mapSpans move))
  | yields span argument => .yields (move span) (argument.map (Expr.mapSpans move))
  | throws span argument => .throws (move span) (argument.mapSpans move)
  | breaks span => .breaks (move span)
  | continues span => .continues (move span)
  | declare span name initial isFormula =>
      .declare (move span) name (initial.mapSpans move) isFormula
  | function span name parameters body isAsync =>
      .function (move span) name parameters (mapSpansAll move body) isAsync
  | scope span name body => .scope (move span) name (mapSpansAll move body)
  | context span name body => .context (move span) name (mapSpansAll move body)
  | conditional span test consequentSpan consequent alternate =>
      .conditional (move span) (test.mapSpans move) (move consequentSpan)
        (mapSpansAll move consequent) (mapSpansOf? move alternate)
  | forEach span loopName iterable bodySpan body =>
      .forEach (move span) loopName (iterable.mapSpans move) (move bodySpan)
        (mapSpansAll move body)
  | whileLoop span test bodySpan body =>
      .whileLoop (move span) (test.mapSpans move) (move bodySpan) (mapSpansAll move body)
  | loop span bodySpan body => .loop (move span) (move bodySpan) (mapSpansAll move body)
  | block span body => .block (move span) (mapSpansAll move body)
  | assign span target operator right =>
      .assign (move span) (target.mapSpans move) operator (right.mapSpans move)
  | imports span source aliasName => .imports (move span) source aliasName
  | attempt span bodySpan body caught handlerSpan handler =>
      .attempt (move span) (move bodySpan) (mapSpansAll move body) caught (move handlerSpan)
        (mapSpansAll move handler)

/-- The same statements with other spans. -/
def mapSpansAll (move : Span → Span) : List Stmt → List Stmt
  | [] => []
  | statement :: rest => statement.mapSpans move :: mapSpansAll move rest

/-- The same statement, if there is one, with other spans. -/
def mapSpansOf? (move : Span → Span) : Option Stmt → Option Stmt
  | none => none
  | some statement => some (statement.mapSpans move)

end

mutual

/-- Something holds of all spans of a statement. -/
def EverySpan (P : Span → Prop) : Stmt → Prop
  | breaks span | continues span | imports span _ _ => P span
  | evaluate span expr | throws span expr | declare span _ expr _ => P span ∧ expr.EverySpan P
  | returns span argument | yields span argument =>
      P span ∧ ∀ expr, argument = some expr → expr.EverySpan P
  | function span _ _ body _ | scope span _ body | context span _ body | block span body =>
      P span ∧ EverySpanAll P body
  | conditional span test consequentSpan consequent alternate =>
      P span ∧ test.EverySpan P ∧ P consequentSpan ∧ EverySpanAll P consequent ∧
        EverySpanOf? P alternate
  | forEach span _ expr bodySpan body | whileLoop span expr bodySpan body =>
      P span ∧ expr.EverySpan P ∧ P bodySpan ∧ EverySpanAll P body
  | loop span bodySpan body => P span ∧ P bodySpan ∧ EverySpanAll P body
  | assign span target _ right => P span ∧ target.EverySpan P ∧ right.EverySpan P
  | attempt span bodySpan body _ handlerSpan handler =>
      P span ∧ P bodySpan ∧ EverySpanAll P body ∧ P handlerSpan ∧ EverySpanAll P handler

/-- Something holds of all spans of some statements. -/
def EverySpanAll (P : Span → Prop) : List Stmt → Prop
  | [] => True
  | statement :: rest => statement.EverySpan P ∧ EverySpanAll P rest

/-- Something holds of all spans of a statement, if there is one. -/
def EverySpanOf? (P : Span → Prop) : Option Stmt → Prop
  | none => True
  | some statement => statement.EverySpan P

end

end Stmt

namespace Program

/-- The same program with other spans. -/
def mapSpans (move : Span → Span) (program : Program) : Program :=
  ⟨move program.span, Stmt.mapSpansAll move program.body⟩

/-- Something holds of all spans of a program. -/
def EverySpan (P : Span → Prop) (program : Program) : Prop :=
  P program.span ∧ Stmt.EverySpanAll P program.body

end Program

/-! ## Laws -/

namespace Expr

variable (move : Span → Span) (P : Span → Prop)

theorem mapSpansAll_eq_map (exprs : List Expr) :
    mapSpansAll move exprs = exprs.map (mapSpans move) := by
  induction exprs with
  | nil => rfl
  | cons expr exprs inductionHypothesis => rw [mapSpansAll, inductionHypothesis, List.map_cons]

theorem everySpanAll_iff (exprs : List Expr) :
    EverySpanAll P exprs ↔ ∀ expr ∈ exprs, expr.EverySpan P := by
  induction exprs with
  | nil => simp [EverySpanAll]
  | cons expr exprs inductionHypothesis => simp [EverySpanAll, inductionHypothesis]

/-- The span of a changed node is its changed span. -/
theorem span_mapSpans (expr : Expr) : (expr.mapSpans move).span = move expr.span := by
  cases expr <;> rfl

/-- What holds of every span holds of that of the node. -/
theorem EverySpan.span {P : Span → Prop} {expr : Expr} (every : expr.EverySpan P) :
    P expr.span := by
  cases expr with
  | number | text | bool | none | absent | name => exact every
  | _ => exact every.1

@[simp] theorem isNumber_mapSpans (expr : Expr) :
    (expr.mapSpans move).isNumber = expr.isNumber := by
  cases expr <;> rfl

@[simp] theorem isAssignable_mapSpans (expr : Expr) :
    (expr.mapSpans move).isAssignable = expr.isAssignable := by
  cases expr <;> rfl

mutual

@[simp] theorem render_mapSpans : ∀ expr : Expr, (expr.mapSpans move).render = expr.render
  | number _ _ | text _ _ | bool _ _ | none _ | absent _ | name _ _ | delete _ _ _ => by
      simp only [mapSpans, render]
  | binary _ left _ right => by
      simp only [mapSpans, render, render_mapSpans left, render_mapSpans right]
  | unary _ _ operand | await _ operand => by
      simp only [mapSpans, render, render_mapSpans operand]
  | conditional _ test consequent alternate => by
      simp only [mapSpans, render, render_mapSpans test, render_mapSpans consequent,
        render_mapSpans alternate]
  | sequence _ arguments | call _ _ _ arguments | construct _ _ _ _ arguments => by
      simp only [mapSpans, render, renderAll_mapSpansAll arguments]
  | member _ object _ _ => by simp only [mapSpans, render, render_mapSpans object]
  | method _ object _ _ _ arguments => by
      simp only [mapSpans, render, render_mapSpans object, renderAll_mapSpansAll arguments]
  | index _ object key => by
      simp only [mapSpans, render, render_mapSpans object, render_mapSpans key]

theorem renderAll_mapSpansAll :
    ∀ exprs : List Expr, renderAll (mapSpansAll move exprs) = renderAll exprs
  | [] => rfl
  | expr :: rest => by
      simp only [mapSpansAll, renderAll, render_mapSpans expr, renderAll_mapSpansAll rest]

end

section

variable {move} {P Q : Span → Prop}

mutual

/-- Every changed span has a property if the change brings it about. -/
theorem everySpan_mapSpans (moved : ∀ span, P span → Q (move span)) :
    ∀ expr : Expr, expr.EverySpan P → (expr.mapSpans move).EverySpan Q
  | number _ _, every | text _ _, every | bool _ _, every | none _, every | absent _, every
  | name _ _, every => moved _ every
  | binary _ left _ right, ⟨span, leftEvery, rightEvery⟩ =>
      ⟨moved _ span, everySpan_mapSpans moved left leftEvery,
        everySpan_mapSpans moved right rightEvery⟩
  | unary _ _ operand, ⟨span, every⟩ | await _ operand, ⟨span, every⟩ =>
      ⟨moved _ span, everySpan_mapSpans moved operand every⟩
  | conditional _ test consequent alternate, ⟨span, testEvery, consequentEvery, alternateEvery⟩ =>
      ⟨moved _ span, everySpan_mapSpans moved test testEvery,
        everySpan_mapSpans moved consequent consequentEvery,
        everySpan_mapSpans moved alternate alternateEvery⟩
  | sequence _ items, ⟨span, every⟩ => ⟨moved _ span, everySpanAll_mapSpansAll moved items every⟩
  | call _ _ _ arguments, ⟨span, argumentsSpan, every⟩ =>
      ⟨moved _ span, moved _ argumentsSpan, everySpanAll_mapSpansAll moved arguments every⟩
  | member _ object _ _, ⟨span, every, nameSpan⟩ =>
      ⟨moved _ span, everySpan_mapSpans moved object every, moved _ nameSpan⟩
  | method _ object _ _ _ arguments, ⟨span, objectEvery, callSpan, argumentsSpan, every⟩ =>
      ⟨moved _ span, everySpan_mapSpans moved object objectEvery, moved _ callSpan,
        moved _ argumentsSpan, everySpanAll_mapSpansAll moved arguments every⟩
  | index _ object key, ⟨span, objectEvery, keyEvery⟩ =>
      ⟨moved _ span, everySpan_mapSpans moved object objectEvery,
        everySpan_mapSpans moved key keyEvery⟩
  | delete _ _ _, ⟨span, nameSpan⟩ => ⟨moved _ span, moved _ nameSpan⟩
  | construct _ _ _ _ arguments, ⟨span, callSpan, argumentsSpan, every⟩ =>
      ⟨moved _ span, moved _ callSpan, moved _ argumentsSpan,
        everySpanAll_mapSpansAll moved arguments every⟩

theorem everySpanAll_mapSpansAll (moved : ∀ span, P span → Q (move span)) :
    ∀ exprs : List Expr, EverySpanAll P exprs → EverySpanAll Q (mapSpansAll move exprs)
  | [], _ => trivial
  | expr :: rest, ⟨first, every⟩ =>
      ⟨everySpan_mapSpans moved expr first, everySpanAll_mapSpansAll moved rest every⟩

end

end

end Expr

namespace Stmt

variable (move : Span → Span) (P : Span → Prop)

theorem mapSpansAll_eq_map (statements : List Stmt) :
    mapSpansAll move statements = statements.map (mapSpans move) := by
  induction statements with
  | nil => rfl
  | cons statement statements inductionHypothesis =>
      rw [mapSpansAll, inductionHypothesis, List.map_cons]

theorem everySpanAll_iff (statements : List Stmt) :
    EverySpanAll P statements ↔ ∀ statement ∈ statements, statement.EverySpan P := by
  induction statements with
  | nil => simp [EverySpanAll]
  | cons statement statements inductionHypothesis => simp [EverySpanAll, inductionHypothesis]

section

variable {move} {P Q : Span → Prop}

mutual

/-- Every changed span of a statement has a property if the change brings it about. -/
theorem everySpan_mapSpans (moved : ∀ span, P span → Q (move span)) :
    ∀ statement : Stmt, statement.EverySpan P → (statement.mapSpans move).EverySpan Q
  | breaks _, every | continues _, every | imports _ _ _, every => moved _ every
  | evaluate _ expr, ⟨span, every⟩ | throws _ expr, ⟨span, every⟩
  | declare _ _ expr _, ⟨span, every⟩ => ⟨moved _ span, Expr.everySpan_mapSpans moved expr every⟩
  | returns _ argument, ⟨span, every⟩ | yields _ argument, ⟨span, every⟩ => by
      refine ⟨moved _ span, fun _ found => ?_⟩
      obtain ⟨expr, given, rfl⟩ := Option.map_eq_some_iff.1 found
      exact Expr.everySpan_mapSpans moved expr (every expr given)
  | function _ _ _ body _, ⟨span, every⟩ | scope _ _ body, ⟨span, every⟩
  | context _ _ body, ⟨span, every⟩ | block _ body, ⟨span, every⟩ =>
      ⟨moved _ span, everySpanAll_mapSpansAll moved body every⟩
  | conditional _ test _ consequent alternate,
      ⟨span, testEvery, consequentSpan, consequentEvery, alternateEvery⟩ =>
      ⟨moved _ span, Expr.everySpan_mapSpans moved test testEvery, moved _ consequentSpan,
        everySpanAll_mapSpansAll moved consequent consequentEvery,
        everySpanOf?_mapSpansOf? moved alternate alternateEvery⟩
  | forEach _ _ expr _ body, ⟨span, exprEvery, bodySpan, every⟩
  | whileLoop _ expr _ body, ⟨span, exprEvery, bodySpan, every⟩ =>
      ⟨moved _ span, Expr.everySpan_mapSpans moved expr exprEvery, moved _ bodySpan,
        everySpanAll_mapSpansAll moved body every⟩
  | loop _ _ body, ⟨span, bodySpan, every⟩ =>
      ⟨moved _ span, moved _ bodySpan, everySpanAll_mapSpansAll moved body every⟩
  | assign _ target _ right, ⟨span, targetEvery, rightEvery⟩ =>
      ⟨moved _ span, Expr.everySpan_mapSpans moved target targetEvery,
        Expr.everySpan_mapSpans moved right rightEvery⟩
  | attempt _ _ body _ _ handler, ⟨span, bodySpan, every, handlerSpan, handlerEvery⟩ =>
      ⟨moved _ span, moved _ bodySpan, everySpanAll_mapSpansAll moved body every,
        moved _ handlerSpan, everySpanAll_mapSpansAll moved handler handlerEvery⟩

theorem everySpanAll_mapSpansAll (moved : ∀ span, P span → Q (move span)) :
    ∀ statements : List Stmt,
      EverySpanAll P statements → EverySpanAll Q (mapSpansAll move statements)
  | [], _ => trivial
  | statement :: rest, ⟨first, every⟩ =>
      ⟨everySpan_mapSpans moved statement first, everySpanAll_mapSpansAll moved rest every⟩

theorem everySpanOf?_mapSpansOf? (moved : ∀ span, P span → Q (move span)) :
    ∀ statement? : Option Stmt,
      EverySpanOf? P statement? → EverySpanOf? Q (mapSpansOf? move statement?)
  | none, _ => trivial
  | some statement, every => everySpan_mapSpans moved statement every

end

end

end Stmt

/-- And so has every changed span of a program. -/
theorem Program.EverySpan.mapSpans {move : Span → Span} {P Q : Span → Prop} {program : Program}
    (every : program.EverySpan P) (moved : ∀ span, P span → Q (move span)) :
    (program.mapSpans move).EverySpan Q :=
  ⟨moved _ every.1, Stmt.everySpanAll_mapSpansAll moved program.body every.2⟩

end ScopeScript
