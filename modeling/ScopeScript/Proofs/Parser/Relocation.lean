import ScopeScript.Proofs.Parser.Spans

/-!
# Parsing with other spans

A parser looks at the kinds and lexemes of tokens, and treats their spans as labels: it copies them
into the tree and joins them. So if the spans of all tokens are changed in a way that respects
joining, a `Relocation`, the same tree is read with its spans changed in the same way, or the same
fault is found at the changed place.

`Relocation.Commutes` says this of a parser that may use spans read before; its counterpart for the
changed stream uses the changed spans. It is closed under sequencing, so it is shown for each
production by following its text.
-/

namespace ScopeScript

/-- A way to change spans that respects joining, at least where the spans are covered. -/
structure Relocation where
  move : Span → Span
  Covers : Span → Prop
  covers_extend : ∀ {span other}, Covers span → Covers other → Covers (span.extend other)
  move_extend : ∀ {span other}, Covers span → Covers other →
    move (span.extend other) = (move span).extend (move other)

namespace Relocation

open ScopeScript.Parser (Stream Fault Operands)

variable (relocation : Relocation)

/-- A token at its new place. -/
def token (token : Token) : Token :=
  { token with span := relocation.move token.span }

@[simp] theorem kind_token (token : Token) : (relocation.token token).kind = token.kind := rfl

@[simp] theorem text_token (token : Token) : (relocation.token token).text = token.text := rfl

@[simp] theorem content_token (token : Token) :
    (relocation.token token).content = token.content := rfl

/-- A stream with all tokens at their new places. -/
def stream (stream : Stream) : Stream :=
  ⟨stream.tokens.map relocation.token, stream.previous?.map relocation.move,
    relocation.move stream.endSpan⟩

/-- A fault at its new place. -/
def fault (fault : Fault) : Fault :=
  { fault with span := relocation.move fault.span }

/-- All spans of a stream are covered. -/
structure CoversStream (stream : Stream) : Prop where
  tokens : ∀ token ∈ stream.tokens, relocation.Covers token.span
  previous? : ∀ span, stream.previous? = some span → relocation.Covers span
  endSpan : relocation.Covers stream.endSpan

/-- A covered span and what it becomes. -/
def OfSpan (span moved : Span) : Prop :=
  moved = relocation.move span ∧ relocation.Covers span

/-- A covered token and what it becomes. -/
def OfToken (token moved : Token) : Prop :=
  moved = relocation.token token ∧ relocation.Covers token.span

/-- A covered expression and what it becomes. -/
def OfExpr (expr moved : Expr) : Prop :=
  moved = expr.mapSpans relocation.move ∧ expr.EverySpan relocation.Covers

/-- Covered expressions and what they become. -/
def OfExprs (exprs moved : List Expr) : Prop :=
  moved = Expr.mapSpansAll relocation.move exprs ∧ Expr.EverySpanAll relocation.Covers exprs

/-- A covered span with covered expressions, and what they become. -/
def OfEnclosed (items moved : Span × List Expr) : Prop :=
  relocation.OfSpan items.1 moved.1 ∧ relocation.OfExprs items.2 moved.2

/-- A covered statement and what it becomes. -/
def OfStmt (statement moved : Stmt) : Prop :=
  moved = statement.mapSpans relocation.move ∧ statement.EverySpan relocation.Covers

/-- Covered statements and what they become. -/
def OfStmts (statements moved : List Stmt) : Prop :=
  moved = Stmt.mapSpansAll relocation.move statements ∧
    Stmt.EverySpanAll relocation.Covers statements

/-- A covered span with covered statements, and what they become. -/
def OfBody (body moved : Span × List Stmt) : Prop :=
  relocation.OfSpan body.1 moved.1 ∧ relocation.OfStmts body.2 moved.2

/-- A covered program and what it becomes. -/
def OfProgram (program moved : Program) : Prop :=
  moved = program.mapSpans relocation.move ∧ program.EverySpan relocation.Covers

/-- A parser and its counterpart for changed streams read corresponding results or end with
corresponding faults. -/
def Commutes (Corresponds : α → α → Prop) (parser moved : Parser α) : Prop :=
  ∀ stream, relocation.CoversStream stream →
    match parser stream with
    | .ok (value, rest) =>
        relocation.CoversStream rest ∧ ∃ other, Corresponds value other ∧
          moved (relocation.stream stream) = .ok (other, relocation.stream rest)
    | .error fault =>
        relocation.Covers fault.span ∧
          moved (relocation.stream stream) = .error (relocation.fault fault)

variable {relocation} {Corresponds : α → α → Prop}

namespace Commutes

/-- A parser that reads nothing has corresponding results if its values correspond. -/
theorem result {value moved : α} (corresponds : Corresponds value moved) :
    relocation.Commutes Corresponds (pure value) (pure moved) :=
  fun _ covered => ⟨covered, moved, corresponds, rfl⟩

/-- Two parsers in a row commute with the change of spans if each does, the second one for all
corresponding values that the first one may have read. -/
theorem bind {First : β → β → Prop} {first firstMoved : Parser β} {next nextMoved : β → Parser α}
    (firstCommutes : relocation.Commutes First first firstMoved)
    (nextCommutes : ∀ value moved, First value moved →
      relocation.Commutes Corresponds (next value) (nextMoved moved)) :
    relocation.Commutes Corresponds (first >>= next) (firstMoved >>= nextMoved) := by
  intro stream covered
  have ran := firstCommutes stream covered
  have unfolded : ∀ (parser : Parser β) (after : β → Parser α) (stream : Stream),
      (parser >>= after) stream = (parser stream).bind fun read => after read.1 read.2 :=
    fun _ _ _ => rfl
  rw [unfolded, unfolded]
  cases found : first stream with
  | error fault =>
      rw [found] at ran
      exact ⟨ran.1, by simp only [ran.2, Except.bind]⟩
  | ok read =>
      rw [found] at ran
      obtain ⟨coveredRest, moved, corresponds, foundMoved⟩ := ran
      rw [foundMoved]
      exact nextCommutes read.1 moved corresponds read.2 coveredRest

/-- The first parser reads something without spans. -/
theorem bind_eq {first firstMoved : Parser β} {next nextMoved : β → Parser α}
    (firstCommutes : relocation.Commutes Eq first firstMoved)
    (nextCommutes : ∀ value, relocation.Commutes Corresponds (next value) (nextMoved value)) :
    relocation.Commutes Corresponds (first >>= next) (firstMoved >>= nextMoved) :=
  firstCommutes.bind fun value _ same => same ▸ nextCommutes value

/-- The condition says nothing about spans, so both readings decide it alike. -/
theorem ite {condition : Prop} [Decidable condition] {yes yesMoved no noMoved : Parser α}
    (yesCommutes : relocation.Commutes Corresponds yes yesMoved)
    (noCommutes : relocation.Commutes Corresponds no noMoved) :
    relocation.Commutes Corresponds (if condition then yes else no)
      (if condition then yesMoved else noMoved) := by
  by_cases holds : condition
  · rwa [if_pos holds, if_pos holds]
  · rwa [if_neg holds, if_neg holds]

/-! ## Streams -/

theorem front? :
    relocation.Commutes (Option.Rel relocation.OfToken) Parser.front? Parser.front? := by
  rintro ⟨tokens, previous?, endSpan⟩ covered
  refine ⟨covered, (tokens.map relocation.token).head?, ?_, rfl⟩
  cases tokens with
  | nil => exact .none
  | cons token rest => exact .some ⟨rfl, covered.tokens token List.mem_cons_self⟩

theorem frontKind? : relocation.Commutes Eq Parser.frontKind? Parser.frontKind? := by
  refine front?.bind fun _ _ corresponds => result ?_
  cases corresponds with
  | none => rfl
  | some same =>
      rw [same.1]
      rfl

theorem secondKind? : relocation.Commutes Eq Parser.secondKind? Parser.secondKind? := by
  rintro ⟨tokens, previous?, endSpan⟩ covered
  refine ⟨covered, _, rfl, ?_⟩
  rcases tokens with _ | ⟨first, _ | ⟨second, rest⟩⟩ <;> rfl

theorem isAt (kind : TokenKind) :
    relocation.Commutes Eq (Parser.isAt kind) (Parser.isAt kind) :=
  frontKind?.bind_eq fun _ => result rfl

theorem isAtMark (mark : Mark) :
    relocation.Commutes Eq (Parser.isAtMark mark) (Parser.isAtMark mark) :=
  isAt _

theorem isAtEnd : relocation.Commutes Eq Parser.isAtEnd Parser.isAtEnd := by
  refine front?.bind fun _ _ corresponds => result ?_
  cases corresponds <;> rfl

/-- The span of what comes next moves with the tokens. -/
theorem here : relocation.Commutes relocation.OfSpan Parser.here Parser.here := by
  rintro ⟨tokens, previous?, endSpan⟩ covered
  cases tokens with
  | nil => exact ⟨covered, _, ⟨rfl, covered.endSpan⟩, rfl⟩
  | cons token rest =>
      exact ⟨covered, _, ⟨rfl, covered.tokens token List.mem_cons_self⟩, rfl⟩

/-- The token that is passed becomes the previous one in both streams. -/
theorem advance : relocation.Commutes Eq Parser.advance Parser.advance := by
  rintro ⟨tokens, previous?, endSpan⟩ covered
  cases tokens with
  | nil => exact ⟨covered, (), rfl, rfl⟩
  | cons token rest =>
      refine ⟨⟨?_, ?_, covered.endSpan⟩, (), rfl, rfl⟩
      · exact fun other member => covered.tokens other (List.mem_cons_of_mem _ member)
      · rintro _ ⟨⟩
        exact covered.tokens token List.mem_cons_self

/-- Joining is respected by every relocation, so a span that is closed moves as a whole. -/
theorem since {start moved : Span} (corresponds : relocation.OfSpan start moved) :
    relocation.Commutes relocation.OfSpan (Parser.since start) (Parser.since moved) := by
  obtain ⟨rfl, coveredStart⟩ := corresponds
  rintro ⟨tokens, _ | previous, endSpan⟩ covered
  · refine ⟨covered, _, ⟨?_, relocation.covers_extend coveredStart coveredStart⟩, rfl⟩
    exact (relocation.move_extend coveredStart coveredStart).symm
  · have coveredPrevious := covered.previous? previous rfl
    refine ⟨covered, _, ⟨?_, relocation.covers_extend coveredStart coveredPrevious⟩, rfl⟩
    exact (relocation.move_extend coveredStart coveredPrevious).symm

/-- Corresponding places make corresponding faults. -/
theorem fail {span moved : Span} (corresponds : relocation.OfSpan span moved)
    (cause : Parser.Cause) :
    relocation.Commutes Corresponds (Parser.fail span cause) (Parser.fail moved cause) := by
  obtain ⟨rfl, covered⟩ := corresponds
  exact fun _ _ => ⟨covered, rfl⟩

/-- What was found is described by its kind and text, and these do not move. -/
theorem unexpected (wanted : String) :
    relocation.Commutes Corresponds (Parser.unexpected wanted) (Parser.unexpected wanted) := by
  refine here.bind fun span moved place => front?.bind fun _ _ corresponds => ?_
  cases corresponds with
  | none => exact fail place _
  | some same =>
      rw [same.1]
      exact fail place _

theorem accept (kind : TokenKind) :
    relocation.Commutes Eq (Parser.accept kind) (Parser.accept kind) := by
  refine (isAt kind).bind_eq fun found => ?_
  cases found with
  | true => exact advance.bind_eq fun _ => result rfl
  | false => exact result rfl

theorem acceptMark (mark : Mark) :
    relocation.Commutes Eq (Parser.acceptMark mark) (Parser.acceptMark mark) :=
  accept _

/-- The token that is demanded is read at its new place, and what stands there instead is reported
there. -/
theorem expect (kind : TokenKind) :
    relocation.Commutes relocation.OfToken (Parser.expect kind) (Parser.expect kind) := by
  refine front?.bind fun _ _ corresponds => ?_
  cases corresponds with
  | none => exact unexpected _
  | @some token moved same =>
      obtain ⟨rfl, covered⟩ := same
      exact ite (advance.bind_eq fun _ => result ⟨rfl, covered⟩) (unexpected _)

theorem expectMark (mark : Mark) :
    relocation.Commutes Eq (Parser.expectMark mark) (Parser.expectMark mark) :=
  (expect _).bind fun _ _ _ => result rfl

theorem expectKeyword (keyword : Keyword) :
    relocation.Commutes Eq (Parser.expectKeyword keyword) (Parser.expectKeyword keyword) :=
  (expect _).bind fun _ _ _ => result rfl

theorem identifier : relocation.Commutes Eq Parser.identifier Parser.identifier := by
  refine (expect _).bind fun _ _ same => result ?_
  rw [same.1]
  rfl

theorem memberName : relocation.Commutes Eq Parser.memberName Parser.memberName := by
  refine front?.bind fun _ _ corresponds => ?_
  cases corresponds with
  | none => exact identifier
  | @some token moved same =>
      obtain ⟨rfl, _⟩ := same
      simp only [kind_token, text_token]
      split
      · exact advance.bind_eq fun _ => result rfl
      · exact identifier

/-! ## Expressions -/

/-- The parsers that expressions are made of recursively commute. -/
structure OfOperands (relocation : Relocation) (operands : Operands) : Prop where
  expression : relocation.Commutes relocation.OfExpr operands.expression operands.expression
  unary : relocation.Commutes relocation.OfExpr operands.unary operands.unary

variable {operands : Operands}

theorem operatorAhead? (level : Parser.Level) :
    relocation.Commutes Eq (Parser.operatorAhead? level) (Parser.operatorAhead? level) :=
  frontKind?.bind_eq fun _ => result rfl

/-- Lists of items are collected backwards; turning them round keeps what corresponds. -/
theorem ofExprs_reverse {exprs moved : List Expr} (corresponds : relocation.OfExprs exprs moved) :
    relocation.OfExprs exprs.reverse moved.reverse := by
  obtain ⟨rfl, covered⟩ := corresponds
  refine ⟨?_, ?_⟩
  · rw [Expr.mapSpansAll_eq_map, Expr.mapSpansAll_eq_map, List.map_reverse]
  · rw [Expr.everySpanAll_iff] at covered ⊢
    simpa using covered

/-- The items up to a closing mark, by induction on the fuel, which is that of both readings. -/
theorem itemsUntil (commute : OfOperands relocation operands) (close : Mark) (fuel : Nat)
    {items moved : List Expr} (corresponds : relocation.OfExprs items moved) :
    relocation.Commutes relocation.OfExprs (Parser.itemsUntil operands close fuel items)
      (Parser.itemsUntil operands close fuel moved) := by
  induction fuel generalizing items moved with
  | zero => exact result (ofExprs_reverse corresponds)
  | succ fuel inductionHypothesis =>
      refine (isAtMark close).bind_eq fun closed => ?_
      cases closed with
      | true => exact result (ofExprs_reverse corresponds)
      | false =>
          refine commute.expression.bind fun item movedItem same => ?_
          have longer : relocation.OfExprs (item :: items) (movedItem :: moved) := by
            obtain ⟨rfl, covered⟩ := corresponds
            obtain ⟨rfl, coveredItem⟩ := same
            exact ⟨rfl, coveredItem, covered⟩
          refine (acceptMark .comma).bind_eq fun goesOn => ?_
          cases goesOn with
          | true => exact inductionHypothesis longer
          | false => exact result (ofExprs_reverse longer)

/-- An enclosed list moves together with the span from its opening to its closing mark. -/
theorem enclosedItems (commute : OfOperands relocation operands) (opening close : Mark) :
    relocation.Commutes relocation.OfEnclosed (Parser.enclosedItems operands opening close)
      (Parser.enclosedItems operands opening close) := by
  have nothing : relocation.OfExprs [] [] := ⟨rfl, trivial⟩
  refine here.bind fun start movedStart place => (expectMark opening).bind_eq fun _ => ?_
  refine (itemsUntil commute close _ nothing).bind fun items movedItems corresponds => ?_
  refine (expectMark close).bind_eq fun _ => ?_
  exact (since place).bind fun span movedSpan whole => result ⟨whole, corresponds⟩

/-- The arguments of a call are a list in parentheses. -/
theorem callArguments (commute : OfOperands relocation operands) :
    relocation.Commutes relocation.OfEnclosed (Parser.callArguments operands)
      (Parser.callArguments operands) :=
  enclosedItems commute _ _

/-- A primary expression is chosen by the kind of its first token, so both readings take the same
branch. -/
theorem primary (commute : OfOperands relocation operands) :
    relocation.Commutes relocation.OfExpr (Parser.primary operands) (Parser.primary operands) := by
  refine here.bind fun start _ place => front?.bind fun _ _ corresponds => ?_
  cases corresponds with
  | none => exact unexpected _
  | @some token moved same =>
      obtain ⟨rfl, _⟩ := same
      have start := place
      obtain ⟨rfl, coveredStart⟩ := place
      simp only [kind_token, text_token, content_token]
      split
      · refine advance.bind_eq fun _ => ?_
        split
        · exact result ⟨rfl, coveredStart⟩
        · exact fail start _
      · exact advance.bind_eq fun _ => result ⟨rfl, coveredStart⟩
      · exact advance.bind_eq fun _ => result ⟨rfl, coveredStart⟩
      · exact advance.bind_eq fun _ => result ⟨rfl, coveredStart⟩
      · exact advance.bind_eq fun _ => result ⟨rfl, coveredStart⟩
      · refine advance.bind_eq fun _ => (isAtMark _).bind_eq fun isCall => ?_
        cases isCall with
        | true =>
            refine (callArguments commute).bind ?_
            rintro ⟨argumentsSpan, arguments⟩ ⟨_, _⟩ ⟨⟨rfl, coveredSpan⟩, rfl, coveredArguments⟩
            refine (since start).bind ?_
            rintro span _ ⟨rfl, covered⟩
            exact result ⟨rfl, covered, coveredSpan, coveredArguments⟩
        | false => exact result ⟨rfl, coveredStart⟩
      · refine advance.bind_eq fun _ => commute.expression.bind fun _ _ corresponds => ?_
        exact (expectMark _).bind_eq fun _ => result corresponds
      · refine (enclosedItems commute _ _).bind ?_
        rintro ⟨span, items⟩ ⟨_, _⟩ ⟨⟨rfl, covered⟩, rfl, coveredItems⟩
        exact result ⟨rfl, covered, coveredItems⟩
      · exact unexpected _

/-- The members, calls and keys behind an object, whose span starts where the object does. -/
theorem membersOf (commute : OfOperands relocation operands) {start movedStart : Span}
    (place : relocation.OfSpan start movedStart) (fuel : Nat) {object moved : Expr}
    (corresponds : relocation.OfExpr object moved) :
    relocation.Commutes relocation.OfExpr (Parser.membersOf operands start fuel object)
      (Parser.membersOf operands movedStart fuel moved) := by
  induction fuel generalizing object moved with
  | zero => exact result corresponds
  | succ fuel inductionHypothesis =>
      obtain ⟨rfl, coveredObject⟩ := corresponds
      refine (acceptMark .dot).bind_eq fun dot => ?_
      cases dot with
      | true =>
          refine here.bind fun nameSpan movedName namePlace => memberName.bind_eq fun name => ?_
          refine (isAtMark _).bind_eq fun isCall => ?_
          cases isCall with
          | true =>
              refine (callArguments commute).bind ?_
              rintro ⟨argumentsSpan, arguments⟩ ⟨_, _⟩ ⟨⟨rfl, coveredSpan⟩, rfl, coveredArguments⟩
              refine (since namePlace).bind ?_
              rintro callSpan _ ⟨rfl, coveredCall⟩
              refine (since place).bind ?_
              rintro span _ ⟨rfl, covered⟩
              exact inductionHypothesis
                ⟨rfl, covered, coveredObject, coveredCall, coveredSpan, coveredArguments⟩
          | false =>
              obtain ⟨rfl, coveredName⟩ := namePlace
              refine (since place).bind ?_
              rintro span _ ⟨rfl, covered⟩
              exact inductionHypothesis ⟨rfl, covered, coveredObject, coveredName⟩
      | false =>
          refine (acceptMark .leftBracket).bind_eq fun bracket => ?_
          cases bracket with
          | true =>
              refine commute.expression.bind ?_
              rintro key _ ⟨rfl, coveredKey⟩
              refine (expectMark _).bind_eq fun _ => (since place).bind ?_
              rintro span _ ⟨rfl, covered⟩
              exact inductionHypothesis ⟨rfl, covered, coveredObject, coveredKey⟩
          | false => exact result ⟨rfl, coveredObject⟩

/-- A primary expression with what is appended to it. -/
theorem withMembers (commute : OfOperands relocation operands) :
    relocation.Commutes relocation.OfExpr (Parser.withMembers operands)
      (Parser.withMembers operands) :=
  here.bind fun _ _ place => (primary commute).bind fun _ _ corresponds =>
    membersOf commute place _ corresponds

/-- A power, with the exponent read as an operand of a unary operator. -/
theorem power (commute : OfOperands relocation operands) :
    relocation.Commutes relocation.OfExpr (Parser.power operands) (Parser.power operands) := by
  refine here.bind fun start movedStart place => (withMembers commute).bind ?_
  rintro base _ ⟨rfl, coveredBase⟩
  refine (acceptMark .caret).bind_eq fun caret => ?_
  cases caret with
  | true =>
      refine commute.unary.bind ?_
      rintro exponent _ ⟨rfl, coveredExponent⟩
      refine (since place).bind ?_
      rintro span _ ⟨rfl, covered⟩
      exact result ⟨rfl, covered, coveredBase, coveredExponent⟩
  | false => exact result ⟨rfl, coveredBase⟩

/-- An operand with the operators in front of it and behind it. -/
theorem unaryStep (commute : OfOperands relocation operands) :
    relocation.Commutes relocation.OfExpr (Parser.unaryStep operands)
      (Parser.unaryStep operands) := by
  refine here.bind fun start movedStart place => frontKind?.bind_eq fun kind? => ?_
  cases kind? with
  | none => exact power commute
  | some kind =>
      dsimp only
      split
      · refine advance.bind_eq fun _ => commute.unary.bind ?_
        rintro operand _ ⟨rfl, coveredOperand⟩
        refine (since place).bind ?_
        rintro span _ ⟨rfl, covered⟩
        exact result ⟨rfl, covered, coveredOperand⟩
      · refine advance.bind_eq fun _ => commute.unary.bind ?_
        rintro operand _ ⟨rfl, coveredOperand⟩
        refine (since place).bind ?_
        rintro span _ ⟨rfl, covered⟩
        exact result ⟨rfl, covered, coveredOperand⟩
      · refine advance.bind_eq fun _ => here.bind ?_
        rintro nameSpan _ ⟨rfl, coveredName⟩
        refine identifier.bind_eq fun name => (since place).bind ?_
        rintro span _ ⟨rfl, covered⟩
        exact result ⟨rfl, covered, coveredName⟩
      · refine advance.bind_eq fun _ => here.bind fun callStart movedCall callPlace => ?_
        refine (isAt _).bind_eq fun isName => secondKind?.bind_eq fun second? => ?_
        have constructed : relocation.Commutes relocation.OfExpr
            (do
              let callee ← Parser.identifier
              let arguments ← Parser.callArguments operands
              let callSpan ← Parser.since callStart
              return .construct (← Parser.since start) callSpan callee arguments.1 arguments.2)
            (do
              let callee ← Parser.identifier
              let arguments ← Parser.callArguments operands
              let callSpan ← Parser.since movedCall
              return .construct (← Parser.since movedStart) callSpan callee arguments.1
                arguments.2) := by
          refine identifier.bind_eq fun callee => (callArguments commute).bind ?_
          rintro ⟨argumentsSpan, arguments⟩ ⟨_, _⟩ ⟨⟨rfl, coveredSpan⟩, rfl, coveredArguments⟩
          refine (since callPlace).bind ?_
          rintro callSpan _ ⟨rfl, coveredCall⟩
          refine (since place).bind ?_
          rintro span _ ⟨rfl, covered⟩
          exact result ⟨rfl, covered, coveredCall, coveredSpan, coveredArguments⟩
        split
        · exact (unexpected _).bind_eq fun _ => constructed
        · exact constructed
      · exact power commute

/-- The rest of a chain of operators of one level, by induction on the fuel. -/
theorem chainFrom (level : Parser.Level) {operand : Parser Expr}
    (commutes : relocation.Commutes relocation.OfExpr operand operand) {start movedStart : Span}
    (place : relocation.OfSpan start movedStart) (fuel : Nat) {left moved : Expr}
    (corresponds : relocation.OfExpr left moved) :
    relocation.Commutes relocation.OfExpr (Parser.chainFrom level operand start fuel left)
      (Parser.chainFrom level operand movedStart fuel moved) := by
  induction fuel generalizing left moved with
  | zero => exact result corresponds
  | succ fuel inductionHypothesis =>
      obtain ⟨rfl, coveredLeft⟩ := corresponds
      refine (operatorAhead? level).bind_eq fun operator? => ?_
      cases operator? with
      | none => exact result ⟨rfl, coveredLeft⟩
      | some operator =>
          refine advance.bind_eq fun _ => commutes.bind ?_
          rintro right _ ⟨rfl, coveredRight⟩
          refine (since place).bind ?_
          rintro span _ ⟨rfl, covered⟩
          exact inductionHypothesis ⟨rfl, covered, coveredLeft, coveredRight⟩

/-- A chain of operators of one level. -/
theorem chain (fuel : Nat) (level : Parser.Level) {operand : Parser Expr}
    (commutes : relocation.Commutes relocation.OfExpr operand operand) :
    relocation.Commutes relocation.OfExpr (Parser.chain fuel level operand)
      (Parser.chain fuel level operand) :=
  here.bind fun _ _ place => commutes.bind fun _ _ corresponds =>
    chainFrom level commutes place fuel corresponds

/-- The factors behind a product, those without a star among them: whether a number stands in front
is seen from the tree, which does not change its form. -/
theorem factorsFrom (commute : OfOperands relocation operands) {start movedStart : Span}
    (place : relocation.OfSpan start movedStart) (fuel : Nat) {left moved : Expr}
    (corresponds : relocation.OfExpr left moved) :
    relocation.Commutes relocation.OfExpr (Parser.factorsFrom operands start fuel left)
      (Parser.factorsFrom operands movedStart fuel moved) := by
  induction fuel generalizing left moved with
  | zero => exact result corresponds
  | succ fuel inductionHypothesis =>
      obtain ⟨rfl, coveredLeft⟩ := corresponds
      have goesOn : ∀ operator : BinaryOperator, relocation.Commutes relocation.OfExpr
          (do
            let right ← Parser.unaryStep operands
            Parser.factorsFrom operands start fuel
              (.binary (← Parser.since start) left operator right))
          (do
            let right ← Parser.unaryStep operands
            Parser.factorsFrom operands movedStart fuel
              (.binary (← Parser.since movedStart) (left.mapSpans relocation.move) operator
                right)) := by
        intro operator
        refine (unaryStep commute).bind ?_
        rintro right _ ⟨rfl, coveredRight⟩
        refine (since place).bind ?_
        rintro span _ ⟨rfl, covered⟩
        exact inductionHypothesis ⟨rfl, covered, coveredLeft, coveredRight⟩
      refine (isAt _).bind_eq fun isName => (isAtMark _).bind_eq fun isParen => ?_
      simp only [Expr.isNumber_mapSpans]
      cases left.isNumber && (isName || isParen) with
      | true => exact goesOn .multiply
      | false =>
          refine (operatorAhead? _).bind_eq fun operator? => ?_
          cases operator? with
          | none => exact result ⟨rfl, coveredLeft⟩
          | some operator => exact advance.bind_eq fun _ => goesOn operator

/-- A product with all its factors. -/
theorem product (commute : OfOperands relocation operands) :
    relocation.Commutes relocation.OfExpr (Parser.product operands) (Parser.product operands) :=
  here.bind fun _ _ place => (unaryStep commute).bind fun _ _ corresponds =>
    factorsFrom commute place _ corresponds

/-- All binary levels, the loosest one outside, by induction on the list of levels. -/
theorem binaryOf (commute : OfOperands relocation operands) (levels : List Parser.Level) :
    relocation.Commutes relocation.OfExpr (Parser.binaryOf operands levels)
      (Parser.binaryOf operands levels) := by
  induction levels with
  | nil => exact product commute
  | cons level levels inductionHypothesis => exact chain _ level inductionHypothesis

/-- An expression: a condition or what it is made of. -/
theorem expressionStep (commute : OfOperands relocation operands) :
    relocation.Commutes relocation.OfExpr (Parser.expressionStep operands)
      (Parser.expressionStep operands) := by
  refine here.bind fun start movedStart place => (binaryOf commute _).bind ?_
  rintro test _ ⟨rfl, coveredTest⟩
  refine (acceptMark .question).bind_eq fun question => ?_
  cases question with
  | true =>
      refine commute.expression.bind ?_
      rintro consequent _ ⟨rfl, coveredConsequent⟩
      refine (expectMark _).bind_eq fun _ => commute.expression.bind ?_
      rintro alternate _ ⟨rfl, coveredAlternate⟩
      refine (since place).bind ?_
      rintro span _ ⟨rfl, covered⟩
      exact result ⟨rfl, covered, coveredTest, coveredConsequent, coveredAlternate⟩
  | false => exact result ⟨rfl, coveredTest⟩

/-- Reading expressions commutes with every relocation, by induction on the nesting. -/
theorem operands_of_fuel (relocation : Relocation) (fuel bound : Nat) :
    OfOperands relocation ⟨Parser.expression fuel, Parser.unary fuel, bound⟩ := by
  induction fuel generalizing bound with
  | zero => exact ⟨unexpected _, unexpected _⟩
  | succ fuel inductionHypothesis =>
      exact ⟨expressionStep (inductionHypothesis (fuel + 1)),
        unaryStep (inductionHypothesis (fuel + 1))⟩

/-- Expressions of every depth, by induction on the fuel. -/
theorem expression (fuel : Nat) :
    relocation.Commutes relocation.OfExpr (Parser.expression fuel) (Parser.expression fuel) :=
  (operands_of_fuel relocation fuel 0).expression

/-! ## Statements -/

/-- The parsers that statements are made of commute. -/
structure OfParts (relocation : Relocation) (parts : Parser.Parts) : Prop where
  statement : relocation.Commutes relocation.OfStmt parts.statement parts.statement
  expression : relocation.Commutes relocation.OfExpr parts.expression parts.expression

variable {parts : Parser.Parts}

/-- The end of a statement is told by the kind of the next token. -/
theorem endStatement : relocation.Commutes Eq Parser.endStatement Parser.endStatement := by
  refine (acceptMark _).bind_eq fun semicolon => ?_
  cases semicolon with
  | true => exact result rfl
  | false =>
      refine (isAtMark _).bind_eq fun brace => isAtEnd.bind_eq fun atEnd => ?_
      cases brace || atEnd with
      | true => exact result rfl
      | false => exact unexpected _

/-- Statements are collected backwards as well. -/
theorem ofStmts_reverse {statements moved : List Stmt}
    (corresponds : relocation.OfStmts statements moved) :
    relocation.OfStmts statements.reverse moved.reverse := by
  obtain ⟨rfl, covered⟩ := corresponds
  refine ⟨?_, ?_⟩
  · rw [Stmt.mapSpansAll_eq_map, Stmt.mapSpansAll_eq_map, List.map_reverse]
  · rw [Stmt.everySpanAll_iff] at covered ⊢
    simpa using covered

/-- The statements up to a closing mark or to the end of the input. -/
theorem statementsUntil (commute : OfParts relocation parts) (close? : Option Mark) (fuel : Nat)
    {statements moved : List Stmt} (corresponds : relocation.OfStmts statements moved) :
    relocation.Commutes relocation.OfStmts
      (Parser.statementsUntil parts close? fuel statements)
      (Parser.statementsUntil parts close? fuel moved) := by
  induction fuel generalizing statements moved with
  | zero => exact result (ofStmts_reverse corresponds)
  | succ fuel inductionHypothesis =>
      refine front?.bind fun _ _ found => ?_
      cases found with
      | none =>
          cases close? with
          | none => exact result (ofStmts_reverse corresponds)
          | some close => exact unexpected _
      | @some token movedToken same =>
          obtain ⟨rfl, _⟩ := same
          have longer : ∀ statement movedStatement, relocation.OfStmt statement movedStatement →
              relocation.OfStmts (statement :: statements) (movedStatement :: moved) := by
            obtain ⟨rfl, covered⟩ := corresponds
            rintro statement _ ⟨rfl, coveredStatement⟩
            exact ⟨rfl, coveredStatement, covered⟩
          -- Which mark closes does not matter any more, but only its cases open the text.
          cases close? <;>
            exact ite (result (ofStmts_reverse corresponds)) <|
              ite (advance.bind_eq fun _ => inductionHypothesis corresponds) <|
                commute.statement.bind fun _ _ same => inductionHypothesis (longer _ _ same)

/-- A body moves together with the span of its braces. -/
theorem body (commute : OfParts relocation parts) :
    relocation.Commutes relocation.OfBody (Parser.body parts) (Parser.body parts) := by
  have nothing : relocation.OfStmts [] [] := ⟨rfl, trivial⟩
  refine here.bind fun start movedStart place => (expectMark _).bind_eq fun _ => ?_
  refine (statementsUntil commute _ _ nothing).bind fun _ _ corresponds => ?_
  refine (expectMark _).bind_eq fun _ => ?_
  exact (since place).bind fun span movedSpan whole => result ⟨whole, corresponds⟩

/-- An expression that may be left out is so in both readings. -/
theorem optionalExpression (commute : OfParts relocation parts) :
    relocation.Commutes (Option.Rel relocation.OfExpr) (Parser.optionalExpression parts)
      (Parser.optionalExpression parts) := by
  refine frontKind?.bind_eq fun kind? => ?_
  split
  · exact result .none
  · exact result .none
  · exact result .none
  · exact commute.expression.bind fun _ _ corresponds => result (.some corresponds)

/-- A declaration; the initial value that is left out stands where the declaration does, and moves
with it. -/
theorem declaration (commute : OfParts relocation parts) :
    relocation.Commutes relocation.OfStmt (Parser.declaration parts)
      (Parser.declaration parts) := by
  refine here.bind fun start movedStart place => (expectKeyword _).bind_eq fun _ => ?_
  refine identifier.bind_eq fun name => ?_
  -- However the initial value is given, the declaration ends in the same way.
  have finished : ∀ initial moved isFormula, relocation.OfExpr initial moved →
      relocation.Commutes relocation.OfStmt
        (do
          Parser.endStatement
          return .declare (← Parser.since start) name initial isFormula)
        (do
          Parser.endStatement
          return .declare (← Parser.since movedStart) name moved isFormula) := by
    rintro initial _ isFormula ⟨rfl, coveredInitial⟩
    refine endStatement.bind_eq fun _ => (since place).bind ?_
    rintro span _ ⟨rfl, covered⟩
    exact result ⟨rfl, covered, coveredInitial⟩
  refine (acceptMark _).bind_eq fun isValue => ?_
  cases isValue with
  | true => exact commute.expression.bind fun _ _ same => finished _ _ false same
  | false =>
      refine (acceptMark _).bind_eq fun isFormula => ?_
      cases isFormula with
      | true => exact commute.expression.bind fun _ _ same => finished _ _ true same
      | false =>
          refine (since place).bind ?_
          rintro span _ ⟨rfl, covered⟩
          exact finished _ _ false ⟨rfl, covered⟩

/-- Parameters are names without a place. -/
theorem parametersUntil (fuel : Nat) (names : List String) :
    relocation.Commutes Eq (Parser.parametersUntil fuel names)
      (Parser.parametersUntil fuel names) := by
  induction fuel generalizing names with
  | zero => exact result rfl
  | succ fuel inductionHypothesis =>
      refine (isAtMark _).bind_eq fun closed => ?_
      cases closed with
      | true => exact result rfl
      | false =>
          refine identifier.bind_eq fun name => (acceptMark _).bind_eq fun goesOn => ?_
          cases goesOn with
          | true => exact inductionHypothesis _
          | false => exact result rfl

/-- A function, with its parameters and its body or its single statement. -/
theorem functionDeclaration (commute : OfParts relocation parts) (isAsync : Bool) :
    relocation.Commutes relocation.OfStmt (Parser.functionDeclaration parts isAsync)
      (Parser.functionDeclaration parts isAsync) := by
  refine here.bind fun start movedStart place => (expectKeyword _).bind_eq fun _ => ?_
  refine identifier.bind_eq fun name => (expectMark _).bind_eq fun _ => ?_
  refine (parametersUntil _ _).bind_eq fun parameters => (expectMark _).bind_eq fun _ => ?_
  have finished : ∀ statements moved, relocation.OfStmts statements moved →
      relocation.Commutes relocation.OfStmt
        (do return .function (← Parser.since start) name parameters statements isAsync)
        (do return .function (← Parser.since movedStart) name parameters moved isAsync) := by
    rintro statements _ ⟨rfl, coveredStatements⟩
    refine (since place).bind ?_
    rintro span _ ⟨rfl, covered⟩
    exact result ⟨rfl, covered, coveredStatements⟩
  refine (isAtMark _).bind_eq fun brace => ?_
  cases brace with
  | true => exact (body commute).bind fun _ _ same => finished _ _ same.2
  | false =>
      refine commute.statement.bind ?_
      rintro statement _ ⟨rfl, covered⟩
      exact finished [statement] _ ⟨rfl, covered, trivial⟩

/-- A condition with its two branches. -/
theorem conditionalStatement (commute : OfParts relocation parts) :
    relocation.Commutes relocation.OfStmt (Parser.conditionalStatement parts)
      (Parser.conditionalStatement parts) := by
  refine here.bind fun start movedStart place => (expectKeyword _).bind_eq fun _ => ?_
  refine commute.expression.bind ?_
  rintro test _ ⟨rfl, coveredTest⟩
  refine (body commute).bind ?_
  rintro ⟨consequentSpan, consequent⟩ ⟨_, _⟩ ⟨⟨rfl, coveredSpan⟩, rfl, coveredConsequent⟩
  have finished : ∀ alternate moved, moved = Stmt.mapSpansOf? relocation.move alternate →
      Stmt.EverySpanOf? relocation.Covers alternate →
      relocation.Commutes relocation.OfStmt
        (do
          return .conditional (← Parser.since start) test consequentSpan consequent alternate)
        (do
          return .conditional (← Parser.since movedStart) (test.mapSpans relocation.move)
            (relocation.move consequentSpan) (Stmt.mapSpansAll relocation.move consequent)
            moved) := by
    rintro alternate _ rfl coveredAlternate
    refine (since place).bind ?_
    rintro span _ ⟨rfl, covered⟩
    exact result
      ⟨rfl, covered, coveredTest, coveredSpan, coveredConsequent, coveredAlternate⟩
  refine (accept _).bind_eq fun hasElse => ?_
  cases hasElse with
  | false => exact finished none none rfl trivial
  | true =>
      refine (isAt _).bind_eq fun isIf => ?_
      cases isIf with
      | true =>
          refine commute.statement.bind ?_
          rintro statement _ ⟨rfl, covered⟩
          exact finished (some statement) _ rfl covered
      | false =>
          refine (body commute).bind ?_
          rintro ⟨span, statements⟩ ⟨_, _⟩ ⟨⟨rfl, covered⟩, rfl, coveredStatements⟩
          exact finished (some (.block span statements)) _ rfl ⟨covered, coveredStatements⟩

/-- An attempt with its handler. -/
theorem attemptStatement (commute : OfParts relocation parts) :
    relocation.Commutes relocation.OfStmt (Parser.attemptStatement parts)
      (Parser.attemptStatement parts) := by
  refine here.bind fun start movedStart place => (expectKeyword _).bind_eq fun _ => ?_
  refine (body commute).bind ?_
  rintro ⟨bodySpan, statements⟩ ⟨_, _⟩ ⟨⟨rfl, coveredSpan⟩, rfl, coveredBody⟩
  refine (expectKeyword _).bind_eq fun _ => ?_
  have finished : ∀ caught, relocation.Commutes relocation.OfStmt
      (do
        let handler ← Parser.body parts
        return .attempt (← Parser.since start) bodySpan statements caught handler.1 handler.2)
      (do
        let handler ← Parser.body parts
        return .attempt (← Parser.since movedStart) (relocation.move bodySpan)
          (Stmt.mapSpansAll relocation.move statements) caught handler.1 handler.2) := by
    intro caught
    refine (body commute).bind ?_
    rintro ⟨handlerSpan, handler⟩ ⟨_, _⟩ ⟨⟨rfl, coveredHandlerSpan⟩, rfl, coveredHandler⟩
    refine (since place).bind ?_
    rintro span _ ⟨rfl, covered⟩
    exact result
      ⟨rfl, covered, coveredSpan, coveredBody, coveredHandlerSpan, coveredHandler⟩
  refine (isAt _).bind_eq fun isName => ?_
  cases isName with
  | true => exact identifier.bind_eq finished
  | false => exact finished ""

/-- An import; the file it names is a token, and its alias a name. -/
theorem importStatement :
    relocation.Commutes relocation.OfStmt Parser.importStatement Parser.importStatement := by
  refine here.bind fun start movedStart place => (expectKeyword _).bind_eq fun _ => ?_
  have finished : ∀ source aliasName, relocation.Commutes relocation.OfStmt
      (do
        Parser.endStatement
        return .imports (← Parser.since start) source aliasName)
      (do
        Parser.endStatement
        return .imports (← Parser.since movedStart) source aliasName) := by
    intro source aliasName
    refine endStatement.bind_eq fun _ => (since place).bind ?_
    rintro span _ ⟨rfl, covered⟩
    exact result ⟨rfl, covered⟩
  have named : ∀ source, relocation.Commutes relocation.OfStmt
      (do
        let aliasName ← do
          if ← Parser.accept (.keyword .kwAs) then Parser.identifier else pure ""
        Parser.endStatement
        return .imports (← Parser.since start) source aliasName)
      (do
        let aliasName ← do
          if ← Parser.accept (.keyword .kwAs) then Parser.identifier else pure ""
        Parser.endStatement
        return .imports (← Parser.since movedStart) source aliasName) := by
    intro source
    refine (accept _).bind_eq fun isNamed => ?_
    cases isNamed with
    | true => exact identifier.bind_eq fun aliasName => finished source aliasName
    | false => exact finished source ""
  refine (isAt _).bind_eq fun isName => ?_
  cases isName with
  | true => exact identifier.bind_eq named
  | false =>
      refine (expect _).bind fun token _ same => ?_
      rw [same.1]
      exact named token.content

/-- An expression statement or an assignment; what may be assigned to is told by the form of the
tree. -/
theorem expressionStatement (commute : OfParts relocation parts) :
    relocation.Commutes relocation.OfStmt (Parser.expressionStatement parts)
      (Parser.expressionStatement parts) := by
  refine here.bind fun start movedStart place => commute.expression.bind ?_
  rintro expr _ ⟨rfl, coveredExpr⟩
  refine frontKind?.bind_eq fun kind? => ?_
  split
  case h_1 operator _ =>
    have assigned : relocation.Commutes relocation.OfStmt
        (do
          Parser.advance
          let right ← parts.expression
          Parser.endStatement
          return .assign (← Parser.since start) expr operator right)
        (do
          Parser.advance
          let right ← parts.expression
          Parser.endStatement
          return .assign (← Parser.since movedStart) (expr.mapSpans relocation.move) operator
            right) := by
      refine advance.bind_eq fun _ => commute.expression.bind ?_
      rintro right _ ⟨rfl, coveredRight⟩
      refine endStatement.bind_eq fun _ => (since place).bind ?_
      rintro span _ ⟨rfl, covered⟩
      exact result ⟨rfl, covered, coveredExpr, coveredRight⟩
    simp only [Expr.isAssignable_mapSpans, Expr.render_mapSpans]
    cases expr.isAssignable with
    | true => exact assigned
    | false =>
        refine (fail ⟨?_, coveredExpr.span⟩ _).bind_eq fun _ => assigned
        rw [Expr.span_mapSpans]
  case h_2 =>
    refine endStatement.bind_eq fun _ => (since place).bind ?_
    rintro span _ ⟨rfl, covered⟩
    exact result ⟨rfl, covered, coveredExpr⟩

/-- A scope or a context: both are a keyword, a name and a body. -/
theorem scopeDeclaration (commute : OfParts relocation parts) {start movedStart : Span}
    (place : relocation.OfSpan start movedStart) {make : Span → String → List Stmt → Stmt}
    (made : ∀ span name statements, relocation.Covers span →
      Stmt.EverySpanAll relocation.Covers statements →
      relocation.OfStmt (make span name statements)
        (make (relocation.move span) name (Stmt.mapSpansAll relocation.move statements))) :
    relocation.Commutes relocation.OfStmt (Parser.scopeDeclaration parts start make)
      (Parser.scopeDeclaration parts movedStart make) := by
  refine advance.bind_eq fun _ => identifier.bind_eq fun name => (body commute).bind ?_
  rintro ⟨_, statements⟩ ⟨_, _⟩ ⟨_, rfl, coveredStatements⟩
  refine (since place).bind ?_
  rintro span _ ⟨rfl, covered⟩
  exact result (made span name statements covered coveredStatements)

/-- A statement that consists of its keyword alone. -/
theorem bareStatement {start movedStart : Span} (place : relocation.OfSpan start movedStart)
    {make : Span → Stmt} (made : ∀ span, relocation.Covers span →
      relocation.OfStmt (make span) (make (relocation.move span))) :
    relocation.Commutes relocation.OfStmt (Parser.bareStatement start make)
      (Parser.bareStatement movedStart make) := by
  refine advance.bind_eq fun _ => endStatement.bind_eq fun _ => (since place).bind ?_
  rintro span _ ⟨rfl, covered⟩
  exact result (made span covered)

/-- A statement that hands over an optional value. -/
theorem optionalStatement (commute : OfParts relocation parts) {start movedStart : Span}
    (place : relocation.OfSpan start movedStart) {make : Span → Option Expr → Stmt}
    (made : ∀ span argument, relocation.Covers span →
      (∀ expr, argument = some expr → expr.EverySpan relocation.Covers) →
      relocation.OfStmt (make span argument)
        (make (relocation.move span) (argument.map (Expr.mapSpans relocation.move)))) :
    relocation.Commutes relocation.OfStmt
      (do
        Parser.advance
        let argument ← Parser.optionalExpression parts
        Parser.endStatement
        return make (← Parser.since start) argument)
      (do
        Parser.advance
        let argument ← Parser.optionalExpression parts
        Parser.endStatement
        return make (← Parser.since movedStart) argument) := by
  refine advance.bind_eq fun _ => (optionalExpression commute).bind fun _ _ corresponds => ?_
  refine endStatement.bind_eq fun _ => (since place).bind ?_
  rintro span _ ⟨rfl, covered⟩
  cases corresponds with
  | none => exact result (made span none covered (by simp))
  | @some expr moved same =>
      obtain ⟨rfl, coveredExpr⟩ := same
      exact result (made span (some expr) covered (by rintro _ ⟨⟩; exact coveredExpr))

/-- A statement is chosen by its first token and, for a function, the one behind it. -/
theorem statementStep (commute : OfParts relocation parts) :
    relocation.Commutes relocation.OfStmt (Parser.statementStep parts)
      (Parser.statementStep parts) := by
  refine here.bind fun start movedStart place => frontKind?.bind_eq fun kind? => ?_
  split
  · refine (body commute).bind ?_
    rintro ⟨span, statements⟩ ⟨_, _⟩ ⟨⟨rfl, covered⟩, rfl, coveredStatements⟩
    exact result ⟨rfl, covered, coveredStatements⟩
  · exact declaration commute
  · exact functionDeclaration commute false
  · exact advance.bind_eq fun _ => functionDeclaration commute true
  · exact scopeDeclaration commute place fun _ _ _ covered body => ⟨rfl, covered, body⟩
  · exact scopeDeclaration commute place fun _ _ _ covered body => ⟨rfl, covered, body⟩
  · exact conditionalStatement commute
  · refine advance.bind_eq fun _ => commute.expression.bind ?_
    rintro test _ ⟨rfl, coveredTest⟩
    refine (body commute).bind ?_
    rintro ⟨bodySpan, statements⟩ ⟨_, _⟩ ⟨⟨rfl, coveredSpan⟩, rfl, coveredStatements⟩
    refine (since place).bind ?_
    rintro span _ ⟨rfl, covered⟩
    exact result ⟨rfl, covered, coveredTest, coveredSpan, coveredStatements⟩
  · refine advance.bind_eq fun _ => (body commute).bind ?_
    rintro ⟨bodySpan, statements⟩ ⟨_, _⟩ ⟨⟨rfl, coveredSpan⟩, rfl, coveredStatements⟩
    refine (since place).bind ?_
    rintro span _ ⟨rfl, covered⟩
    exact result ⟨rfl, covered, coveredSpan, coveredStatements⟩
  · refine advance.bind_eq fun _ => identifier.bind_eq fun name => ?_
    refine (expectKeyword _).bind_eq fun _ => commute.expression.bind ?_
    rintro iterable _ ⟨rfl, coveredIterable⟩
    refine (body commute).bind ?_
    rintro ⟨bodySpan, statements⟩ ⟨_, _⟩ ⟨⟨rfl, coveredSpan⟩, rfl, coveredStatements⟩
    refine (since place).bind ?_
    rintro span _ ⟨rfl, covered⟩
    exact result ⟨rfl, covered, coveredIterable, coveredSpan, coveredStatements⟩
  · exact attemptStatement commute
  · exact optionalStatement commute place fun _ _ covered argument => ⟨rfl, covered, argument⟩
  · exact optionalStatement commute place fun _ _ covered argument => ⟨rfl, covered, argument⟩
  · refine advance.bind_eq fun _ => commute.expression.bind ?_
    rintro argument _ ⟨rfl, coveredArgument⟩
    refine endStatement.bind_eq fun _ => (since place).bind ?_
    rintro span _ ⟨rfl, covered⟩
    exact result ⟨rfl, covered, coveredArgument⟩
  · exact bareStatement place fun _ covered => ⟨rfl, covered⟩
  · exact bareStatement place fun _ covered => ⟨rfl, covered⟩
  · exact importStatement
  · exact expressionStatement commute

/-- Reading a statement commutes with every relocation, by induction on the nesting. -/
theorem statement (fuel : Nat) :
    relocation.Commutes relocation.OfStmt (Parser.statement fuel) (Parser.statement fuel) := by
  induction fuel with
  | zero => exact unexpected _
  | succ fuel inductionHypothesis =>
      exact statementStep ⟨inductionHypothesis, expression (fuel + 1)⟩

/-- A whole program. -/
theorem program (fuel : Nat) :
    relocation.Commutes relocation.OfProgram (Parser.program fuel) (Parser.program fuel) := by
  have nothing : relocation.OfStmts [] [] := ⟨rfl, trivial⟩
  refine here.bind fun start movedStart place => ?_
  refine (statementsUntil ⟨statement fuel, expression fuel⟩ _ _ nothing).bind ?_
  rintro statements _ ⟨rfl, coveredStatements⟩
  refine (since place).bind ?_
  rintro span _ ⟨rfl, covered⟩
  exact result ⟨rfl, covered, coveredStatements⟩

/-- A whole text that is a single expression. -/
theorem wholeExpression (fuel : Nat) :
    relocation.Commutes relocation.OfExpr (Parser.wholeExpression fuel)
      (Parser.wholeExpression fuel) := by
  refine (expression fuel).bind fun expr moved corresponds => ?_
  refine (acceptMark .semicolon).bind_eq fun _ => isAtEnd.bind_eq fun _ => ?_
  exact ite (result corresponds) (unexpected _)

end Commutes
end Relocation
end ScopeScript
