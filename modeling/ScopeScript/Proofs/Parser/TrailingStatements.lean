import ScopeScript.Proofs.Parser.Trailing

/-!
# Reading statements with and without a trailing semicolon

Every production of statements is followed side by side, in the order in which they are defined.
Three of them look for the end of the input. The end of a statement takes the trailing semicolon in
(`endStatement`), a sequence of statements passes over it (`statementsUntil`), and an optional value
is left out in front of it as at the end. Behind the semicolon both readings are at the end.
-/

namespace ScopeScript
namespace Parser

/-! ## The end of the input -/

variable {stream : Stream} {token : Token} {tokens others rest otherRest : List Token}
  {parts twin : Parts} {room bound : Nat}

/-- A statement may end at the end of the input. -/
theorem endStatement_nil (atEnd : stream.tokens = []) :
    Parser.endStatement stream = .ok ((), stream) := by
  obtain ⟨_, previous?, endSpan⟩ := stream
  cases atEnd
  rfl

/-- In front of a token a statement ends with a semicolon or at a closing brace. -/
theorem endStatement_cons (ahead : stream.tokens = token :: rest) :
    Parser.endStatement stream =
      (if token.kind = .mark .semicolon then Parser.advance >>= fun _ => pure ()
      else if token.kind = .mark .rightBrace then pure ()
      else Parser.unexpected "`;`") stream := by
  rw [Parser.endStatement, Parser.acceptMark, accept_bind]
  by_cases isSemicolon : token.kind = .mark .semicolon
  · rw [if_pos (by simp [ahead, isSemicolon]), if_pos isSemicolon]
    rfl
  · rw [if_neg (by simp [ahead, isSemicolon]), if_neg isSemicolon]
    obtain ⟨_, previous?, endSpan⟩ := stream
    cases ahead
    change (if (some token.kind == some (TokenKind.mark .rightBrace) || false) = true
      then pure () else _ : Parser Unit) _ = _
    by_cases isBrace : token.kind = .mark .rightBrace
    · rw [if_pos (by simp [isBrace]), if_pos isBrace]
    · rw [if_neg (by simp [isBrace]), if_neg isBrace]

variable {close? : Option Mark} {statements : List Stmt}

/-- At the end of the input a program is complete and a body is not. -/
theorem statementsUntil_nil (atEnd : stream.tokens = []) (fuel : Nat) :
    Parser.statementsUntil parts close? (fuel + 1) statements stream =
      (match close? with
        | none => pure statements.reverse
        | some close => Parser.unexpected (TokenKind.mark close).describe) stream := by
  obtain ⟨_, previous?, endSpan⟩ := stream
  cases atEnd
  cases close? <;> rfl

/-- In front of a token the statements are complete, or a semicolon is passed over, or one more
statement is read. -/
theorem statementsUntil_cons (ahead : stream.tokens = token :: rest) (fuel : Nat) :
    Parser.statementsUntil parts close? (fuel + 1) statements stream =
      (if close?.map TokenKind.mark = some token.kind then
        pure statements.reverse
      else if token.kind = TokenKind.mark .semicolon then do
        Parser.advance
        Parser.statementsUntil parts close? fuel statements
      else do
        let statement ← parts.statement
        Parser.statementsUntil parts close? fuel (statement :: statements)) stream := by
  obtain ⟨_, previous?, endSpan⟩ := stream
  cases ahead
  cases close? <;> rfl

/-- The parsers that statements are made of go on side by side. There is room for the nested
statements, and for expressions as long as the fuel suffices. -/
structure AgreeingParts (parts twin : Parts) (room : Nat) : Prop where
  fuel : twin.fuel = parts.fuel + 1
  enough : room ≤ parts.fuel
  statement : ∀ {tokens others}, Trailing tokens others → tokens.length < room →
    Agrees tokens others parts.statement twin.statement tokens.length
  expression : ∀ {tokens others}, Trailing tokens others → tokens.length < parts.fuel →
    Agrees tokens others parts.expression twin.expression tokens.length

namespace Agrees

/-- Only the second reading finds a token, and passes it. -/
theorem advance_twin {parser : Parser α} {twinNext : Unit → Parser α}
    (nextAgrees : Agrees tokens others parser (twinNext ()) bound) :
    Agrees tokens (token :: others) parser (Parser.advance >>= twinNext) bound := by
  rintro stream ⟨_, otherPrevious?, otherEnd⟩ isTokens rfl unplaced otherUnplaced
  exact nextAgrees stream ⟨others, some token.span, otherEnd⟩ isTokens rfl unplaced
    otherUnplaced.tail

/-! ## Ends of statements -/

/-- The trailing semicolon ends a statement, and behind it both readings are at the end. -/
theorem endStatement (trailing : Trailing tokens others) :
    Agrees tokens others Parser.endStatement Parser.endStatement (tokens.length + 1) := by
  intro stream other isTokens isOthers
  cases trailing with
  | passed =>
      rw [endStatement_nil isTokens, endStatement_nil isOthers]
      exact result .passed (Nat.lt_succ_self _) stream other isTokens isOthers
  | ahead semicolon isSemicolon =>
      rw [endStatement_nil isTokens, endStatement_cons isOthers, if_pos isSemicolon]
      exact advance_twin (result .passed (Nat.lt_succ_self _)) stream other isTokens isOthers
  | cons token behind =>
      rw [endStatement_cons isTokens, endStatement_cons isOthers]
      revert stream other
      split
      · exact advance (result behind (by simp only [List.length_cons]; omega))
      · split
        · exact result (.cons token behind) (Nat.lt_succ_self _)
        · exact unexpected _

/-- A statement of which nothing is left to be read. -/
theorem completed (make : Span → Stmt) (trailing : Trailing tokens others)
    (inside : tokens.length < bound) :
    Agrees tokens others (do return make (← Parser.since .null))
      (do return make (← Parser.since .null)) bound :=
  since (result trailing inside)

/-- A statement that needs an end, at its end. -/
theorem concluded (make : Span → Stmt) (trailing : Trailing tokens others)
    (inside : tokens.length < bound) :
    Agrees tokens others
      (do
        Parser.endStatement
        return make (← Parser.since .null))
      (do
        Parser.endStatement
        return make (← Parser.since .null)) bound :=
  (endStatement trailing).bind fun _ _ _ behind shorter => completed make behind (by omega)

/-! ## Bodies -/

/-- Statements up to the closing brace or up to the end. -/
theorem statementsUntil (agreeing : AgreeingParts parts twin room) (roomy : bound ≤ room)
    (notClose : close? ≠ some .semicolon) (fuel : Nat) (trailing : Trailing tokens others)
    (inside : tokens.length < bound) (enough : tokens.length < fuel) :
    Agrees tokens others (Parser.statementsUntil parts close? fuel statements)
      (Parser.statementsUntil twin close? (fuel + 1) statements) bound := by
  induction fuel generalizing statements tokens others with
  | zero => exact absurd enough (Nat.not_lt_zero _)
  | succ fuel inductionHypothesis =>
      have atEnd (positive : 0 < bound) (otherFuel : Nat) : Agrees [] []
          (Parser.statementsUntil parts close? (fuel + 1) statements)
          (Parser.statementsUntil twin close? (otherFuel + 1) statements) bound := by
        intro stream other isTokens isOthers
        rw [statementsUntil_nil isTokens, statementsUntil_nil isOthers]
        revert stream other
        cases close? with
        | none => exact result .passed positive
        | some close => exact unexpected _
      intro stream other isTokens isOthers
      cases trailing with
      | passed => exact atEnd (by omega) _ stream other isTokens isOthers
      | ahead semicolon isSemicolon =>
          have notClosed : close?.map TokenKind.mark ≠ some semicolon.kind := by
            cases close? <;> simp_all
          rw [statementsUntil_cons isOthers, if_neg notClosed, if_pos isSemicolon]
          exact advance_twin (atEnd (by omega) fuel) stream other isTokens isOthers
      | @cons rest otherRest token behind =>
          rw [List.length_cons] at inside enough
          rw [statementsUntil_cons isTokens, statementsUntil_cons isOthers]
          revert stream other
          split
          · exact result (.cons token behind) inside
          · split
            · exact advance (inductionHypothesis behind (by omega) (by omega))
            · have within : (token :: rest).length < room := by simpa using by omega
              refine (agreeing.statement (.cons token behind) within).bind
                fun statement _ _ further shorter => ?_
              rw [List.length_cons] at shorter
              exact inductionHypothesis further (by omega) (by omega)

/-- A body stops in front of its closing brace. -/
theorem body (agreeing : AgreeingParts parts twin room) (trailing : Trailing tokens others)
    (inside : tokens.length ≤ room) :
    Agrees tokens others (Parser.body parts) (Parser.body twin) tokens.length := by
  have enough := agreeing.enough
  refine here ((expectMark trailing (by simp)).bind fun _ _ _ behind shorter => ?_)
  rw [agreeing.fuel]
  refine (statementsUntil agreeing inside (by simp) _ behind shorter (by omega)).bind
    fun statements _ _ further still => ?_
  exact (expectMark further (by simp)).bind fun _ _ _ closed last => since (result closed (by omega))

/-- A statement that ends with a body, at its body. -/
theorem bodied (agreeing : AgreeingParts parts twin room) (make : Span → Span × List Stmt → Stmt)
    (trailing : Trailing tokens others) (roomy : tokens.length ≤ room)
    (inside : tokens.length ≤ bound) :
    Agrees tokens others
      (do
        let body ← Parser.body parts
        return make (← Parser.since .null) body)
      (do
        let body ← Parser.body twin
        return make (← Parser.since .null) body) bound :=
  (body agreeing trailing roomy).bind fun body _ _ behind shorter =>
    completed (make · body) behind (by omega)

/-! ## Statements -/

/-- In front of the trailing semicolon an expression is left out, as at the end. -/
theorem optionalExpression (agreeing : AgreeingParts parts twin room)
    (trailing : Trailing tokens others) (inside : tokens.length < parts.fuel) :
    Agrees tokens others (Parser.optionalExpression parts) (Parser.optionalExpression twin)
      (tokens.length + 1) := by
  have nothing : Agrees tokens others (pure none) (pure (none : Option Expr))
      (tokens.length + 1) :=
    result trailing (Nat.lt_succ_self _)
  refine frontKind? trailing rfl ?_
  split
  · exact nothing
  · exact nothing
  · exact nothing
  · exact (agreeing.expression trailing inside).bind fun _ _ _ behind shorter =>
      result behind (by omega)

/-- A declaration ends with the trailing semicolon, or at the end. -/
theorem declaration (agreeing : AgreeingParts parts twin room)
    (trailing : Trailing tokens others) (inside : tokens.length ≤ room) :
    Agrees tokens others (Parser.declaration parts) (Parser.declaration twin) tokens.length := by
  have enough := agreeing.enough
  refine here ((expectKeyword trailing _).bind fun _ _ _ declared shorter => ?_)
  refine (identifier declared).bind fun name _ _ named still => ?_
  have valued (isFormula : Bool) {rest otherRest : List Token} (behind : Trailing rest otherRest)
      (shorter : rest.length < tokens.length) :
      Agrees rest otherRest
        (do
          let initial ← parts.expression
          Parser.endStatement
          return Stmt.declare (← Parser.since .null) name initial isFormula)
        (do
          let initial ← twin.expression
          Parser.endStatement
          return Stmt.declare (← Parser.since .null) name initial isFormula) tokens.length :=
    (agreeing.expression behind (by omega)).bind fun initial _ _ further last =>
      concluded (.declare · name initial isFormula) further (by omega)
  refine acceptMark named (by simp) (fun _ _ assigned last => valued false assigned (by omega)) ?_
  refine acceptMark named (by simp) (fun _ _ assigned last => valued true assigned (by omega)) ?_
  exact since (concluded (.declare · name (.absent .null) false) named (by omega))

/-- Parameters stop in front of the closing parenthesis. -/
theorem parametersUntil (fuel : Nat) {names : List String} (trailing : Trailing tokens others)
    (inside : tokens.length < bound) (enough : tokens.length < fuel) :
    Agrees tokens others (Parser.parametersUntil fuel names)
      (Parser.parametersUntil (fuel + 1) names) bound := by
  induction fuel generalizing names tokens others with
  | zero => exact absurd enough (Nat.not_lt_zero _)
  | succ fuel inductionHypothesis =>
      refine isAtMark trailing (by simp) fun closed => ?_
      cases closed with
      | true => exact result trailing inside
      | false =>
          refine (identifier trailing).bind fun name _ _ named shorter => ?_
          refine acceptMark named (by simp) (fun _ _ further still => ?_) (result named (by omega))
          exact inductionHypothesis further (by omega) (by omega)

/-- The single statement of a function may end with the trailing semicolon. -/
theorem functionDeclaration (agreeing : AgreeingParts parts twin room) (isAsync : Bool)
    (trailing : Trailing tokens others) (inside : tokens.length ≤ room) :
    Agrees tokens others (Parser.functionDeclaration parts isAsync)
      (Parser.functionDeclaration twin isAsync) tokens.length := by
  have enough := agreeing.enough
  refine here ((expectKeyword trailing _).bind fun _ _ _ declared shorter => ?_)
  refine (identifier declared).bind fun name _ _ named shorter => ?_
  refine (expectMark named (by simp)).bind fun _ _ _ opened shorter => ?_
  rw [agreeing.fuel]
  refine (parametersUntil _ opened shorter (by omega)).bind fun parameters _ _ listed shorter => ?_
  refine (expectMark listed (by simp)).bind fun _ _ _ closed shorter => ?_
  refine isAtMark closed (by simp) fun isBody => ?_
  cases isBody with
  | true =>
      exact bodied agreeing (fun span body => .function span name parameters body.2 isAsync) closed
        (by omega) (by omega)
  | false =>
      exact (agreeing.statement closed (by omega)).bind fun statement _ _ behind shorter =>
        completed (.function · name parameters [statement] isAsync) behind (by omega)

/-- The last branch of a condition may end with the trailing semicolon. -/
theorem conditionalStatement (agreeing : AgreeingParts parts twin room)
    (trailing : Trailing tokens others) (inside : tokens.length ≤ room) :
    Agrees tokens others (Parser.conditionalStatement parts) (Parser.conditionalStatement twin)
      tokens.length := by
  have enough := agreeing.enough
  refine here ((expectKeyword trailing _).bind fun _ _ _ asked shorter => ?_)
  refine (agreeing.expression asked (by omega)).bind fun test _ _ tested shorter => ?_
  refine (body agreeing tested (by omega)).bind fun consequent _ _ behind shorter => ?_
  have finished (alternate : Option Stmt) {rest otherRest : List Token}
      (further : Trailing rest otherRest) (shorter : rest.length < tokens.length) :=
    completed (.conditional · test consequent.1 consequent.2 alternate) further shorter
  refine accept behind (by simp) (fun _ _ otherwise shorter => ?_) (finished none behind (by omega))
  refine isAt otherwise (by simp) ?_
  split
  · exact (agreeing.statement otherwise (by omega)).bind fun statement _ _ further shorter =>
      finished (some statement) further (by omega)
  · exact (body agreeing otherwise (by omega)).bind fun alternate _ _ further shorter =>
      finished (some (.block alternate.1 alternate.2)) further (by omega)

theorem attemptStatement (agreeing : AgreeingParts parts twin room)
    (trailing : Trailing tokens others) (inside : tokens.length ≤ room) :
    Agrees tokens others (Parser.attemptStatement parts) (Parser.attemptStatement twin)
      tokens.length := by
  refine here ((expectKeyword trailing _).bind fun _ _ _ tried shorter => ?_)
  refine (body agreeing tried (by omega)).bind fun attempted _ _ behind shorter => ?_
  refine (expectKeyword behind _).bind fun _ _ _ caught shorter => ?_
  refine isAt caught (by simp) ?_
  split
  · refine (identifier caught).bind fun name _ _ named shorter => ?_
    exact bodied agreeing (fun span handler => .attempt span attempted.1 attempted.2 name handler.1
      handler.2) named (by omega) (by omega)
  · exact bodied agreeing (fun span handler => .attempt span attempted.1 attempted.2 "" handler.1
      handler.2) caught (by omega) (by omega)

/-- An import may end with the trailing semicolon. -/
theorem importStatement (trailing : Trailing tokens others) :
    Agrees tokens others Parser.importStatement Parser.importStatement tokens.length := by
  refine here ((expectKeyword trailing _).bind fun _ _ _ imported shorter => ?_)
  have named (source : String) {rest otherRest : List Token} (behind : Trailing rest otherRest)
      (shorter : rest.length < tokens.length) :
      Agrees rest otherRest
        (do
          let aliasName ← do
            if ← Parser.accept (.keyword .kwAs) then Parser.identifier else pure ""
          Parser.endStatement
          return Stmt.imports (← Parser.since .null) source aliasName)
        (do
          let aliasName ← do
            if ← Parser.accept (.keyword .kwAs) then Parser.identifier else pure ""
          Parser.endStatement
          return Stmt.imports (← Parser.since .null) source aliasName) tokens.length := by
    refine accept behind (by simp) (fun _ _ renamed still => ?_)
      (concluded (.imports · source "") behind shorter)
    exact (identifier renamed).bind fun aliasName _ _ further last =>
      concluded (.imports · source aliasName) further (by omega)
  refine isAt imported (by simp) ?_
  split
  · exact (identifier imported).bind fun source _ _ behind shorter =>
      named source behind (by omega)
  · exact (expect imported (by simp)).bind fun token _ _ behind shorter =>
      named token.content behind (by omega)

/-- An expression statement or an assignment ends with the trailing semicolon, or at the end. -/
theorem expressionStatement (agreeing : AgreeingParts parts twin room)
    (trailing : Trailing tokens others) (inside : tokens.length < parts.fuel) :
    Agrees tokens others (Parser.expressionStatement parts) (Parser.expressionStatement twin)
      tokens.length := by
  refine here ((agreeing.expression trailing inside).bind
    fun expr rest otherRest behind shorter => ?_)
  refine frontKind? behind rfl ?_
  cases isOperator : (rest.head?.map (·.kind)).bind assignOperator? with
  | none => exact concluded (.evaluate · expr) behind shorter
  | some operator =>
      obtain ⟨kind, front, -⟩ := Option.bind_eq_some_iff.1 isOperator
      -- What cannot be assigned to is refused by both.
      cases expr.isAssignable with
      | true =>
          refine advance_of_front behind front fun _ _ further still => ?_
          exact (agreeing.expression further (by omega)).bind fun right _ _ last shorter =>
            concluded (.assign · expr operator right) last (by omega)
      | false => exact fun _ _ _ _ _ _ => .neither

theorem scopeDeclaration (agreeing : AgreeingParts parts twin room)
    (make : Span → String → List Stmt → Stmt) {kind : TokenKind}
    (trailing : Trailing tokens others) (front : tokens.head?.map (·.kind) = some kind)
    (inside : tokens.length ≤ room) :
    Agrees tokens others (Parser.scopeDeclaration parts .null make)
      (Parser.scopeDeclaration twin .null make) tokens.length := by
  refine advance_of_front trailing front fun _ _ behind shorter => ?_
  refine (identifier behind).bind fun name _ _ named shorter => ?_
  exact bodied agreeing (fun span body => make span name body.2) named (by omega) (by omega)

theorem bareStatement (make : Span → Stmt) {kind : TokenKind} (trailing : Trailing tokens others)
    (front : tokens.head?.map (·.kind) = some kind) :
    Agrees tokens others (Parser.bareStatement .null make) (Parser.bareStatement .null make)
      tokens.length :=
  advance_of_front trailing front fun _ _ behind shorter => concluded make behind shorter

/-- A statement that hands over an optional value. -/
theorem optionalStatement (agreeing : AgreeingParts parts twin room)
    (make : Span → Option Expr → Stmt) {kind : TokenKind} (trailing : Trailing tokens others)
    (front : tokens.head?.map (·.kind) = some kind) (inside : tokens.length ≤ room) :
    Agrees tokens others
      (do
        Parser.advance
        let argument ← Parser.optionalExpression parts
        Parser.endStatement
        return make (← Parser.since .null) argument)
      (do
        Parser.advance
        let argument ← Parser.optionalExpression twin
        Parser.endStatement
        return make (← Parser.since .null) argument) tokens.length := by
  have enough := agreeing.enough
  refine advance_of_front trailing front fun _ _ behind shorter => ?_
  exact (optionalExpression agreeing behind (by omega)).bind fun argument _ _ further still =>
    concluded (make · argument) further (by omega)

/-- No statement begins with a semicolon. -/
theorem statementStep (agreeing : AgreeingParts parts twin room)
    (trailing : Trailing tokens others) (roomy : tokens.length ≤ room)
    (inside : tokens.length < parts.fuel) :
    Agrees tokens others (Parser.statementStep parts) (Parser.statementStep twin)
      tokens.length := by
  refine here (frontKind? trailing rfl ?_)
  split
  case h_1 =>
    exact bodied agreeing (fun _ body => .block body.1 body.2) trailing roomy (Nat.le_refl _)
  case h_2 => exact declaration agreeing trailing roomy
  case h_3 => exact functionDeclaration agreeing false trailing roomy
  case h_4 front =>
    exact advance_of_front trailing front fun _ _ behind shorter =>
      (functionDeclaration agreeing true behind (by omega)).widen (Nat.le_of_lt shorter)
  case h_5 front => exact scopeDeclaration agreeing .scope trailing front roomy
  case h_6 front => exact scopeDeclaration agreeing .context trailing front roomy
  case h_7 => exact conditionalStatement agreeing trailing roomy
  case h_8 front =>
    refine advance_of_front trailing front fun _ _ behind shorter => ?_
    exact (agreeing.expression behind (by omega)).bind fun test _ _ tested shorter =>
      bodied agreeing (fun span body => .whileLoop span test body.1 body.2) tested (by omega)
        (by omega)
  case h_9 front =>
    refine advance_of_front trailing front fun _ _ behind shorter => ?_
    exact bodied agreeing (fun span body => .loop span body.1 body.2) behind (by omega) (by omega)
  case h_10 front =>
    refine advance_of_front trailing front fun _ _ behind shorter => ?_
    refine (identifier behind).bind fun name _ _ named shorter => ?_
    refine (expectKeyword named _).bind fun _ _ _ within shorter => ?_
    exact (agreeing.expression within (by omega)).bind fun iterable _ _ iterated shorter =>
      bodied agreeing (fun span body => .forEach span name iterable body.1 body.2) iterated
        (by omega) (by omega)
  case h_11 => exact attemptStatement agreeing trailing roomy
  case h_12 front => exact optionalStatement agreeing .returns trailing front roomy
  case h_13 front => exact optionalStatement agreeing .yields trailing front roomy
  case h_14 front =>
    refine advance_of_front trailing front fun _ _ behind shorter => ?_
    exact (agreeing.expression behind (by omega)).bind fun argument _ _ thrown shorter =>
      concluded (.throws · argument) thrown (by omega)
  case h_15 front => exact bareStatement .breaks trailing front
  case h_16 front => exact bareStatement .continues trailing front
  case h_17 => exact importStatement trailing
  case h_18 => exact expressionStatement agreeing trailing inside

/-- Reading a statement, by induction on the nesting. -/
theorem statement (fuel : Nat) (trailing : Trailing tokens others) (room : tokens.length < fuel) :
    Agrees tokens others (Parser.statement fuel) (Parser.statement (fuel + 1)) tokens.length := by
  induction fuel generalizing tokens others with
  | zero => exact absurd room (Nat.not_lt_zero _)
  | succ fuel inductionHypothesis =>
      exact statementStep ⟨rfl, Nat.le_succ fuel, inductionHypothesis, expression⟩ trailing
        (Nat.le_of_lt_succ room) room

/-- A program with one more semicolon behind it is read alike, with one more unit of fuel. -/
theorem program {fuel : Nat} (trailing : Trailing tokens others) (room : tokens.length < fuel) :
    Agrees tokens others (Parser.program fuel) (Parser.program (fuel + 1)) fuel :=
  here ((statementsUntil ⟨rfl, Nat.le_refl fuel, statement fuel, expression⟩ (Nat.le_refl _)
    (by simp) _ trailing room room).bind fun _ _ _ behind shorter => since (result behind shorter))

end Agrees
end Parser
end ScopeScript
