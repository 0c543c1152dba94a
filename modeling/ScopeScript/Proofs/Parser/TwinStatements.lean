import ScopeScript.Proofs.Parser.TwinExpressions

/-!
# Statements with and without the star

Every production of statements is followed side by side, in the order in which they are defined. A
statement never halts in front of the operand, since it has to end with a semicolon, a brace or the
input. So at the end of a program both readings have passed the seam, and a bound number has been
refused (`program`).
-/

namespace ScopeScript
namespace Parser
namespace Seam

variable {seam : Seam} {stance : Stance} {tokens others rest otherRest : List Token}

/-- The parsers that statements are made of go on side by side. There is room for the nested
statements, and for expressions as long as the fuel suffices. -/
structure OfParts (seam : Seam) (parts twin : Parts) (room : Nat) : Prop where
  fuel : twin.fuel = parts.fuel + 1
  enough : room ≤ parts.fuel
  statement : ∀ {tokens others}, seam.Linked .free tokens others → tokens.length < room →
    seam.Twin tokens others parts.statement twin.statement (seam.Leaves .free tokens.length) Never
  expression : ∀ {tokens others}, seam.Linked .free tokens others → tokens.length < parts.fuel →
    seam.Twin tokens others parts.expression twin.expression (seam.Leaves .ended tokens.length)
      Anything

variable {parts twin : Parts} {room bound : Nat}

/-! ## Nothing ends in front of the operand -/

namespace Halts

/-- Where an expression has halted in front of an operand, no statement ends. -/
theorem endStatement : seam.Halts Parser.endStatement Never := by
  refine (acceptMark (by simp)).bind ?_
  rintro _ rfl
  refine (isAt (by simp) (by simp)).bind ?_
  rintro _ rfl
  refine isAtEnd.bind ?_
  rintro _ rfl
  exact unexpected _

/-- And no body begins. -/
theorem body (parts : Parts) : seam.Halts (Parser.body parts) Never :=
  here.bind fun _ _ => (expectMark (by simp)).never_bind

end Halts

namespace Twin

/-! ## Ends of statements -/

/-- A statement ends alike in both readings, and what follows is free again. -/
theorem endStatement (settled : stance = .free ∨ stance = .ended)
    (linked : seam.Linked stance tokens others) :
    seam.Twin tokens others Parser.endStatement Parser.endStatement
      (seam.Leaves .free (tokens.length + 1)) Never := by
  refine acceptMark linked (fun _ _ behind shorter => ?_) ?_
  · have free : stance.after (.mark .semicolon) = .free := by rcases settled with rfl | rfl <;> rfl
    rw [free] at behind
    exact result ⟨behind, Nat.lt_succ_of_lt shorter⟩
  · refine isAt_eq linked.head?_eq _ (isAtEnd linked.head?_eq ?_)
    split
    case isTrue ends =>
      refine result ⟨linked.congr ?_ ?_, Nat.lt_succ_self _⟩
      · rintro token rest rfl isNumber
        simp [isNumber] at ends
      · rintro token rest rfl
        have isBrace : token.kind = .mark .rightBrace := by simpa using ends
        rw [isBrace]
        rcases settled with rfl | rfl <;> rfl
    case isFalse => exact unexpected _

/-- A statement of which nothing is left to be read. -/
theorem completed (make : Span → Stmt) (linked : seam.Linked .free tokens others)
    (inside : tokens.length < bound) :
    seam.Twin tokens others (do return make (← Parser.since .null))
      (do return make (← Parser.since .null)) (seam.Leaves .free bound) Never :=
  since (result ⟨linked, inside⟩)

/-- A statement that needs an end, at its end. -/
theorem concluded (make : Span → Stmt) (settled : stance = .free ∨ stance = .ended)
    (linked : seam.Linked stance tokens others) (inside : tokens.length < bound) :
    seam.Twin tokens others
      (do
        Parser.endStatement
        return make (← Parser.since .null))
      (do
        Parser.endStatement
        return make (← Parser.since .null)) (seam.Leaves .free bound) Never :=
  (endStatement settled linked).leaving fun _ _ _ behind shorter =>
    completed make behind (by omega)

/-! ## Bodies -/

/-- Statements up to the closing brace or up to the end. -/
theorem statementsUntil (twins : seam.OfParts parts twin room) (roomy : bound ≤ room)
    {close? : Option Mark} (closes : close? = none ∨ close? = some .rightBrace) (fuel : Nat)
    {statements : List Stmt} (linked : seam.Linked .free tokens others)
    (inside : tokens.length < bound) (enough : tokens.length < fuel) :
    seam.Twin tokens others (Parser.statementsUntil parts close? fuel statements)
      (Parser.statementsUntil twin close? (fuel + 1) statements)
      (fun rest otherRest _ => seam.Linked .free rest otherRest ∧ rest.length < bound ∧
        (close? = none → rest = [])) Never := by
  induction fuel generalizing statements tokens others with
  | zero => exact absurd enough (Nat.not_lt_zero _)
  | succ fuel inductionHypothesis =>
      have closed (ends : close? = none → tokens = []) :
          seam.Twin tokens others (pure statements.reverse) (pure statements.reverse)
            (fun rest otherRest _ => seam.Linked .free rest otherRest ∧ rest.length < bound ∧
              (close? = none → rest = [])) Never :=
        result ⟨linked, inside, ends⟩
      refine front? linked.head?_eq ?_
      cases front : tokens.head? with
      | none =>
          rcases closes with rfl | rfl
          · exact closed fun _ => List.head?_eq_none_iff.1 front
          · exact unexpected _
      | some token =>
          have goesOn : seam.Twin tokens others
              (if token.kind = .mark .semicolon then do
                Parser.advance
                Parser.statementsUntil parts close? fuel statements
              else do
                let statement ← parts.statement
                Parser.statementsUntil parts close? fuel (statement :: statements))
              (if token.kind = .mark .semicolon then do
                Parser.advance
                Parser.statementsUntil twin close? (fuel + 1) statements
              else do
                let statement ← twin.statement
                Parser.statementsUntil twin close? (fuel + 1) (statement :: statements))
              (fun rest otherRest _ => seam.Linked .free rest otherRest ∧ rest.length < bound ∧
                (close? = none → rest = [])) Never := by
            split
            case isTrue isSemicolon =>
              have ahead : tokens.head?.map (·.kind) = some (.mark .semicolon) := by
                rw [front, Option.map_some, isSemicolon]
              exact advance_of_kind linked ahead (by simp) fun _ _ behind shorter =>
                inductionHypothesis behind (by omega) (by omega)
            case isFalse =>
              refine (twins.statement linked (by omega)).leaving fun _ _ _ behind shorter => ?_
              exact inductionHypothesis behind (by omega) (by omega)
          rcases closes with rfl | rfl
          · exact goesOn
          · dsimp only
            split
            · exact closed nofun
            · exact goesOn

/-- The statements of a body are free. -/
theorem body (twins : seam.OfParts parts twin room) (linked : seam.Linked stance tokens others)
    (opens : stance.after (.mark .leftBrace) = .free) (inside : tokens.length ≤ room) :
    seam.Twin tokens others (Parser.body parts) (Parser.body twin)
      (seam.Leaves .free tokens.length) Never := by
  have enough := twins.enough
  refine here ((expectMark linked _).leaving fun _ _ _ behind shorter => ?_)
  rw [opens] at behind
  rw [twins.fuel]
  refine (statementsUntil twins inside (.inr rfl) _ behind shorter (by omega)).bind ?_
    fun _ impossible => impossible.elim
  rintro statements _ _ ⟨further, still, -⟩
  exact (expectMark further _).leaving fun _ _ _ closed last => since (result ⟨closed, by omega⟩)

/-- A statement that ends with a body, at its body. -/
theorem bodied (twins : seam.OfParts parts twin room) (make : Span → Span × List Stmt → Stmt)
    (linked : seam.Linked stance tokens others) (opens : stance.after (.mark .leftBrace) = .free)
    (roomy : tokens.length ≤ room) (inside : tokens.length ≤ bound) :
    seam.Twin tokens others
      (do
        let body ← Parser.body parts
        return make (← Parser.since .null) body)
      (do
        let body ← Parser.body twin
        return make (← Parser.since .null) body) (seam.Leaves .free bound) Never :=
  (body twins linked opens roomy).leaving fun body _ _ behind shorter =>
    completed (make · body) behind (by omega)

/-! ## Statements -/

theorem optionalExpression (twins : seam.OfParts parts twin room)
    (linked : seam.Linked .free tokens others) (inside : tokens.length < parts.fuel) :
    seam.Twin tokens others (Parser.optionalExpression parts) (Parser.optionalExpression twin)
      (fun rest otherRest _ => ∃ next, (next = .free ∨ next = .ended) ∧
        seam.Linked next rest otherRest ∧ rest.length ≤ tokens.length) Anything := by
  have nothing : seam.Twin tokens others (pure none) (pure (none : Option Expr))
      (fun rest otherRest _ => ∃ next, (next = .free ∨ next = .ended) ∧
        seam.Linked next rest otherRest ∧ rest.length ≤ tokens.length) Anything :=
    result ⟨.free, .inl rfl, linked, Nat.le_refl _⟩
  refine frontKind? linked.head?_eq ?_
  split
  · exact nothing
  · exact nothing
  · exact nothing
  · refine (twins.expression linked inside).bind ?_ fun _ _ => Halts.result trivial
    exact fun _ _ _ ⟨behind, shorter⟩ => result ⟨.ended, .inr rfl, behind, Nat.le_of_lt shorter⟩

/-- A declaration: its initial value is free. -/
theorem declaration (twins : seam.OfParts parts twin room)
    (linked : seam.Linked .free tokens others) (inside : tokens.length ≤ room) :
    seam.Twin tokens others (Parser.declaration parts) (Parser.declaration twin)
      (seam.Leaves .free tokens.length) Never := by
  have enough := twins.enough
  refine here ((expectKeyword linked _).leaving fun _ _ _ declared shorter => ?_)
  refine (identifier declared).leaving fun name _ _ named still => ?_
  have valued (isFormula : Bool) {rest otherRest : List Token}
      (linked : seam.Linked .free rest otherRest) (shorter : rest.length < tokens.length) :
      seam.Twin rest otherRest
        (do
          let initial ← parts.expression
          Parser.endStatement
          return Stmt.declare (← Parser.since .null) name initial isFormula)
        (do
          let initial ← twin.expression
          Parser.endStatement
          return Stmt.declare (← Parser.since .null) name initial isFormula)
        (seam.Leaves .free tokens.length) Never := by
    refine (twins.expression linked (by omega)).bind ?_ fun _ _ => Halts.endStatement.never_bind
    exact fun initial _ _ ⟨behind, shorter⟩ =>
      concluded (.declare · name initial isFormula) (.inr rfl) behind (by omega)
  refine acceptMark named (fun _ _ assigned shorter => valued false assigned (by omega)) ?_
  refine acceptMark named (fun _ _ assigned shorter => valued true assigned (by omega)) ?_
  exact since (concluded (.declare · name (.absent .null) false) (.inr rfl) named (by omega))

/-- Parameters stop in front of the closing parenthesis, and none of them is a number. -/
theorem parametersUntil (fuel : Nat) {names : List String}
    (linked : seam.Linked .parameters tokens others) (inside : tokens.length < bound)
    (enough : tokens.length < fuel) :
    seam.Twin tokens others (Parser.parametersUntil fuel names)
      (Parser.parametersUntil (fuel + 1) names) (seam.Leaves .parameters bound) Never := by
  induction fuel generalizing names tokens others with
  | zero => exact absurd enough (Nat.not_lt_zero _)
  | succ fuel inductionHypothesis =>
      refine isAtMark linked.head?_eq _ fun closed => ?_
      cases closed with
      | true => exact result ⟨linked, inside⟩
      | false =>
          refine (identifier linked).leaving fun name _ _ named shorter => ?_
          refine acceptMark named (fun _ _ further still => ?_) (result ⟨named, by omega⟩)
          exact inductionHypothesis further (by omega) (by omega)

/-- A function, with its body or its single statement. -/
theorem functionDeclaration (twins : seam.OfParts parts twin room) (isAsync : Bool)
    (linked : seam.Linked .free tokens others) (inside : tokens.length ≤ room) :
    seam.Twin tokens others (Parser.functionDeclaration parts isAsync)
      (Parser.functionDeclaration twin isAsync) (seam.Leaves .free tokens.length) Never := by
  have enough := twins.enough
  refine here ((expectKeyword linked _).leaving fun _ _ _ declared shorter => ?_)
  refine (identifier declared).leaving fun name _ _ named shorter => ?_
  refine (expectMark named _).leaving fun _ _ _ opened shorter => ?_
  rw [twins.fuel]
  refine (parametersUntil _ opened shorter (by omega)).leaving
    fun parameters _ _ listed shorter => ?_
  refine (expectMark listed _).leaving fun _ _ _ closed shorter => ?_
  refine isAtMark closed.head?_eq _ fun isBody => ?_
  cases isBody with
  | true =>
      exact bodied twins (fun span body => .function span name parameters body.2 isAsync) closed rfl
        (by omega) (by omega)
  | false =>
      refine (twins.statement closed (by omega)).leaving fun statement _ _ behind shorter => ?_
      exact completed (.function · name parameters [statement] isAsync) behind (by omega)

/-- A condition with its two branches. -/
theorem conditionalStatement (twins : seam.OfParts parts twin room)
    (linked : seam.Linked .free tokens others) (inside : tokens.length ≤ room) :
    seam.Twin tokens others (Parser.conditionalStatement parts) (Parser.conditionalStatement twin)
      (seam.Leaves .free tokens.length) Never := by
  have enough := twins.enough
  refine here ((expectKeyword linked _).leaving fun _ _ _ asked shorter => ?_)
  refine (twins.expression asked (by omega)).bind ?_ fun _ _ => (Halts.body _).never_bind
  rintro test _ _ ⟨tested, shorter⟩
  refine (body twins tested rfl (by omega)).leaving fun consequent _ _ behind shorter => ?_
  have finished (alternate : Option Stmt) {rest otherRest : List Token}
      (linked : seam.Linked .free rest otherRest) (shorter : rest.length < tokens.length) :=
    completed (.conditional · test consequent.1 consequent.2 alternate) linked shorter
  refine accept behind (by simp) (fun _ _ otherwise shorter => ?_) (finished none behind (by omega))
  refine isAt otherwise.head?_eq _ fun isIf => ?_
  cases isIf with
  | true =>
      exact (twins.statement otherwise (by omega)).leaving fun statement _ _ further shorter =>
        finished (some statement) further (by omega)
  | false =>
      exact (body twins otherwise rfl (by omega)).leaving fun alternate _ _ further shorter =>
        finished (some (.block alternate.1 alternate.2)) further (by omega)

theorem attemptStatement (twins : seam.OfParts parts twin room)
    (linked : seam.Linked .free tokens others) (inside : tokens.length ≤ room) :
    seam.Twin tokens others (Parser.attemptStatement parts) (Parser.attemptStatement twin)
      (seam.Leaves .free tokens.length) Never := by
  refine here ((expectKeyword linked _).leaving fun _ _ _ tried shorter => ?_)
  refine (body twins tried rfl (by omega)).leaving fun attempted _ _ behind shorter => ?_
  refine (expectKeyword behind _).leaving fun _ _ _ caught shorter => ?_
  refine isAt caught.head?_eq _ fun isName => ?_
  cases isName with
  | true =>
      refine (identifier caught).leaving fun name _ _ named shorter => ?_
      exact bodied twins (fun span handler => .attempt span attempted.1 attempted.2 name handler.1
        handler.2) named rfl (by omega) (by omega)
  | false =>
      exact bodied twins (fun span handler => .attempt span attempted.1 attempted.2 "" handler.1
        handler.2) caught rfl (by omega) (by omega)

theorem importStatement (linked : seam.Linked .free tokens others) :
    seam.Twin tokens others Parser.importStatement Parser.importStatement
      (seam.Leaves .free tokens.length) Never := by
  refine here ((expectKeyword linked _).leaving fun _ _ _ imported shorter => ?_)
  have named (source : String) {rest otherRest : List Token}
      (linked : seam.Linked .ended rest otherRest) (shorter : rest.length < tokens.length) :
      seam.Twin rest otherRest
        (do
          let aliasName ← do
            if ← Parser.accept (.keyword .kwAs) then Parser.identifier else pure ""
          Parser.endStatement
          return Stmt.imports (← Parser.since .null) source aliasName)
        (do
          let aliasName ← do
            if ← Parser.accept (.keyword .kwAs) then Parser.identifier else pure ""
          Parser.endStatement
          return Stmt.imports (← Parser.since .null) source aliasName)
        (seam.Leaves .free tokens.length) Never := by
    refine accept linked (by simp) (fun _ _ renamed still => ?_) ?_
    · refine (identifier renamed).leaving fun aliasName _ _ behind shorter => ?_
      exact concluded (.imports · source aliasName) (.inr rfl) behind (by omega)
    · exact concluded (.imports · source "") (.inr rfl) linked shorter
  refine isAt imported.head?_eq _ fun isName => ?_
  cases isName with
  | true =>
      exact (identifier imported).leaving fun source _ _ behind shorter =>
        named source behind (by omega)
  | false =>
      exact (expect imported (by simp)).leaving fun token _ _ behind shorter =>
        named token.content behind (by omega)

/-- An expression statement or an assignment. -/
theorem expressionStatement (twins : seam.OfParts parts twin room)
    (linked : seam.Linked .free tokens others) (inside : tokens.length < parts.fuel) :
    seam.Twin tokens others (Parser.expressionStatement parts) (Parser.expressionStatement twin)
      (seam.Leaves .free tokens.length) Never := by
  refine here ((twins.expression linked inside).bind ?_ fun expr _ => ?_)
  · rintro expr rest otherRest ⟨behind, shorter⟩
    refine frontKind? behind.head?_eq ?_
    cases isOperator : (rest.head?.map (·.kind)).bind assignOperator? with
    | none => exact concluded (.evaluate · expr) (.inr rfl) behind shorter
    | some operator =>
        -- What cannot be assigned to is refused by both.
        have assigned : seam.Twin rest otherRest
            (do
              Parser.advance
              let right ← parts.expression
              Parser.endStatement
              return Stmt.assign (← Parser.since .null) expr operator right)
            (do
              Parser.advance
              let right ← twin.expression
              Parser.endStatement
              return Stmt.assign (← Parser.since .null) expr operator right)
            (seam.Leaves .free tokens.length) Never := by
          obtain ⟨kind, ahead, isAssign⟩ := Option.bind_eq_some_iff.1 isOperator
          have opens : Stance.ended.after kind = .free := stance_of_assignOperator? isAssign
          refine advance_of_kind behind ahead ?_ fun _ _ further shorter => ?_
          · rintro rfl
            cases isAssign
          · rw [opens] at further
            refine (twins.expression further (by omega)).bind ?_ fun _ _ =>
              Halts.endStatement.never_bind
            exact fun right _ _ ⟨last, shorter⟩ =>
              concluded (.assign · expr operator right) (.inr rfl) last (by omega)
        cases expr.isAssignable with
        | true => exact assigned
        | false => exact fun _ _ _ _ _ _ => .neither
  · refine Halts.frontKind?.bind ?_
    rintro _ rfl
    have notAssigned : (some seam.operand.kind).bind assignOperator? = none := by
      rcases seam.operand_kind with isName | isParen
      · rw [isName]
        rfl
      · rw [isParen]
        rfl
    rw [notAssigned]
    exact Halts.endStatement.never_bind

theorem scopeDeclaration (twins : seam.OfParts parts twin room)
    (make : Span → String → List Stmt → Stmt) {kind : TokenKind}
    (linked : seam.Linked .free tokens others) (ahead : tokens.head?.map (·.kind) = some kind)
    (notNumber : kind ≠ .number) (opens : kind.stance .bound = .free)
    (inside : tokens.length ≤ room) :
    seam.Twin tokens others (Parser.scopeDeclaration parts .null make)
      (Parser.scopeDeclaration twin .null make) (seam.Leaves .free tokens.length) Never := by
  refine advance_of_kind linked ahead notNumber fun _ _ behind shorter => ?_
  change seam.Linked (kind.stance .bound) _ _ at behind
  rw [opens] at behind
  refine (identifier behind).leaving fun name _ _ named shorter => ?_
  exact bodied twins (fun span body => make span name body.2) named rfl (by omega) (by omega)

theorem bareStatement (make : Span → Stmt) {kind : TokenKind}
    (linked : seam.Linked .free tokens others) (ahead : tokens.head?.map (·.kind) = some kind)
    (notNumber : kind ≠ .number) (opens : kind.stance .bound = .free) :
    seam.Twin tokens others (Parser.bareStatement .null make) (Parser.bareStatement .null make)
      (seam.Leaves .free tokens.length) Never :=
  advance_of_kind linked ahead notNumber fun _ _ behind shorter =>
    concluded make (.inl opens) behind shorter

/-- A statement that hands over an optional value. -/
theorem optionalStatement (twins : seam.OfParts parts twin room)
    (make : Span → Option Expr → Stmt) {kind : TokenKind}
    (linked : seam.Linked .free tokens others) (ahead : tokens.head?.map (·.kind) = some kind)
    (notNumber : kind ≠ .number) (opens : kind.stance .bound = .free)
    (inside : tokens.length ≤ room) :
    seam.Twin tokens others
      (do
        Parser.advance
        let argument ← Parser.optionalExpression parts
        Parser.endStatement
        return make (← Parser.since .null) argument)
      (do
        Parser.advance
        let argument ← Parser.optionalExpression twin
        Parser.endStatement
        return make (← Parser.since .null) argument) (seam.Leaves .free tokens.length) Never := by
  have enough := twins.enough
  refine advance_of_kind linked ahead notNumber fun _ _ behind shorter => ?_
  change seam.Linked (kind.stance .bound) _ _ at behind
  rw [opens] at behind
  refine (optionalExpression twins behind (by omega)).bind ?_ fun _ _ =>
    Halts.endStatement.never_bind
  rintro argument _ _ ⟨next, settled, further, shorter⟩
  exact concluded (make · argument) settled further (by omega)

/-- No statement begins with the seam unless it is an expression statement. -/
theorem statementStep (twins : seam.OfParts parts twin room)
    (linked : seam.Linked .free tokens others) (roomy : tokens.length ≤ room)
    (inside : tokens.length < parts.fuel) :
    seam.Twin tokens others (Parser.statementStep parts) (Parser.statementStep twin)
      (seam.Leaves .free tokens.length) Never := by
  refine here (frontKind? linked.head?_eq ?_)
  split
  case h_1 =>
    exact bodied twins (fun _ body => .block body.1 body.2) linked rfl roomy (Nat.le_refl _)
  case h_2 => exact declaration twins linked roomy
  case h_3 => exact functionDeclaration twins false linked roomy
  case h_4 ahead =>
    exact advance_of_kind linked ahead (by simp) fun _ _ behind shorter =>
      (functionDeclaration twins true behind (by omega)).widen (Nat.le_of_lt shorter)
  case h_5 ahead => exact scopeDeclaration twins .scope linked ahead (by simp) rfl roomy
  case h_6 ahead => exact scopeDeclaration twins .context linked ahead (by simp) rfl roomy
  case h_7 => exact conditionalStatement twins linked roomy
  case h_8 ahead =>
    refine advance_of_kind linked ahead (by simp) fun _ _ behind shorter => ?_
    refine (twins.expression behind (by omega)).bind ?_ fun _ _ => (Halts.body _).never_bind
    exact fun test _ _ ⟨tested, shorter⟩ => bodied twins
      (fun span body => .whileLoop span test body.1 body.2) tested rfl (by omega) (by omega)
  case h_9 ahead =>
    refine advance_of_kind linked ahead (by simp) fun _ _ behind shorter => ?_
    exact bodied twins (fun span body => .loop span body.1 body.2) behind rfl (by omega) (by omega)
  case h_10 ahead =>
    refine advance_of_kind linked ahead (by simp) fun _ _ behind shorter => ?_
    refine (identifier behind).leaving fun name _ _ named shorter => ?_
    refine (expectKeyword named _).leaving fun _ _ _ within shorter => ?_
    refine (twins.expression within (by omega)).bind ?_ fun _ _ => (Halts.body _).never_bind
    exact fun iterable _ _ ⟨iterated, shorter⟩ => bodied twins
      (fun span body => .forEach span name iterable body.1 body.2) iterated rfl (by omega)
      (by omega)
  case h_11 => exact attemptStatement twins linked roomy
  case h_12 ahead => exact optionalStatement twins .returns linked ahead (by simp) rfl roomy
  case h_13 ahead => exact optionalStatement twins .yields linked ahead (by simp) rfl roomy
  case h_14 ahead =>
    refine advance_of_kind linked ahead (by simp) fun _ _ behind shorter => ?_
    refine (twins.expression behind (by omega)).bind ?_ fun _ _ => Halts.endStatement.never_bind
    exact fun argument _ _ ⟨thrown, shorter⟩ =>
      concluded (.throws · argument) (.inr rfl) thrown (by omega)
  case h_15 ahead => exact bareStatement .breaks linked ahead (by simp) rfl
  case h_16 ahead => exact bareStatement .continues linked ahead (by simp) rfl
  case h_17 => exact importStatement linked
  case h_18 => exact expressionStatement twins linked inside

/-- Reading a statement, by induction on the nesting. -/
theorem statement (fuel : Nat) (linked : seam.Linked .free tokens others)
    (room : tokens.length < fuel) :
    seam.Twin tokens others (Parser.statement fuel) (Parser.statement (fuel + 1))
      (seam.Leaves .free tokens.length) Never := by
  induction fuel generalizing tokens others with
  | zero => exact absurd room (Nat.not_lt_zero _)
  | succ fuel inductionHypothesis =>
      exact statementStep ⟨rfl, Nat.le_succ fuel, inductionHypothesis, expression⟩ linked
        (Nat.le_of_lt_succ room) room

/-- A program that is read to its end has passed the seam, whose number is not bound. -/
theorem program {fuel : Nat} (linked : seam.Linked .free tokens others)
    (room : tokens.length < fuel) :
    seam.Twin tokens others (Parser.program fuel) (Parser.program (fuel + 1))
      (fun _ _ _ => seam.stance ≠ .bound) Never := by
  refine here ((statementsUntil ⟨rfl, Nat.le_refl fuel, statement fuel, expression⟩ (Nat.le_refl _)
    (.inl rfl) _ linked room room).bind ?_ fun _ impossible => impossible.elim)
  rintro statements rest otherRest ⟨behind, -, ended⟩
  rcases behind.split with ⟨-, -, loose⟩ | ⟨-, rfl, -⟩ | ⟨_, _, _, rfl, -, -⟩
  · exact since (result loose)
  · cases ended rfl
  · cases ended rfl

end Twin
end Seam
end Parser
end ScopeScript
