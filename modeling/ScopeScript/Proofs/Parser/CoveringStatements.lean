import ScopeScript.Proofs.Parser.Covering
import ScopeScript.Proofs.Parser.Provenance

/-!
# How tokens cover statements

Every production of statements covers what it reads by the statement it makes, and a program is
covered by all tokens of its source text (`covers_of_parse`). The loop over the statements of a
program ends at the end of the input, because each round reads at least one token.
-/

namespace ScopeScript
namespace Parser

open Input (Covers)

namespace Takes

variable {input : Input} {position first past : Nat} {token : Token} {parts : Parts}

/-- The parsers that statements are made of. -/
structure OfParts (input : Input) (parts : Parts) : Prop where
  statement : Traces input parts.statement Stmt.outline
  expression : Traces input parts.expression Expr.outline

/-- The end of a statement covers nothing. -/
theorem endStatement :
    Takes input position Parser.endStatement fun next _ => Covers input position next [] := by
  refine (accept_silent rfl).bind fun isThere _ passed => ?_
  cases isThere with
  | true => exact result passed
  | false =>
      refine (Looks.isAtMark _).bind (Looks.isAtEnd.bind ?_)
      split
      · exact result passed
      · exact unexpected _

/-- A statement ends with a semicolon, which belongs to it. -/
theorem ended {part : Outline} {others : List Outline} {make : Span → Stmt}
    (covers : Covers input first past (part :: others))
    (shape : ∀ span, (make span).outline = .node span (part :: others)) :
    Takes input past
      (do
        Parser.endStatement
        return make (← Parser.since (input.spanAt first)))
      fun next statement => Covers input first next [statement.outline] := by
  refine endStatement.bind fun _ _ passed => ?_
  have all := covers.append passed
  rw [List.append_nil] at all
  exact parent all shape

/-! ## Bodies -/

/-- Statements are collected backwards. -/
theorem statements_reverse_cons (statement : Stmt) (statements : List Stmt) :
    Stmt.outlines (statement :: statements).reverse =
      Stmt.outlines statements.reverse ++ [statement.outline] := by
  simp [Stmt.outlines_eq_map]

/-- With enough fuel, statements up to the end of the input leave no token. -/
theorem statementsUntil (traces : OfParts input parts) (close? : Option Mark) (fuel : Nat)
    {statements : List Stmt} (covers : Covers input first past (Stmt.outlines statements.reverse)) :
    Takes input past (Parser.statementsUntil parts close? fuel statements) fun next read =>
      Covers input first next (Stmt.outlines read) ∧
        (close? = none → input.tokens.length < past + fuel → input.tokens[next]? = none) := by
  induction fuel generalizing statements past with
  | zero =>
      refine result ⟨covers, fun _ enough => ?_⟩
      exact List.getElem?_eq_none (by omega)
  | succ fuel inductionHypothesis =>
      -- The fuel that is left suffices behind at least one more token.
      have further {next : Nat} {longer : List Stmt} (moved : past < next)
          (covered : Covers input first next (Stmt.outlines longer.reverse)) :
          Takes input next (Parser.statementsUntil parts close? fuel longer) fun next read =>
            Covers input first next (Stmt.outlines read) ∧
              (close? = none → input.tokens.length < past + (fuel + 1) →
                input.tokens[next]? = none) := by
        refine (inductionHypothesis covered).mono fun read final ⟨all, atEnd⟩ => ⟨all, ?_⟩
        exact fun isNone enough => atEnd isNone (by omega)
      refine Looks.front?.bind ?_
      cases ahead : input.tokens[past]? with
      | none =>
          cases close? with
          | none => exact result ⟨covers, fun _ _ => ahead⟩
          | some close => exact unexpected _
      | some token =>
          have goesOn : Takes input past
              (if close?.map TokenKind.mark = some token.kind then
                return statements.reverse
              else if token.kind = .mark .semicolon then do
                Parser.advance
                Parser.statementsUntil parts close? fuel statements
              else do
                let statement ← parts.statement
                Parser.statementsUntil parts close? fuel (statement :: statements))
              fun next read => Covers input first next (Stmt.outlines read) ∧
                (close? = none → input.tokens.length < past + (fuel + 1) →
                  input.tokens[next]? = none) := by
            split
            · rename_i closed
              refine result ⟨covers, ?_⟩
              rintro rfl
              cases closed
            · split
              · rename_i isSemicolon
                refine (advance ahead).bind fun _ _ reached => ?_
                cases reached
                have passed := Covers.silent ahead (by rw [isSemicolon]; rfl)
                refine further (Nat.lt_succ_self past) ?_
                simpa using covers.append passed
              · refine (traces.statement past).bind fun statement next covered => ?_
                refine further (covered.lt (List.cons_ne_nil _ _)) ?_
                rw [statements_reverse_cons]
                exact covers.append covered
          cases close? <;> exact goesOn

/-- What stands in the braces of a body. -/
theorem bodyParts (traces : OfParts input parts) :
    Takes input position (Parser.body parts) fun next read =>
      Covers input position next (Stmt.outlines read.2) ∧ position < next ∧
        read.1 = input.cover position next := by
  refine Looks.here.bind ((expectMark rfl).bind fun _ _ ⟨opened, moved⟩ => ?_)
  refine (statementsUntil traces _ _ opened).bind fun statements _ ⟨covers, _⟩ => ?_
  refine (expectMark rfl).bind fun _ next ⟨closed, _⟩ => ?_
  have all := covers.append closed
  rw [List.append_nil] at all
  have further : position < next := by
    have := covers.le
    omega
  exact (Looks.since further (all.le_length further)).bind (result ⟨all, further, rfl⟩)

/-- A body is a node from its opening to its closing brace. -/
theorem body (traces : OfParts input parts) :
    Traces input (Parser.body parts) fun read => .node read.1 (Stmt.outlines read.2) := by
  intro position
  refine (bodyParts traces).mono fun read next ⟨covers, moved, span⟩ => ?_
  dsimp only
  rw [span]
  exact covers.whole moved

/-- An expression that is left out covers nothing. -/
theorem optionalExpression (traces : OfParts input parts) :
    Takes input position (Parser.optionalExpression parts) fun next argument =>
      Covers input position next (argument.map Expr.outline).toList := by
  refine Looks.frontKind?.bind ?_
  split
  · exact result .nil
  · exact result .nil
  · exact result .nil
  · exact (traces.expression position).bind fun expr _ covers => result covers

/-! ## Kinds of statements -/

/-- A declaration: an initial value that is left out stands where the declaration does. -/
theorem declaration (traces : OfParts input parts) :
    Traces input (Parser.declaration parts) Stmt.outline := by
  intro position
  refine Looks.here.bind ((keyword .kwLet).bind ?_)
  rintro _ _ ⟨word, isWord, kind, rfl⟩
  refine identifier.bind ?_
  rintro _ _ ⟨name, isThere, isName, rfl, rfl⟩
  have named := (Covers.silent isWord (by rw [kind]; rfl)).append (.named isThere isName)
  refine (accept (.mark .assign)).bind fun isValue _ reached => ?_
  cases isValue with
  | true =>
      obtain ⟨sign, found, isSign, rfl⟩ := reached
      have passed := Covers.silent found (by rw [isSign]; rfl)
      refine (traces.expression _).bind fun initial _ covers => ?_
      exact ended (named.append (passed.append covers)) fun span => rfl
  | false =>
      cases reached
      refine (accept (.mark .colonAssign)).bind fun isFormula _ reached => ?_
      cases isFormula with
      | true =>
          obtain ⟨sign, found, isSign, rfl⟩ := reached
          have passed := Covers.silent found (by rw [isSign]; rfl)
          refine (traces.expression _).bind fun initial _ covers => ?_
          exact ended (named.append (passed.append covers)) fun span => rfl
      | false =>
          cases reached
          have bare := Covers.blank isWord kind isThere isName .nil
          have inside := bare.le_length (by omega)
          refine (Looks.since (by omega) inside).bind ?_
          exact ended bare fun span => rfl

/-- Parameters are covered by their names. -/
theorem parametersUntil (fuel : Nat) {names : List String}
    (covers : Covers input first past (names.reverse.map .named)) :
    Takes input past (Parser.parametersUntil fuel names) fun next read =>
      Covers input first next (read.map .named) := by
  induction fuel generalizing names past with
  | zero => exact result covers
  | succ fuel inductionHypothesis =>
      refine (Looks.isAtMark _).bind ?_
      split
      · exact result covers
      · refine name.bind fun label _ named => ?_
        refine (accept_silent rfl).bind fun goesOn next passed => ?_
        have longer : Covers input first next ((label :: names).reverse.map .named) := by
          simpa using covers.append (named.append passed)
        cases goesOn with
        | true => exact inductionHypothesis longer
        | false => exact result longer

/-- A function covers its name, its parameters and its body. -/
theorem functionDeclaration (traces : OfParts input parts) (isAsync : Bool) :
    Traces input (Parser.functionDeclaration parts isAsync) Stmt.outline := by
  intro position
  refine Looks.here.bind ((expectKeyword rfl).bind fun _ _ ⟨word, _⟩ => ?_)
  refine name.bind fun label _ named => (expectMark rfl).bind fun _ _ ⟨opened, _⟩ => ?_
  refine (parametersUntil _ opened).bind fun parameters _ covers => ?_
  refine (expectMark rfl).bind fun _ _ ⟨closed, _⟩ => ?_
  have head := word.append (named.append (covers.append closed))
  rw [List.append_nil] at head
  have finished (statements : List Stmt) {next : Nat}
      (covers : Covers input _ next (Stmt.outlines statements)) : Takes input next
      (do
        return Stmt.function (← Parser.since (input.spanAt position)) label parameters statements
          isAsync)
      fun next statement => Covers input position next [statement.outline] :=
    parent (head.append covers) fun span => rfl
  refine (Looks.isAtMark _).bind ?_
  split
  · exact (bodyParts traces).bind fun read _ ⟨covers, _⟩ => finished read.2 covers
  · refine (traces.statement _).bind fun statement _ covers => ?_
    exact finished [statement] covers

/-- A condition covers its test and its branches. -/
theorem conditionalStatement (traces : OfParts input parts) :
    Traces input (Parser.conditionalStatement parts) Stmt.outline := by
  intro position
  refine Looks.here.bind ((expectKeyword rfl).bind fun _ _ ⟨word, _⟩ => ?_)
  refine (traces.expression _).bind fun test _ tested => ?_
  refine (body traces _).bind fun consequent _ chosen => ?_
  refine (accept_silent rfl).bind fun hasElse _ passed => ?_
  have head := word.append (tested.append (chosen.append passed))
  have finished {alternate : Option Stmt} {next : Nat}
      (covers : Covers input _ next (Stmt.outlineOf? alternate)) : Takes input next
      (do
        return Stmt.conditional (← Parser.since (input.spanAt position)) test consequent.1
          consequent.2 alternate)
      fun next statement => Covers input position next [statement.outline] :=
    parent (head.append covers) fun span => rfl
  cases hasElse with
  | false => exact finished .nil
  | true =>
      refine (Looks.isAt _).bind ?_
      split
      · exact (traces.statement _).bind fun statement _ covers => finished covers
      · exact (body traces _).bind fun read _ covers => finished covers

/-- Names are not empty, so an empty text can say that there is none. -/
def NamesSomething (input : Input) : Prop :=
  ∀ token ∈ input.tokens, token.kind = .name → token.text ≠ ""

/-- A name that is read is not empty. -/
theorem name? (named : NamesSomething input) :
    Takes input position Parser.identifier fun next label =>
      Covers input position next (Outline.named? label) := by
  refine identifier.mono ?_
  rintro _ _ ⟨token, found, isName, rfl, rfl⟩
  rw [Outline.named?, if_neg (named token (List.mem_of_getElem? found) isName)]
  exact .named found isName

/-- An attempt covers its body, the name that is caught and its handler. -/
theorem attemptStatement (traces : OfParts input parts) (named : NamesSomething input) :
    Traces input (Parser.attemptStatement parts) Stmt.outline := by
  intro position
  refine Looks.here.bind ((expectKeyword rfl).bind fun _ _ ⟨word, _⟩ => ?_)
  refine (body traces _).bind fun attempted _ tried => ?_
  refine (expectKeyword rfl).bind fun _ behind ⟨catchWord, _⟩ => ?_
  have handled {caught : String} {next : Nat}
      (covers : Covers input behind next (Outline.named? caught)) : Takes input next
      (do
        let handler ← Parser.body parts
        return Stmt.attempt (← Parser.since (input.spanAt position)) attempted.1 attempted.2 caught
          handler.1 handler.2)
      fun next statement => Covers input position next [statement.outline] := by
    refine (body traces _).bind fun handler _ handles => ?_
    have all := word.append (tried.append (catchWord.append (covers.append handles)))
    exact parent all fun span => rfl
  refine (Looks.isAt _).bind ?_
  split
  · exact (name? named).bind fun caught _ covers => handled covers
  · exact handled .nil

/-- An import covers its file and its alias. -/
theorem importStatement (named : NamesSomething input) :
    Traces input Parser.importStatement Stmt.outline := by
  intro position
  refine Looks.here.bind ((keyword .kwImport).bind ?_)
  rintro _ _ ⟨word, isWord, kind, rfl⟩
  have imported {file : Token} {label : String}
      (isThere : input.tokens[position + 1]? = some file)
      (isFile : file.kind = .name ∨ file.kind = .text)
      (isSource : Token.Role.leaf? .source file = some (.source label)) :
      Takes input (position + 2)
        (do
          let aliasName ← do
            if ← Parser.accept (.keyword .kwAs) then Parser.identifier else pure ""
          Parser.endStatement
          return Stmt.imports (← Parser.since (input.spanAt position)) label aliasName)
        fun next statement => Covers input position next [statement.outline] := by
    refine (accept_silent rfl).bind fun isNamed _ passed => ?_
    have source := Covers.source isWord kind isThere isFile isSource passed
    cases isNamed with
    | true =>
        refine (name? named).bind fun aliasName _ covers => ?_
        exact ended (source.append covers) fun span => rfl
    | false => exact ended source fun span => rfl
  refine (Looks.isAt _).bind ?_
  split
  · refine identifier.bind ?_
    rintro _ _ ⟨name, isThere, isName, rfl, rfl⟩
    exact imported isThere (.inl isName) (by simp [Token.Role.leaf?, isName])
  · refine (expect .text).bind ?_
    rintro file _ ⟨isThere, isText, rfl⟩
    exact imported isThere (.inr isText) (by simp [Token.Role.leaf?, isText])

/-- Operators of assignments are punctuation. -/
theorem isSilent_of_assignOperator? {kind : TokenKind} {operator : AssignOperator}
    (found : assignOperator? kind = some operator) : kind.isSilent = true := by
  unfold assignOperator? at found
  split at found <;> first | rfl | cases found

/-- An expression statement or an assignment covers its expressions. -/
theorem expressionStatement (traces : OfParts input parts) :
    Traces input (Parser.expressionStatement parts) Stmt.outline := by
  intro position
  refine Looks.here.bind ((traces.expression position).bind fun expr next covers => ?_)
  refine Looks.frontKind?.bind ?_
  cases ahead : input.tokens[next]? with
  | none => exact ended covers fun span => rfl
  | some token =>
      rw [Option.map_some, Option.bind_some]
      split
      · rename_i operator isOperator
        have assigned : Takes input next
            (do
              Parser.advance
              let right ← parts.expression
              Parser.endStatement
              return Stmt.assign (← Parser.since (input.spanAt position)) expr operator right)
            fun next statement => Covers input position next [statement.outline] := by
          refine (advance_silent ahead (isSilent_of_assignOperator? isOperator)).bind ?_
          intro _ _ passed
          refine (traces.expression _).bind fun right _ covered => ?_
          exact ended (covers.append (passed.append covered)) fun span => rfl
        cases expr.isAssignable with
        | true => exact assigned
        | false => exact never_bind (fail _ _)
      · exact ended covers fun span => rfl

/-- A scope or a context covers its name and its body. -/
theorem scopeDeclaration (traces : OfParts input parts)
    (found : input.tokens[position]? = some token) (silent : token.kind.isSilent = true)
    {make : Span → String → List Stmt → Stmt}
    (shape : ∀ span label statements, (make span label statements).outline =
      .node span (.named label :: Stmt.outlines statements)) :
    Takes input position (Parser.scopeDeclaration parts (input.spanAt position) make)
      fun next statement => Covers input position next [statement.outline] := by
  refine (advance_silent found silent).bind fun _ _ word => name.bind fun label _ named => ?_
  refine (bodyParts traces).bind fun read _ ⟨statements, _⟩ => ?_
  exact parent (word.append (named.append statements)) fun span => shape span label read.2

theorem bareStatement (found : input.tokens[position]? = some token)
    (silent : token.kind.isSilent = true) {make : Span → Stmt}
    (shape : ∀ span, (make span).outline = .node span []) :
    Takes input position (Parser.bareStatement (input.spanAt position) make)
      fun next statement => Covers input position next [statement.outline] := by
  refine (advance found).bind fun _ _ reached => ?_
  cases reached
  refine endStatement.bind fun _ next passed => ?_
  have moved : position < next := passed.le
  exact node ((Covers.silent found silent).append passed) moved shape

/-- A statement that hands over an optional value. -/
theorem optionalStatement (traces : OfParts input parts)
    (found : input.tokens[position]? = some token) (silent : token.kind.isSilent = true)
    {make : Span → Option Expr → Stmt}
    (shape : ∀ span argument, (make span argument).outline =
      .node span (argument.map Expr.outline).toList) :
    Takes input position
      (do
        Parser.advance
        let argument ← Parser.optionalExpression parts
        Parser.endStatement
        return make (← Parser.since (input.spanAt position)) argument)
      fun next statement => Covers input position next [statement.outline] := by
  refine (advance found).bind fun _ _ reached => ?_
  cases reached
  refine (optionalExpression traces).bind fun argument _ covers => ?_
  refine endStatement.bind fun _ next passed => ?_
  have moved : position < next := Nat.lt_of_lt_of_le covers.le passed.le
  have all := (Covers.silent found silent).append (covers.append passed)
  rw [List.nil_append, List.append_nil] at all
  exact node all moved fun span => shape span argument

/-- Every statement covers its outline. -/
theorem statementStep (traces : OfParts input parts) (named : NamesSomething input) :
    Traces input (Parser.statementStep parts) Stmt.outline := by
  intro position
  refine Looks.here.bind (Looks.frontKind?.bind ?_)
  cases ahead : input.tokens[position]? with
  | none => exact expressionStatement traces position
  | some token =>
      rw [Option.map_some]
      split
      case h_1 => exact (body traces position).bind fun read _ covers => result covers
      case h_2 => exact declaration traces position
      case h_3 => exact functionDeclaration traces false position
      case h_4 kind =>
        -- The keyword in front does not belong to the function.
        refine (advance_silent ahead (by rw [Option.some.inj kind]; rfl)).bind fun _ _ word => ?_
        exact (functionDeclaration traces true _).mono fun _ _ covers => word.append covers
      case h_5 kind =>
        exact scopeDeclaration traces ahead (by rw [Option.some.inj kind]; rfl) fun _ _ _ => rfl
      case h_6 kind =>
        exact scopeDeclaration traces ahead (by rw [Option.some.inj kind]; rfl) fun _ _ _ => rfl
      case h_7 => exact conditionalStatement traces position
      case h_8 kind =>
        refine (advance_silent ahead (by rw [Option.some.inj kind]; rfl)).bind fun _ _ word => ?_
        refine (traces.expression _).bind fun test _ tested => ?_
        refine (body traces _).bind fun read _ covers => ?_
        exact parent (word.append (tested.append covers)) fun span => rfl
      case h_9 kind =>
        refine (advance_silent ahead (by rw [Option.some.inj kind]; rfl)).bind fun _ _ word => ?_
        refine (body traces _).bind fun read _ covers => ?_
        exact parent (word.append covers) fun span => rfl
      case h_10 kind =>
        refine (advance_silent ahead (by rw [Option.some.inj kind]; rfl)).bind fun _ _ word => ?_
        refine name.bind fun label _ loopName => (expectKeyword rfl).bind fun _ _ ⟨inWord, _⟩ => ?_
        refine (traces.expression _).bind fun iterable _ iterated => ?_
        refine (body traces _).bind fun read _ covers => ?_
        have all := word.append (loopName.append (inWord.append (iterated.append covers)))
        exact parent all fun span => rfl
      case h_11 => exact attemptStatement traces named position
      case h_12 kind =>
        exact optionalStatement traces ahead (by rw [Option.some.inj kind]; rfl) fun _ _ => rfl
      case h_13 kind =>
        exact optionalStatement traces ahead (by rw [Option.some.inj kind]; rfl) fun _ _ => rfl
      case h_14 kind =>
        refine (advance_silent ahead (by rw [Option.some.inj kind]; rfl)).bind fun _ _ word => ?_
        refine (traces.expression _).bind fun argument _ covers => ?_
        exact ended (word.append covers) fun span => rfl
      case h_15 kind => exact bareStatement ahead (by rw [Option.some.inj kind]; rfl) fun _ => rfl
      case h_16 kind => exact bareStatement ahead (by rw [Option.some.inj kind]; rfl) fun _ => rfl
      case h_17 => exact importStatement named position
      case h_18 => exact expressionStatement traces position

/-- Statements are covered by what is read for them, by induction on the nesting. -/
theorem statement (named : NamesSomething input) (fuel : Nat) :
    Traces input (Parser.statement fuel) Stmt.outline := by
  induction fuel with
  | zero => exact fun _ => unexpected _
  | succ fuel inductionHypothesis =>
      exact statementStep ⟨inductionHypothesis, expression (fuel + 1)⟩ named

/-- A program is read up to the end of the input. Without tokens it has no statements, and it
stands where the input ends. -/
theorem program (named : NamesSomething input) {fuel : Nat}
    (enough : input.tokens.length < fuel) :
    Takes input 0 (Parser.program fuel) fun next program =>
      Covers input 0 next (Stmt.outlines program.body) ∧ next = input.tokens.length ∧
        program.span = if input.tokens = [] then input.endSpan else input.cover 0 next := by
  refine Looks.here.bind ?_
  have traces : OfParts input ⟨Parser.statement fuel, Parser.expression fuel, fuel⟩ :=
    ⟨statement named fuel, expression fuel⟩
  refine (statementsUntil traces none fuel .nil).bind fun statements next ⟨covers, atEnd⟩ => ?_
  have behind : input.tokens.length ≤ next :=
    List.getElem?_eq_none_iff.1 (atEnd rfl (by omega))
  by_cases moved : 0 < next
  · have inside := covers.le_length moved
    refine (Looks.since moved inside).bind (result ⟨covers, by omega, ?_⟩)
    rw [if_neg (List.ne_nil_of_length_pos (by omega))]
  · have none : input.tokens = [] := List.length_eq_zero_iff.1 (by omega)
    obtain rfl : next = 0 := by omega
    refine Looks.since_start.bind (result ⟨covers, by simp [none], ?_⟩)
    simp [Input.spanAt, none]

end Takes

/-! ## Whole source texts -/

/-- The tokens of a source text. -/
def Input.ofSource (source : String) : Input where
  tokens := (Token.scan source).tokens
  endSpan := ⟨(Text.size source).toUInt64, (Text.size source).toUInt64⟩

/-- The names among the tokens of a source text are not empty. -/
theorem Input.ofSource_names (source : String) : Takes.NamesSomething (.ofSource source) := by
  intro token member isName empty
  obtain ⟨first, rest, word, -⟩ := ((Token.scan_tokens_sound source token member).name isName).1
  rw [empty] at word
  cases word

end Parser

/-- A parsed program is covered by all tokens of its source text. -/
theorem Program.covers_of_parse {path source : String} {program : Program}
    (parsed : Program.parse path source = .ok program) :
    (Parser.Input.ofSource source).Covers 0 (Token.scan source).tokens.length
        (Stmt.outlines program.body) ∧
      program.span =
        if (Token.scan source).tokens = [] then (Parser.Input.ofSource source).endSpan
        else (Parser.Input.ofSource source).cover 0 (Token.scan source).tokens.length := by
  unfold Program.parse Program.parseAt Parser.parseWith at parsed
  simp only [] at parsed
  split at parsed
  · cases parsed
  · unfold Parser.runOn at parsed
    simp only [Token.map_shift_zero, UInt64.add_zero] at parsed
    split at parsed
    · rename_i read ran
      cases parsed
      have takes := Parser.Takes.program (Parser.Input.ofSource_names source)
        (Nat.lt_succ_self (Token.scan source).tokens.length)
      obtain ⟨next, -, covers, rfl, span⟩ := takes _ _ ran
      exact ⟨covers, span⟩
    · cases parsed

end ScopeScript
