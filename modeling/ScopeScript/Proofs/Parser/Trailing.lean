import ScopeScript.Proofs.Parser.Twin

/-!
# Reading expressions with and without a trailing semicolon

Tokens and the same tokens with one more semicolon behind them are read side by side. `Trailing`
relates what is left of the two: as long as there are tokens left the next one is the same, and at
the end of the first ones the semicolon is either ahead or has been read. `Agrees` says that two
parsers go on from there side by side. It is closed under sequencing, so it is shown for each
production by following its text.

No production of expressions tells a semicolon from the end of the input, so none of them reads it.
All places are taken to be forgotten. The reading with the semicolon has one more token and so one
more unit of fuel at each level.
-/

namespace ScopeScript
namespace Parser

/-- What is left of some tokens, and of the same tokens with a semicolon behind them, which may have
been read at the end. -/
inductive Trailing : List Token → List Token → Prop
  | passed : Trailing [] []
  | ahead (semicolon : Token) : semicolon.kind = .mark .semicolon → Trailing [] [semicolon]
  | cons {tokens others : List Token} (token : Token) :
      Trailing tokens others → Trailing (token :: tokens) (token :: others)

/-- What two attempts come to: both are refused, or both read the same and leave related tokens,
fewer than a bound. -/
inductive Matches (bound : Nat) :
    Except Fault (α × Stream) → Except Fault (α × Stream) → Prop
  | both {value : α} {stream other : Stream} : stream.Unplaced → other.Unplaced →
      Trailing stream.tokens other.tokens → stream.tokens.length < bound →
      Matches bound (.ok (value, stream)) (.ok (value, other))
  | neither {fault otherFault : Fault} : Matches bound (.error fault) (.error otherFault)

/-- Two parsers that find some tokens each go on side by side. -/
def Agrees (tokens others : List Token) (parser twin : Parser α) (bound : Nat) : Prop :=
  ∀ stream other, stream.tokens = tokens → other.tokens = others → stream.Unplaced →
    other.Unplaced → Matches bound (parser stream) (twin other)

variable {tokens others rest otherRest : List Token} {bound wider : Nat}

namespace Trailing

/-- One more semicolon may stand behind any tokens. -/
theorem of_concat (tokens : List Token) {semicolon : Token}
    (isSemicolon : semicolon.kind = .mark .semicolon) :
    Trailing tokens (tokens ++ [semicolon]) := by
  induction tokens with
  | nil => exact .ahead semicolon isSemicolon
  | cons token tokens inductionHypothesis => exact .cons token inductionHypothesis

/-- Passing a token in both readings leaves related tokens. -/
theorem tail (trailing : Trailing tokens others) : Trailing tokens.tail others.tail := by
  cases trailing with
  | passed | ahead => exact .passed
  | cons _ trailing => exact trailing

/-- What does not tell a semicolon from the end sees the same in front of both. -/
theorem front_eq (trailing : Trailing tokens others) (look : Option TokenKind → β)
    (blind : look (some (.mark .semicolon)) = look none) :
    look (others.head?.map (·.kind)) = look (tokens.head?.map (·.kind)) := by
  cases trailing with
  | passed | cons => rfl
  | ahead semicolon isSemicolon =>
      simp only [List.head?_cons, Option.map_some, isSemicolon]
      exact blind

/-- While there are tokens left, both readings see the same one. -/
theorem exists_of_front {kind : TokenKind} (trailing : Trailing tokens others)
    (front : tokens.head?.map (·.kind) = some kind) :
    ∃ token rest otherRest, tokens = token :: rest ∧ others = token :: otherRest ∧
      token.kind = kind ∧ Trailing rest otherRest := by
  cases trailing with
  | passed | ahead => cases front
  | cons token trailing => exact ⟨token, _, _, rfl, rfl, Option.some.inj front, trailing⟩

end Trailing

namespace Agrees

/-! ## Sequencing -/

/-- Results that are the same on both sides. -/
theorem result {value : α} (trailing : Trailing tokens others) (inside : tokens.length < bound) :
    Agrees tokens others (pure value) (pure value) bound := by
  rintro stream other rfl rfl unplaced otherUnplaced
  exact .both unplaced otherUnplaced trailing inside

/-- Two pairs of parsers in a row. -/
theorem bind {first twinFirst : Parser β} {next twinNext : β → Parser α}
    (firstAgrees : Agrees tokens others first twinFirst bound)
    (nextAgrees : ∀ value rest otherRest, Trailing rest otherRest → rest.length < bound →
      Agrees rest otherRest (next value) (twinNext value) wider) :
    Agrees tokens others (first >>= next) (twinFirst >>= twinNext) wider := by
  intro stream other isTokens isOthers unplaced otherUnplaced
  have matched := firstAgrees stream other isTokens isOthers unplaced otherUnplaced
  rw [bind_apply, bind_apply]
  generalize first stream = attempt at matched ⊢
  generalize twinFirst other = otherAttempt at matched ⊢
  cases matched with
  | both unplaced otherUnplaced trailing inside =>
      exact nextAgrees _ _ _ trailing inside _ _ rfl rfl unplaced otherUnplaced
  | neither => exact .neither

/-- A bound on what is left may be widened. -/
theorem widen {parser twin : Parser α} (agrees : Agrees tokens others parser twin bound)
    (within : bound ≤ wider) : Agrees tokens others parser twin wider := by
  intro stream other isTokens isOthers unplaced otherUnplaced
  have matched := agrees stream other isTokens isOthers unplaced otherUnplaced
  generalize parser stream = attempt at matched ⊢
  generalize twin other = otherAttempt at matched ⊢
  cases matched with
  | both unplaced otherUnplaced trailing inside =>
      exact .both unplaced otherUnplaced trailing (Nat.lt_of_lt_of_le inside within)
  | neither => exact .neither

/-- Both readings are refused together; where and why may differ. -/
theorem fail (span otherSpan : Span) (cause otherCause : Cause) :
    Agrees tokens others (Parser.fail span cause : Parser α) (Parser.fail otherSpan otherCause)
      bound :=
  fun _ _ _ _ _ _ => .neither

theorem unexpected (wanted : String) :
    Agrees tokens others (Parser.unexpected wanted : Parser α) (Parser.unexpected wanted) bound :=
  fun _ _ _ _ _ _ => .neither

/-! ## Tokens -/

/-- Both readings start nowhere, as places are forgotten. -/
theorem here {next twinNext : Span → Parser α}
    (nextAgrees : Agrees tokens others (next .null) (twinNext .null) bound) :
    Agrees tokens others (Parser.here >>= next) (Parser.here >>= twinNext) bound := by
  intro stream other isTokens isOthers unplaced otherUnplaced
  rw [bind_apply, bind_apply, unplaced.here, otherUnplaced.here]
  exact nextAgrees stream other isTokens isOthers unplaced otherUnplaced

theorem since {next twinNext : Span → Parser α}
    (nextAgrees : Agrees tokens others (next .null) (twinNext .null) bound) :
    Agrees tokens others (Parser.since .null >>= next) (Parser.since .null >>= twinNext) bound := by
  intro stream other isTokens isOthers unplaced otherUnplaced
  rw [bind_apply, bind_apply, unplaced.since, otherUnplaced.since]
  exact nextAgrees stream other isTokens isOthers unplaced otherUnplaced

/-- The next token is looked at without telling a semicolon from the end. -/
theorem front? {next twinNext : Option Token → Parser α} (trailing : Trailing tokens others)
    (blind : ∀ token : Token, token.kind = .mark .semicolon →
      twinNext (some token) = twinNext none)
    (nextAgrees : Agrees tokens others (next tokens.head?) (twinNext tokens.head?) bound) :
    Agrees tokens others (Parser.front? >>= next) (Parser.front? >>= twinNext) bound := by
  rintro stream other rfl rfl unplaced otherUnplaced
  have seen : twinNext other.tokens.head? = twinNext stream.tokens.head? := by
    generalize stream.tokens = tokens at trailing
    generalize other.tokens = others at trailing
    cases trailing with
    | passed | cons => rfl
    | ahead semicolon isSemicolon => exact blind semicolon isSemicolon
  have met := nextAgrees stream other rfl rfl unplaced otherUnplaced
  rw [← seen] at met
  exact met

/-- What looks at the next kind without telling a semicolon from the end goes on alike. -/
theorem frontKind? {next twinNext : Option TokenKind → Parser α} (trailing : Trailing tokens others)
    (blind : twinNext (some (.mark .semicolon)) = twinNext none)
    (nextAgrees : Agrees tokens others (next (tokens.head?.map (·.kind)))
      (twinNext (tokens.head?.map (·.kind))) bound) :
    Agrees tokens others (Parser.frontKind? >>= next) (Parser.frontKind? >>= twinNext) bound := by
  rintro stream other rfl rfl unplaced otherUnplaced
  have met := nextAgrees stream other rfl rfl unplaced otherUnplaced
  rw [← trailing.front_eq _ blind] at met
  exact met

/-- The same for the kind behind the next token. -/
theorem secondKind? {next twinNext : Option TokenKind → Parser α}
    (trailing : Trailing tokens others)
    (blind : twinNext (some (.mark .semicolon)) = twinNext none)
    (nextAgrees : ∀ kind?, Agrees tokens others (next kind?) (twinNext kind?) bound) :
    Agrees tokens others (Parser.secondKind? >>= next) (Parser.secondKind? >>= twinNext) bound := by
  rintro stream other rfl rfl unplaced otherUnplaced
  have met := nextAgrees (stream.tokens.tail.head?.map (·.kind)) stream other rfl rfl unplaced
    otherUnplaced
  rw [← trailing.tail.front_eq _ blind] at met
  exact met

/-- No kind but the semicolon is told from the end. -/
theorem isAt {kind : TokenKind} {next twinNext : Bool → Parser α}
    (trailing : Trailing tokens others) (notSemicolon : kind ≠ .mark .semicolon)
    (nextAgrees : Agrees tokens others (next (tokens.head?.map (·.kind) == some kind))
      (twinNext (tokens.head?.map (·.kind) == some kind)) bound) :
    Agrees tokens others (Parser.isAt kind >>= next) (Parser.isAt kind >>= twinNext) bound := by
  rw [isAt_bind_eq, isAt_bind_eq]
  refine frontKind? trailing ?_ nextAgrees
  have unequal : (some (TokenKind.mark .semicolon) == some kind) = false := by
    simpa using notSemicolon.symm
  rw [unequal]
  rfl

theorem isAtMark {mark : Mark} {next twinNext : Bool → Parser α}
    (trailing : Trailing tokens others) (notSemicolon : mark ≠ .semicolon)
    (nextAgrees : ∀ found, Agrees tokens others (next found) (twinNext found) bound) :
    Agrees tokens others (Parser.isAtMark mark >>= next) (Parser.isAtMark mark >>= twinNext)
      bound :=
  isAt trailing (by simpa using notSemicolon) (nextAgrees _)

/-- No operator is written by a semicolon. -/
theorem operatorAhead? {level : Level} {next twinNext : Option BinaryOperator → Parser α}
    (trailing : Trailing tokens others) (blind : level (.mark .semicolon) = none)
    (nextAgrees : Agrees tokens others (next ((tokens.head?.map (·.kind)).bind level))
      (twinNext ((tokens.head?.map (·.kind)).bind level)) bound) :
    Agrees tokens others (Parser.operatorAhead? level >>= next)
      (Parser.operatorAhead? level >>= twinNext) bound := by
  rw [operatorAhead?_bind_eq, operatorAhead?_bind_eq]
  refine frontKind? trailing ?_ nextAgrees
  rw [Option.bind_some, blind]
  rfl

/-- Both readings pass a token. -/
theorem advance {token otherToken : Token} {next twinNext : Unit → Parser α}
    (nextAgrees : Agrees tokens others (next ()) (twinNext ()) bound) :
    Agrees (token :: tokens) (otherToken :: others) (Parser.advance >>= next)
      (Parser.advance >>= twinNext) bound := by
  rintro ⟨_, previous?, endSpan⟩ ⟨_, otherPrevious?, otherEnd⟩ rfl rfl unplaced otherUnplaced
  exact nextAgrees ⟨tokens, some token.span, endSpan⟩ ⟨others, some otherToken.span, otherEnd⟩ rfl
    rfl unplaced.tail otherUnplaced.tail

/-- A token whose kind is known is passed. -/
theorem advance_of_front {kind : TokenKind} {next twinNext : Unit → Parser α}
    (trailing : Trailing tokens others) (front : tokens.head?.map (·.kind) = some kind)
    (nextAgrees : ∀ rest otherRest, Trailing rest otherRest → rest.length < tokens.length →
      Agrees rest otherRest (next ()) (twinNext ()) bound) :
    Agrees tokens others (Parser.advance >>= next) (Parser.advance >>= twinNext) bound := by
  obtain ⟨token, rest, otherRest, rfl, rfl, -, behind⟩ := trailing.exists_of_front front
  exact advance (nextAgrees _ _ behind (Nat.lt_succ_self _))

/-- Both readings accept a token or both do not. -/
theorem accept {kind : TokenKind} {next twinNext : Bool → Parser α}
    (trailing : Trailing tokens others) (notSemicolon : kind ≠ .mark .semicolon)
    (yes : ∀ rest otherRest, Trailing rest otherRest → rest.length < tokens.length →
      Agrees rest otherRest (next true) (twinNext true) bound)
    (no : Agrees tokens others (next false) (twinNext false) bound) :
    Agrees tokens others (Parser.accept kind >>= next) (Parser.accept kind >>= twinNext) bound := by
  have seen : (others.head?.map (·.kind) = some kind) = (tokens.head?.map (·.kind) = some kind) :=
    trailing.front_eq (· = some kind) (by simpa using notSemicolon.symm)
  rintro stream other rfl rfl
  rw [accept_bind, accept_bind]
  simp only [seen]
  split
  case isTrue front => exact advance_of_front trailing front yes stream other rfl rfl
  case isFalse => exact no stream other rfl rfl

theorem acceptMark {mark : Mark} {next twinNext : Bool → Parser α}
    (trailing : Trailing tokens others) (notSemicolon : mark ≠ .semicolon)
    (yes : ∀ rest otherRest, Trailing rest otherRest → rest.length < tokens.length →
      Agrees rest otherRest (next true) (twinNext true) bound)
    (no : Agrees tokens others (next false) (twinNext false) bound) :
    Agrees tokens others (Parser.acceptMark mark >>= next) (Parser.acceptMark mark >>= twinNext)
      bound :=
  accept trailing (by simpa using notSemicolon) yes no

/-- A demanded token is the same in both readings; at the end both are refused. -/
theorem expect {kind : TokenKind} (trailing : Trailing tokens others)
    (notSemicolon : kind ≠ .mark .semicolon) :
    Agrees tokens others (Parser.expect kind) (Parser.expect kind) tokens.length := by
  refine front? trailing (fun token isSemicolon => ?_) ?_
  · dsimp only
    rw [isSemicolon, if_neg notSemicolon.symm]
  · cases trailing with
    | passed | ahead => exact unexpected _
    | cons token behind =>
        dsimp only [List.head?_cons]
        by_cases same : token.kind = kind
        · rw [if_pos same]
          exact advance (result behind (Nat.lt_succ_self _))
        · rw [if_neg same]
          exact unexpected _

theorem expectMark {mark : Mark} (trailing : Trailing tokens others)
    (notSemicolon : mark ≠ .semicolon) :
    Agrees tokens others (Parser.expectMark mark) (Parser.expectMark mark) tokens.length :=
  (expect trailing (by simpa using notSemicolon)).bind fun _ _ _ behind shorter =>
    result behind shorter

theorem expectKeyword (trailing : Trailing tokens others) (keyword : Keyword) :
    Agrees tokens others (Parser.expectKeyword keyword) (Parser.expectKeyword keyword)
      tokens.length :=
  (expect trailing (by simp)).bind fun _ _ _ behind shorter => result behind shorter

theorem identifier (trailing : Trailing tokens others) :
    Agrees tokens others Parser.identifier Parser.identifier tokens.length :=
  (expect trailing (by simp)).bind fun _ _ _ behind shorter => result behind shorter

theorem memberName (trailing : Trailing tokens others) :
    Agrees tokens others Parser.memberName Parser.memberName tokens.length := by
  refine front? trailing (fun token isSemicolon => ?_) ?_
  · dsimp only
    rw [isSemicolon]
  · have named := identifier trailing
    cases trailing with
    | passed | ahead => exact named
    | cons token behind =>
        dsimp only [List.head?_cons]
        split
        · exact advance (result behind (Nat.lt_succ_self _))
        · exact named

end Agrees

/-! ## Expressions -/

/-- The parsers that expressions are made of recursively go on side by side, as long as the fuel
suffices. -/
structure AgreeingOperands (operands twin : Operands) : Prop where
  fuel : twin.fuel = operands.fuel + 1
  expression : ∀ {tokens others}, Trailing tokens others → tokens.length + 1 < operands.fuel →
    Agrees tokens others operands.expression twin.expression tokens.length
  unary : ∀ {tokens others}, Trailing tokens others → tokens.length + 1 < operands.fuel →
    Agrees tokens others operands.unary twin.unary tokens.length

/-- The semicolon is an operator of no binary level. -/
theorem binaryLevels_semicolon : ∀ level ∈ binaryLevels, level (.mark .semicolon) = none := by
  simp [binaryLevels]

namespace Agrees

variable {operands twin : Operands}

/-- Items of a list, up to the closing mark. -/
theorem itemsUntil (agreeing : AgreeingOperands operands twin) {close : Mark}
    (notSemicolon : close ≠ .semicolon) (room : bound < operands.fuel) (fuel : Nat)
    {items : List Expr} (trailing : Trailing tokens others) (inside : tokens.length < bound)
    (enough : tokens.length < fuel) :
    Agrees tokens others (Parser.itemsUntil operands close fuel items)
      (Parser.itemsUntil twin close (fuel + 1) items) bound := by
  induction fuel generalizing items tokens others with
  | zero => exact absurd enough (Nat.not_lt_zero _)
  | succ fuel inductionHypothesis =>
      refine isAtMark trailing notSemicolon fun closed => ?_
      cases closed with
      | true => exact result trailing inside
      | false =>
          refine (agreeing.expression trailing (by omega)).bind fun item _ _ behind shorter => ?_
          refine acceptMark behind (by simp) (fun _ _ further still => ?_)
            (result behind (by omega))
          exact inductionHypothesis further (by omega) (by omega)

/-- The items of a list stop in front of the closing mark, which the semicolon is not. -/
theorem enclosedItems (agreeing : AgreeingOperands operands twin) {opening close : Mark}
    (notSemicolon : opening ≠ .semicolon ∧ close ≠ .semicolon)
    (trailing : Trailing tokens others) (room : tokens.length < operands.fuel) :
    Agrees tokens others (Parser.enclosedItems operands opening close)
      (Parser.enclosedItems twin opening close) tokens.length := by
  refine here ((expectMark trailing notSemicolon.1).bind fun _ _ _ behind shorter => ?_)
  rw [agreeing.fuel]
  refine (itemsUntil agreeing notSemicolon.2 room _ behind shorter (by omega)).bind
    fun items _ _ further still => ?_
  exact (expectMark further notSemicolon.2).bind fun _ _ _ closed last =>
    since (result closed (by omega))

/-- The arguments of a call. -/
theorem callArguments (agreeing : AgreeingOperands operands twin)
    (trailing : Trailing tokens others) (room : tokens.length < operands.fuel) :
    Agrees tokens others (Parser.callArguments operands) (Parser.callArguments twin)
      tokens.length :=
  enclosedItems agreeing ⟨by simp, by simp⟩ trailing room

/-- A primary expression: none of its kinds begins with a semicolon. -/
theorem primary (agreeing : AgreeingOperands operands twin) (trailing : Trailing tokens others)
    (room : tokens.length < operands.fuel) :
    Agrees tokens others (Parser.primary operands) (Parser.primary twin) tokens.length := by
  refine here (front? trailing (fun token isSemicolon => ?_) ?_)
  · dsimp only
    rw [isSemicolon]
  · have whole := trailing
    cases trailing with
    | passed | ahead => exact unexpected _
    | @cons rest otherRest token behind =>
        rw [List.length_cons] at room
        dsimp only [List.head?_cons, List.length_cons]
        have atom (value : Expr) : Agrees (token :: rest) (token :: otherRest)
            (do Parser.advance; return value) (do Parser.advance; return value)
            (rest.length + 1) :=
          advance (result behind (Nat.lt_succ_self _))
        split
        case h_1 =>
          refine advance ?_
          split
          · exact result behind (Nat.lt_succ_self _)
          · exact fail _ _ _ _
        case h_2 => exact atom _
        case h_3 => exact atom _
        case h_4 => exact atom _
        case h_5 => exact atom _
        case h_6 =>
          refine advance (isAtMark behind (by simp) fun isCall => ?_)
          cases isCall with
          | true =>
              exact (callArguments agreeing behind (by omega)).bind fun _ _ _ further shorter =>
                since (result further (by omega))
          | false => exact result behind (Nat.lt_succ_self _)
        case h_7 =>
          refine advance ((agreeing.expression behind room).bind
            fun expr _ _ further shorter => ?_)
          exact (expectMark further (by simp)).bind fun _ _ _ closed last =>
            result closed (by omega)
        case h_8 =>
          exact (enclosedItems agreeing ⟨by simp, by simp⟩ whole (by simpa using room)).bind
            fun _ _ _ further shorter => result further (by simpa using shorter)
        case h_9 => exact unexpected _

/-- What is appended to an object: the semicolon appends nothing. -/
theorem membersOf (agreeing : AgreeingOperands operands twin) (room : bound ≤ operands.fuel)
    (fuel : Nat) {object : Expr} (trailing : Trailing tokens others)
    (inside : tokens.length < bound) (enough : tokens.length < fuel) :
    Agrees tokens others (Parser.membersOf operands .null fuel object)
      (Parser.membersOf twin .null (fuel + 1) object) bound := by
  induction fuel generalizing object tokens others with
  | zero => exact absurd enough (Nat.not_lt_zero _)
  | succ fuel inductionHypothesis =>
      refine acceptMark trailing (by simp) (fun _ _ dotted shorter => ?_)
        (acceptMark trailing (by simp) (fun _ _ opened shorter => ?_) (result trailing inside))
      · refine here ((memberName dotted).bind fun name _ _ named still => ?_)
        refine isAtMark named (by simp) fun isCall => ?_
        cases isCall with
        | true =>
            refine (callArguments agreeing named (by omega)).bind fun _ _ _ behind last => ?_
            exact since (since (inductionHypothesis behind (by omega) (by omega)))
        | false => exact since (inductionHypothesis named (by omega) (by omega))
      · refine (agreeing.expression opened (by omega)).bind fun key _ _ behind still => ?_
        refine (expectMark behind (by simp)).bind fun _ _ _ closed last => ?_
        exact since (inductionHypothesis closed (by omega) (by omega))

/-- A primary expression with what is appended to it. -/
theorem withMembers (agreeing : AgreeingOperands operands twin)
    (trailing : Trailing tokens others) (room : tokens.length < operands.fuel) :
    Agrees tokens others (Parser.withMembers operands) (Parser.withMembers twin)
      tokens.length := by
  refine here ((primary agreeing trailing room).bind fun object _ _ behind shorter => ?_)
  rw [agreeing.fuel]
  exact membersOf agreeing (Nat.le_of_lt room) _ behind shorter (by omega)

/-- A power: the semicolon ends it. -/
theorem power (agreeing : AgreeingOperands operands twin) (trailing : Trailing tokens others)
    (room : tokens.length < operands.fuel) :
    Agrees tokens others (Parser.power operands) (Parser.power twin) tokens.length := by
  refine here ((withMembers agreeing trailing room).bind fun base _ _ behind shorter => ?_)
  refine acceptMark behind (by simp) (fun _ _ raised still => ?_) (result behind shorter)
  exact (agreeing.unary raised (by omega)).bind fun exponent _ _ further last =>
    since (result further (by omega))

/-- The call behind `new`. -/
theorem constructed (agreeing : AgreeingOperands operands twin)
    (trailing : Trailing tokens others) (room : tokens.length < operands.fuel) :
    Agrees tokens others
      (do
        let callee ← Parser.identifier
        let arguments ← Parser.callArguments operands
        let callSpan ← Parser.since .null
        return Expr.construct (← Parser.since .null) callSpan callee arguments.1 arguments.2)
      (do
        let callee ← Parser.identifier
        let arguments ← Parser.callArguments twin
        let callSpan ← Parser.since .null
        return Expr.construct (← Parser.since .null) callSpan callee arguments.1 arguments.2)
      tokens.length := by
  refine (identifier trailing).bind fun callee _ _ named shorter => ?_
  refine (callArguments agreeing named (by omega)).bind fun arguments _ _ behind still => ?_
  exact since (since (result behind (by omega)))

/-- An operand with the operators in front of it and behind it. -/
theorem unaryStep (agreeing : AgreeingOperands operands twin)
    (trailing : Trailing tokens others) (room : tokens.length < operands.fuel) :
    Agrees tokens others (Parser.unaryStep operands) (Parser.unaryStep twin) tokens.length := by
  refine here (frontKind? trailing rfl ?_)
  split
  case h_1 => exact power agreeing trailing room
  case h_2 kind front =>
    split
    case h_1 operator isOperator =>
      refine advance_of_front trailing front fun _ _ behind shorter => ?_
      exact (agreeing.unary behind (by omega)).bind fun operand _ _ further last =>
        since (result further (by omega))
    case h_2 =>
      refine advance_of_front trailing front fun _ _ behind shorter => ?_
      exact (agreeing.unary behind (by omega)).bind fun operand _ _ further last =>
        since (result further (by omega))
    case h_3 =>
      refine advance_of_front trailing front fun _ _ behind shorter => here ?_
      exact (identifier behind).bind fun name _ _ further last => since (result further (by omega))
    case h_4 =>
      refine advance_of_front trailing front fun _ _ behind shorter => here ?_
      refine isAt behind (by simp) (secondKind? behind rfl fun second? => ?_)
      split
      · exact fun _ _ _ _ _ _ => .neither
      · exact (constructed agreeing behind (by omega)).widen (Nat.le_of_lt shorter)
    case h_5 => exact power agreeing trailing room

/-- A further factor and those behind it. -/
theorem factorsFrom (agreeing : AgreeingOperands operands twin) (room : bound ≤ operands.fuel)
    (fuel : Nat) {left : Expr} (trailing : Trailing tokens others)
    (inside : tokens.length < bound) (enough : tokens.length < fuel) :
    Agrees tokens others (Parser.factorsFrom operands .null fuel left)
      (Parser.factorsFrom twin .null (fuel + 1) left) bound := by
  induction fuel generalizing left tokens others with
  | zero => exact absurd enough (Nat.not_lt_zero _)
  | succ fuel inductionHypothesis =>
      have further (operator : BinaryOperator) {rest otherRest : List Token}
          (behind : Trailing rest otherRest) (within : rest.length ≤ tokens.length) :
          Agrees rest otherRest
            (do
              let right ← Parser.unaryStep operands
              Parser.factorsFrom operands .null fuel
                (.binary (← Parser.since .null) left operator right))
            (do
              let right ← Parser.unaryStep twin
              Parser.factorsFrom twin .null (fuel + 1)
                (.binary (← Parser.since .null) left operator right)) bound :=
        (unaryStep agreeing behind (by omega)).bind fun right _ _ beyond shorter =>
          since (inductionHypothesis beyond (by omega) (by omega))
      refine isAt trailing (by simp) ?_
      refine isAt trailing (by simp) ?_
      split
      · exact further .multiply trailing (Nat.le_refl _)
      · refine operatorAhead? trailing rfl ?_
        cases isOperator : (tokens.head?.map (·.kind)).bind factorLevel with
        | none => exact result trailing inside
        | some operator =>
            obtain ⟨kind, front, -⟩ := Option.bind_eq_some_iff.1 isOperator
            exact advance_of_front trailing front fun _ _ behind shorter =>
              further operator behind (Nat.le_of_lt shorter)

/-- A product with all its factors. -/
theorem product (agreeing : AgreeingOperands operands twin) (trailing : Trailing tokens others)
    (room : tokens.length < operands.fuel) :
    Agrees tokens others (Parser.product operands) (Parser.product twin) tokens.length := by
  refine here ((unaryStep agreeing trailing room).bind fun left _ _ behind shorter => ?_)
  rw [agreeing.fuel]
  exact factorsFrom agreeing (Nat.le_of_lt room) _ behind shorter (by omega)

/-- The semicolon ends a chain of operators, by induction on the fuel. -/
theorem chainFrom {operand twinOperand : Parser Expr} {level : Level}
    (blind : level (.mark .semicolon) = none)
    (operandAgrees : ∀ {tokens others}, Trailing tokens others → tokens.length < bound →
      Agrees tokens others operand twinOperand tokens.length)
    (fuel : Nat) {left : Expr} (trailing : Trailing tokens others) (inside : tokens.length < bound)
    (enough : tokens.length < fuel) :
    Agrees tokens others (Parser.chainFrom level operand .null fuel left)
      (Parser.chainFrom level twinOperand .null (fuel + 1) left) bound := by
  induction fuel generalizing left tokens others with
  | zero => exact absurd enough (Nat.not_lt_zero _)
  | succ fuel inductionHypothesis =>
      refine operatorAhead? trailing blind ?_
      cases isOperator : (tokens.head?.map (·.kind)).bind level with
      | none => exact result trailing inside
      | some operator =>
          obtain ⟨kind, front, -⟩ := Option.bind_eq_some_iff.1 isOperator
          refine advance_of_front trailing front fun _ _ behind shorter => ?_
          exact (operandAgrees behind (by omega)).bind fun right _ _ further still =>
            since (inductionHypothesis further (by omega) (by omega))

/-- All binary levels, by induction on their list. -/
theorem binaryOf (agreeing : AgreeingOperands operands twin) {levels : List Level}
    (blind : ∀ level ∈ levels, level (.mark .semicolon) = none)
    (trailing : Trailing tokens others) (room : tokens.length < operands.fuel) :
    Agrees tokens others (Parser.binaryOf operands levels) (Parser.binaryOf twin levels)
      tokens.length := by
  induction levels generalizing tokens others with
  | nil => exact product agreeing trailing room
  | cons level levels inductionHypothesis =>
      obtain ⟨blindLevel, blindLevels⟩ := List.forall_mem_cons.1 blind
      refine here ((inductionHypothesis blindLevels trailing room).bind
        fun left _ _ behind shorter => ?_)
      rw [agreeing.fuel]
      exact chainFrom blindLevel (fun further still =>
        inductionHypothesis blindLevels further (by omega)) _ behind shorter (by omega)

/-- An expression: a condition or what it is made of. -/
theorem expressionStep (agreeing : AgreeingOperands operands twin)
    (trailing : Trailing tokens others) (room : tokens.length < operands.fuel) :
    Agrees tokens others (Parser.expressionStep operands) (Parser.expressionStep twin)
      tokens.length := by
  refine here ((binaryOf agreeing binaryLevels_semicolon trailing room).bind
    fun test _ _ behind shorter => ?_)
  refine acceptMark behind (by simp) (fun _ _ asked still => ?_) (result behind shorter)
  refine (agreeing.expression asked (by omega)).bind fun consequent _ _ further shorter => ?_
  refine (expectMark further (by simp)).bind fun _ _ _ otherwise shorter => ?_
  exact (agreeing.expression otherwise (by omega)).bind fun alternate _ _ last shorter =>
    since (result last (by omega))

/-- The reading with the semicolon has a unit of fuel more. By induction on the nesting. -/
theorem operands_of_fuel (fuel : Nat) :
    AgreeingOperands ⟨Parser.expression fuel, Parser.unary fuel, fuel + 1⟩
      ⟨Parser.expression (fuel + 1), Parser.unary (fuel + 1), fuel + 2⟩ := by
  induction fuel with
  | zero =>
      refine ⟨rfl, fun _ short => ?_, fun _ short => ?_⟩ <;> exact absurd short (by simp)
  | succ fuel inductionHypothesis =>
      exact ⟨rfl,
        fun trailing room =>
          expressionStep inductionHypothesis trailing (Nat.lt_of_succ_lt_succ room),
        fun trailing room => unaryStep inductionHypothesis trailing (Nat.lt_of_succ_lt_succ room)⟩

/-- Expressions of every depth. The reading with the semicolon has one more unit of fuel. -/
theorem expression {fuel : Nat} (trailing : Trailing tokens others)
    (room : tokens.length < fuel) :
    Agrees tokens others (Parser.expression fuel) (Parser.expression (fuel + 1)) tokens.length :=
  (operands_of_fuel fuel).expression trailing (Nat.succ_lt_succ room)

end Agrees
end Parser
end ScopeScript
