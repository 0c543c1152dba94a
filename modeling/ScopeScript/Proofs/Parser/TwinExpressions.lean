import ScopeScript.Proofs.Parser.Twin

/-!
# Expressions with and without the star

Every production of expressions is followed side by side. The seam itself is met where a number
begins an operand. In a product that has just begun, both readings go on with the operand behind it
as a further factor (`product`). A bound operand ends there for the reading without the star, and
the levels around it have nothing to go on with in front of a name or a parenthesis.

The reading with the star has one more token and so one more unit of fuel at each level.
-/

namespace ScopeScript
namespace Parser
namespace Seam

variable {seam : Seam} {stance : Stance} {tokens others rest otherRest : List Token}

/-- The parsers that expressions are made of recursively go on side by side, as long as the fuel
suffices. -/
structure OfOperands (seam : Seam) (operands twin : Operands) : Prop where
  fuel : twin.fuel = operands.fuel + 1
  expression : ∀ {tokens others}, seam.Linked .free tokens others →
    tokens.length + 1 < operands.fuel →
    seam.Twin tokens others operands.expression twin.expression
      (seam.Leaves .ended tokens.length) Anything
  unary : ∀ {tokens others}, seam.Linked .bound tokens others →
    tokens.length + 1 < operands.fuel →
    seam.Twin tokens others operands.unary twin.unary (seam.Leaves .ended tokens.length) Anything

/-- A number has been read, and what comes next is the operand or the star. -/
def Torn (seam : Seam) (rest otherRest : List Token) (value : Expr) : Prop :=
  rest = seam.operand :: seam.rest ∧ otherRest = seam.star :: seam.operand :: seam.rest ∧
    value.isNumber = true

variable {operands twin : Operands}

/-! ## Nothing goes on in front of the operand -/

namespace Halts

/-- Where the reading without the star halts, it does so at whatever place. -/
theorem since_bind {start : Span} {next : Span → Parser α} {Halt : α → Prop}
    (halts : ∀ span, seam.Halts (next span) Halt) :
    seam.Halts (Parser.since start >>= next) Halt :=
  (since start).bind fun span _ => halts span

/-- An operand that is not taken is no operator of a level. -/
theorem operatorAhead? {level : Level} (name : level .name = none)
    (leftParen : level (.mark .leftParen) = none) :
    seam.Halts (Parser.operatorAhead? level) (· = none) := by
  refine frontKind?.bind fun _ found => result ?_
  rw [found, Option.bind_some]
  rcases seam.operand_kind with isName | isParen
  · rw [isName, name]
  · rw [isParen, leftParen]

/-- A chain of operators ends in front of an operand that is not taken. -/
theorem chainFrom {level : Level} (loose : level.Loose) (operand : Parser Expr) (start : Span)
    (fuel : Nat) (left : Expr) :
    seam.Halts (Parser.chainFrom level operand start fuel left) Anything := by
  cases fuel with
  | zero => exact result trivial
  | succ fuel =>
      have name : level .name = none := by
        cases found : level .name with
        | none => rfl
        | some operator => cases loose.stance _ _ found
      refine (operatorAhead? name loose.leftParen).bind ?_
      rintro _ rfl
      exact result trivial

/-- And so does a product, unless its last factor is a number. -/
theorem factorsFrom (operands : Operands) (start : Span) (fuel : Nat) {left : Expr}
    (noNumber : left.isNumber = false) :
    seam.Halts (Parser.factorsFrom operands start fuel left) Anything := by
  cases fuel with
  | zero => exact result trivial
  | succ fuel =>
      have looked (kind : TokenKind) : seam.Halts (Parser.isAt kind) Anything :=
        frontKind?.bind fun _ _ => result trivial
      refine (looked _).bind fun isName _ => (looked _).bind fun isParen _ => ?_
      rw [noNumber, Bool.false_and]
      refine (operatorAhead? rfl rfl).bind ?_
      rintro _ rfl
      exact result trivial

end Halts

namespace Twin

/-- Items of a list, up to the closing mark. -/
theorem itemsUntil (twins : seam.OfOperands operands twin) (close : Mark) {bound : Nat}
    (room : bound < operands.fuel) (fuel : Nat) {items : List Expr}
    (linked : seam.Linked .free tokens others) (inside : tokens.length < bound)
    (enough : tokens.length < fuel) :
    seam.Twin tokens others (Parser.itemsUntil operands close fuel items)
      (Parser.itemsUntil twin close (fuel + 1) items)
      (fun rest otherRest _ => ∃ next, (next = .free ∨ next = .ended) ∧
        seam.Linked next rest otherRest ∧ rest.length < bound) Anything := by
  induction fuel generalizing items tokens others with
  | zero => exact absurd enough (Nat.not_lt_zero _)
  | succ fuel inductionHypothesis =>
      refine isAtMark linked.head?_eq close fun closed => ?_
      cases closed with
      | true => exact result ⟨.free, .inl rfl, linked, inside⟩
      | false =>
          refine (twins.expression linked (by omega)).bind ?_ fun item _ => ?_
          · rintro item rest otherRest ⟨behind, shorter⟩
            refine acceptMark behind (fun rest otherRest further shorterStill => ?_) ?_
            · exact inductionHypothesis further (by omega) (by omega)
            · exact result ⟨.ended, .inr rfl, behind, by omega⟩
          · refine (Halts.acceptMark (by simp)).bind ?_
            rintro _ rfl
            exact Halts.result trivial

/-- Items between marks, the closing one of which ends an operand. -/
theorem enclosedItems (twins : seam.OfOperands operands twin) {opening close : Mark}
    (linked : seam.Linked stance tokens others) (room : tokens.length < operands.fuel)
    (opens : stance.after (.mark opening) = .free)
    (closes : ∀ sign, (TokenKind.mark close).stance sign = .ended) :
    seam.Twin tokens others (Parser.enclosedItems operands opening close)
      (Parser.enclosedItems twin opening close) (seam.Leaves .ended tokens.length) Never := by
  refine here ((expectMark linked opening).leaving fun _ rest otherRest behind shorter => ?_)
  rw [opens] at behind
  rw [twins.fuel]
  refine (itemsUntil twins close room _ behind shorter (by omega)).bind ?_ fun items _ => ?_
  · rintro items rest otherRest ⟨next, isNext, further, still⟩
    refine (expectMark further close).leaving fun _ rest otherRest closed last => ?_
    have ended : next.after (.mark close) = .ended := by
      rcases isNext with rfl | rfl <;> exact closes _
    rw [ended] at closed
    exact since (result ⟨closed, by omega⟩)
  · have notParen : close ≠ .leftParen := by
      rintro rfl
      cases closes .free
    exact (Halts.expectMark notParen).never_bind

theorem callArguments (twins : seam.OfOperands operands twin)
    (linked : seam.Linked .ended tokens others) (room : tokens.length < operands.fuel) :
    seam.Twin tokens others (Parser.callArguments operands) (Parser.callArguments twin)
      (seam.Leaves .ended tokens.length) Never :=
  enclosedItems twins linked room rfl fun _ => rfl

/-- An operand that begins with another token than the number of the seam. -/
theorem primary (twins : seam.OfOperands operands twin) {token : Token}
    (linked : seam.Linked (token.kind.stance .bound) rest otherRest)
    (room : rest.length + 1 < operands.fuel) :
    seam.Twin (token :: rest) (token :: otherRest) (Parser.primary operands) (Parser.primary twin)
      (seam.Leaves .ended (rest.length + 1)) Never := by
  refine here (front? rfl ?_)
  dsimp only [List.head?_cons]
  have whole : seam.Linked .free (token :: rest) (token :: otherRest) := .cons token linked
  split
  case h_1 isNumber =>
    rw [isNumber] at linked
    refine advance ?_
    split
    · exact result ⟨linked, Nat.lt_succ_self _⟩
    · exact fail _ _ _ _
  case h_2 isText =>
    rw [isText] at linked
    exact advance (result ⟨linked, Nat.lt_succ_self _⟩)
  case h_3 isTrue =>
    rw [isTrue] at linked
    exact advance (result ⟨linked, Nat.lt_succ_self _⟩)
  case h_4 isFalse =>
    rw [isFalse] at linked
    exact advance (result ⟨linked, Nat.lt_succ_self _⟩)
  case h_5 isNone =>
    rw [isNone] at linked
    exact advance (result ⟨linked, Nat.lt_succ_self _⟩)
  case h_6 isName =>
    rw [isName] at linked
    refine advance (isAtMark linked.head?_eq _ fun isCall => ?_)
    cases isCall with
    | true =>
        refine (callArguments twins linked (by omega)).leaving fun _ _ _ behind shorter => ?_
        exact since (result ⟨behind, by omega⟩)
    | false => exact result ⟨linked, Nat.lt_succ_self _⟩
  case h_7 isParen =>
    rw [isParen] at linked
    refine advance ((twins.expression linked (by omega)).bind ?_ fun _ _ => ?_)
    · rintro expr _ _ ⟨behind, shorter⟩
      exact (expectMark behind _).leaving fun _ _ _ closed last => result ⟨closed, by omega⟩
    · exact (Halts.expectMark (by simp)).never_bind
  case h_8 isBracket =>
    refine (enclosedItems twins whole (by simpa using room) rfl fun _ => rfl).leaving ?_
    exact fun _ _ _ behind shorter => result ⟨behind, by simpa using shorter⟩
  case h_9 => exact unexpected _

/-- What is appended to an object: the seam stands behind none. -/
theorem membersOf (twins : seam.OfOperands operands twin) {bound : Nat}
    (room : bound ≤ operands.fuel) (fuel : Nat) {object : Expr}
    (linked : seam.Linked .ended tokens others) (inside : tokens.length < bound)
    (enough : tokens.length < fuel) :
    seam.Twin tokens others (Parser.membersOf operands .null fuel object)
      (Parser.membersOf twin .null (fuel + 1) object) (seam.Leaves .ended bound) Never := by
  induction fuel generalizing object tokens others with
  | zero => exact absurd enough (Nat.not_lt_zero _)
  | succ fuel inductionHypothesis =>
      refine acceptMark linked (fun _ _ dotted shorter => ?_) (acceptMark linked ?_ ?_)
      · refine here ((memberName dotted).leaving fun name _ _ named still => ?_)
        refine isAtMark named.head?_eq _ fun isCall => ?_
        cases isCall with
        | true =>
            refine (callArguments twins named (by omega)).leaving fun _ _ _ behind last => ?_
            exact since (since (inductionHypothesis behind (by omega) (by omega)))
        | false => exact since (inductionHypothesis named (by omega) (by omega))
      · intro _ _ opened shorter
        refine (twins.expression opened (by omega)).bind ?_ fun _ _ => ?_
        · rintro key _ _ ⟨behind, still⟩
          refine (expectMark behind _).leaving fun _ _ _ closed last => ?_
          exact since (inductionHypothesis closed (by omega) (by omega))
        · exact (Halts.expectMark (by simp)).never_bind
      · exact result ⟨linked, inside⟩

theorem withMembers (twins : seam.OfOperands operands twin) {token : Token}
    (linked : seam.Linked (token.kind.stance .bound) rest otherRest)
    (room : rest.length + 1 < operands.fuel) :
    seam.Twin (token :: rest) (token :: otherRest) (Parser.withMembers operands)
      (Parser.withMembers twin) (seam.Leaves .ended (rest.length + 1)) Never := by
  refine here ((primary twins linked room).leaving fun object _ _ behind shorter => ?_)
  rw [twins.fuel]
  exact membersOf twins (by omega) _ behind shorter (by omega)

/-- A power whose first token is the same in both readings. -/
theorem power (twins : seam.OfOperands operands twin) {token : Token}
    (linked : seam.Linked (token.kind.stance .bound) rest otherRest)
    (room : rest.length + 1 < operands.fuel) :
    seam.Twin (token :: rest) (token :: otherRest) (Parser.power operands) (Parser.power twin)
      (seam.Leaves .ended (rest.length + 1)) (·.isNumber = false) := by
  refine here ((withMembers twins linked room).leaving fun base _ _ behind shorter => ?_)
  refine acceptMark behind (fun _ _ raised still => ?_) (result ⟨behind, shorter⟩)
  refine (twins.unary raised (by omega)).bind ?_ fun exponent _ => ?_
  · rintro exponent _ _ ⟨further, last⟩
    exact since (result ⟨further, by omega⟩)
  · exact Halts.since_bind fun _ => Halts.result rfl

/-- The call behind `new`. -/
theorem constructed (twins : seam.OfOperands operands twin)
    (linked : seam.Linked .free tokens others) (room : tokens.length < operands.fuel) :
    seam.Twin tokens others
      (do
        let callee ← Parser.identifier
        let arguments ← Parser.callArguments operands
        let callSpan ← Parser.since .null
        return Expr.construct (← Parser.since .null) callSpan callee arguments.1 arguments.2)
      (do
        let callee ← Parser.identifier
        let arguments ← Parser.callArguments twin
        let callSpan ← Parser.since .null
        return Expr.construct (← Parser.since .null) callSpan callee arguments.1 arguments.2)
      (seam.Leaves .ended tokens.length) Never := by
  refine (identifier linked).leaving fun callee _ _ named shorter => ?_
  refine (callArguments twins named (by omega)).leaving fun arguments _ _ behind still => ?_
  exact since (since (result ⟨behind, by omega⟩))

/-- An operand with its prefix operators that begins with another token than the number of the
seam. If it halts it is more than a number. -/
theorem unaryStep (twins : seam.OfOperands operands twin) {token : Token}
    (linked : seam.Linked (token.kind.stance .bound) rest otherRest)
    (room : rest.length + 1 < operands.fuel) :
    seam.Twin (token :: rest) (token :: otherRest) (Parser.unaryStep operands)
      (Parser.unaryStep twin) (seam.Leaves .ended (rest.length + 1)) (·.isNumber = false) := by
  refine here (frontKind? rfl ?_)
  dsimp only [List.head?_cons, Option.map_some]
  split
  case h_1 operator isOperator =>
    rw [stance_of_unaryOperator? isOperator] at linked
    refine advance ((twins.unary linked (by omega)).bind ?_ fun _ _ => ?_)
    · rintro operand _ _ ⟨behind, shorter⟩
      exact since (result ⟨behind, by omega⟩)
    · exact Halts.since_bind fun _ => Halts.result rfl
  case h_2 isAwait =>
    rw [isAwait] at linked
    refine advance ((twins.unary linked (by omega)).bind ?_ fun _ _ => ?_)
    · rintro operand _ _ ⟨behind, shorter⟩
      exact since (result ⟨behind, by omega⟩)
    · exact Halts.since_bind fun _ => Halts.result rfl
  case h_3 isDelete =>
    rw [isDelete] at linked
    refine advance (here ((identifier linked).leaving fun name _ _ behind shorter => ?_))
    exact since (result ⟨behind, by omega⟩)
  case h_4 isNew =>
    rw [isNew] at linked
    refine advance (here ?_)
    -- What stands behind a name is the same for both, and behind anything else it does not matter.
    refine isAt_eq linked.head?_eq _ ?_
    rcases linked.split with ⟨rfl, rfl, -⟩ | ⟨-, rfl, rfl⟩ | ⟨next, _, _, rfl, rfl, behind⟩
    · exact secondKind?_any fun _ _ => never_bind (unexpected _)
    · rw [List.head?_cons, Option.map_some, seam.number_kind]
      exact secondKind?_any fun _ _ => never_bind (unexpected _)
    · refine secondKind? behind.head?_eq fun second? => ?_
      split
      · exact never_bind (unexpected _)
      · refine ((constructed twins linked (by omega)).widen (Nat.le_succ _)).mono ?_ ?_
        · exact fun _ _ _ leaves => leaves
        · exact fun _ impossible => impossible.elim
  case h_5 => exact power twins linked room

/-! ## The seam -/

theorem operand_kind_ne {mark : Mark} (notParen : mark ≠ .leftParen) :
    seam.operand.kind ≠ .mark mark := by
  rcases seam.operand_kind with isName | isParen
  · rw [isName]
    simp
  · rw [isParen]
    simpa using notParen.symm

theorem star_kind_ne {mark : Mark} (different : mark ≠ .star) : seam.star.kind ≠ .mark mark := by
  rw [seam.star_kind]
  simpa using different.symm

/-- The number of the seam is read by both, and only then they differ. -/
theorem primary_seam :
    seam.Twin (seam.number :: seam.operand :: seam.rest)
      (seam.number :: seam.star :: seam.operand :: seam.rest) (Parser.primary operands)
      (Parser.primary twin) seam.Torn Never := by
  refine here (front? rfl ?_)
  simp only [List.head?_cons, seam.number_kind]
  refine advance ?_
  split
  · exact result ⟨rfl, rfl, rfl⟩
  · exact fail _ _ _ _

/-- Neither reading finds a member behind the number. -/
theorem membersOf_seam (fuel otherFuel : Nat) {object : Expr} (isNumber : object.isNumber = true) :
    seam.Twin (seam.operand :: seam.rest) (seam.star :: seam.operand :: seam.rest)
      (Parser.membersOf operands .null (fuel + 1) object)
      (Parser.membersOf twin .null (otherFuel + 1) object) seam.Torn Never :=
  accept_of_ne (operand_kind_ne (by simp)) (star_kind_ne (by simp))
    (accept_of_ne (operand_kind_ne (by simp)) (star_kind_ne (by simp))
      (result ⟨rfl, rfl, isNumber⟩))

/-- The number of the seam is read as an operand, however it stands: nothing that binds more tightly
than multiplication goes on behind it. -/
theorem unaryStep_seam (twins : seam.OfOperands operands twin) (fueled : 0 < operands.fuel) :
    seam.Twin (seam.number :: seam.operand :: seam.rest)
      (seam.number :: seam.star :: seam.operand :: seam.rest) (Parser.unaryStep operands)
      (Parser.unaryStep twin) seam.Torn Never := by
  obtain ⟨fuel, isFuel⟩ := Nat.exists_eq_add_one.2 fueled
  have read : seam.Twin (seam.number :: seam.operand :: seam.rest)
      (seam.number :: seam.star :: seam.operand :: seam.rest) (Parser.withMembers operands)
      (Parser.withMembers twin) seam.Torn Never := by
    refine here (primary_seam.bind ?_ fun _ impossible => impossible.elim)
    rintro object _ _ ⟨rfl, rfl, isNumber⟩
    rw [twins.fuel, isFuel]
    exact membersOf_seam _ _ isNumber
  refine here (frontKind? rfl ?_)
  simp only [List.head?_cons, Option.map_some, seam.number_kind]
  change seam.Twin _ _ (Parser.power operands) (Parser.power twin) _ _
  refine here (read.bind ?_ fun _ impossible => impossible.elim)
  rintro base _ _ ⟨rfl, rfl, isNumber⟩
  exact accept_of_ne (operand_kind_ne (by simp)) (star_kind_ne (by simp))
    (result ⟨rfl, rfl, isNumber⟩)

/-! ## Products -/

theorem unaryStep_nil {Result : List Token → List Token → Expr → Prop} {Halt : Expr → Prop} :
    seam.Twin [] [] (Parser.unaryStep operands) (Parser.unaryStep twin) Result Halt := by
  have primary : seam.Twin [] [] (Parser.primary operands) (Parser.primary twin)
      (fun _ _ _ => False) Never := here (front? rfl (unexpected _))
  have withMembers : seam.Twin [] [] (Parser.withMembers operands) (Parser.withMembers twin)
      (fun _ _ _ => False) Never := here primary.never_bind
  exact here (frontKind? rfl (here withMembers.never_bind))

/-- An operand behind an operator that binds at least as tightly as multiplication. -/
theorem unaryStep_bound (twins : seam.OfOperands operands twin)
    (linked : seam.Linked .bound tokens others) (room : tokens.length < operands.fuel) :
    seam.Twin tokens others (Parser.unaryStep operands) (Parser.unaryStep twin)
      (seam.Leaves .ended tokens.length) Anything := by
  rcases linked.split with ⟨rfl, rfl, -⟩ | ⟨isBound, rfl, rfl⟩ | ⟨token, _, _, rfl, rfl, behind⟩
  · exact unaryStep_nil
  · refine halting isBound.symm (unaryStep_seam twins (by omega)) ?_
    exact fun _ _ _ torn => ⟨torn.1, trivial⟩
  · exact (unaryStep twins behind room).mono (fun _ _ _ leaves => leaves) fun _ _ => trivial

/-- A further factor and those behind it. What halts in front of the operand is a product by then,
and not multiplied with it. -/
theorem furtherFactor {Halt : Expr → Prop} (left : Expr) (operator : BinaryOperator)
    (factor : seam.Twin tokens others (Parser.unaryStep operands) (Parser.unaryStep twin)
      (seam.Leaves .ended tokens.length) Halt)
    {fuel otherFuel bound : Nat}
    (further : ∀ {product rest otherRest}, seam.Linked .ended rest otherRest →
      rest.length < tokens.length →
      seam.Twin rest otherRest (Parser.factorsFrom operands .null fuel product)
        (Parser.factorsFrom twin .null otherFuel product) (seam.Leaves .ended bound) Anything) :
    seam.Twin tokens others
      (do
        let right ← Parser.unaryStep operands
        Parser.factorsFrom operands .null fuel
          (.binary (← Parser.since .null) left operator right))
      (do
        let right ← Parser.unaryStep twin
        Parser.factorsFrom twin .null otherFuel
          (.binary (← Parser.since .null) left operator right))
      (seam.Leaves .ended bound) Anything := by
  refine factor.bind ?_ fun _ _ => Halts.since_bind fun _ => Halts.factorsFrom _ _ _ rfl
  exact fun _ _ _ ⟨behind, shorter⟩ => since (further behind shorter)

/-- The factors behind a first one: where the number of the seam is a factor, both readings multiply
it with the operand. -/
theorem factorsFrom (twins : seam.OfOperands operands twin) {bound : Nat}
    (room : bound ≤ operands.fuel) (fuel : Nat) {left : Expr}
    (linked : seam.Linked .ended tokens others) (inside : tokens.length < bound)
    (enough : tokens.length < fuel) :
    seam.Twin tokens others (Parser.factorsFrom operands .null fuel left)
      (Parser.factorsFrom twin .null (fuel + 1) left) (seam.Leaves .ended bound) Anything := by
  induction fuel generalizing left tokens others with
  | zero => exact absurd enough (Nat.not_lt_zero _)
  | succ fuel inductionHypothesis =>
      have further {product : Expr} {rest otherRest : List Token}
          (behind : seam.Linked .ended rest otherRest) (shorter : rest.length < tokens.length) :
          seam.Twin rest otherRest (Parser.factorsFrom operands .null fuel product)
            (Parser.factorsFrom twin .null (fuel + 1) product) (seam.Leaves .ended bound)
            Anything :=
        inductionHypothesis behind (by omega) (by omega)
      refine isAt_eq linked.head?_eq _ (isAt_eq linked.head?_eq (.mark .leftParen) ?_)
      split
      case isTrue juxtaposed =>
        rcases linked.split with ⟨rfl, rfl, -⟩ | ⟨-, rfl, rfl⟩ | ⟨token, _, _, rfl, rfl, behind⟩
        · simp at juxtaposed
        · simp [seam.number_kind] at juxtaposed
        · simp only [List.head?_cons, Option.map_some, Bool.and_eq_true, Bool.or_eq_true,
            beq_iff_eq, Option.some.injEq] at juxtaposed
          have begins : Stance.ended.after token.kind = token.kind.stance .bound := by
            rcases juxtaposed.2 with isName | isParen
            · rw [isName]
              rfl
            · rw [isParen]
              rfl
          rw [begins] at behind
          simp only [List.length_cons] at inside
          exact furtherFactor _ _ (unaryStep twins behind (by omega)) further
      case isFalse =>
        refine operatorAhead? linked.head?_eq factorLevel ?_
        rcases linked.split with ⟨rfl, rfl, -⟩ | ⟨-, rfl, rfl⟩ | ⟨token, _, _, rfl, rfl, behind⟩
        · exact result ⟨linked, inside⟩
        · rw [List.head?_cons, Option.map_some, Option.bind_some, seam.number_kind]
          exact result ⟨linked, inside⟩
        · rw [List.head?_cons, Option.map_some, Option.bind_some]
          cases isOperator : factorLevel token.kind with
          | none => exact result ⟨linked, inside⟩
          | some operator =>
              have binds : Stance.ended.after token.kind = .bound :=
                stance_of_factorLevel isOperator
              rw [binds] at behind
              simp only [List.length_cons] at inside further
              exact advance (furtherFactor _ _ (unaryStep_bound twins behind (by omega))
                fun behind shorter => further behind (by omega))

/-- In front of an operand, a number is multiplied with it. -/
theorem factorsFrom_of_operand {start : Span} {fuel : Nat} {left : Expr} {stream : Stream}
    {operand : Token} (isNumber : left.isNumber = true)
    (ahead : stream.tokens = operand :: rest)
    (opens : operand.kind = .name ∨ operand.kind = .mark .leftParen) :
    Parser.factorsFrom operands start (fuel + 1) left stream =
      (do
        let right ← Parser.unaryStep operands
        Parser.factorsFrom operands start fuel
          (.binary (← Parser.since start) left .multiply right)) stream := by
  have found : (left.isNumber && (stream.tokens.head?.map Token.kind == some TokenKind.name ||
      stream.tokens.head?.map Token.kind == some (TokenKind.mark .leftParen))) = true := by
    simp [isNumber, ahead, opens]
  change (if (left.isNumber && (stream.tokens.head?.map Token.kind == some TokenKind.name ||
    stream.tokens.head?.map Token.kind == some (TokenKind.mark .leftParen))) = true
    then _ else _ : Parser Expr) _ = _
  rw [if_pos found]

/-- In front of a star a product goes on with an operand. -/
theorem factorsFrom_of_star {start : Span} {fuel : Nat} {left : Expr} {stream : Stream}
    {star : Token} (ahead : stream.tokens = star :: rest) (isStar : star.kind = .mark .star) :
    Parser.factorsFrom operands start (fuel + 1) left stream =
      (do
        Parser.advance
        let right ← Parser.unaryStep operands
        Parser.factorsFrom operands start fuel
          (.binary (← Parser.since start) left .multiply right)) stream := by
  have kind? : stream.tokens.head?.map Token.kind = some (.mark .star) := by simp [ahead, isStar]
  have notFound : (left.isNumber && (stream.tokens.head?.map Token.kind == some TokenKind.name ||
      stream.tokens.head?.map Token.kind == some (TokenKind.mark .leftParen))) = false := by
    rw [kind?]
    exact Bool.and_false _
  change (if (left.isNumber && (stream.tokens.head?.map Token.kind == some TokenKind.name ||
    stream.tokens.head?.map Token.kind == some (TokenKind.mark .leftParen))) = true
    then _ else _ : Parser Expr) _ = _
  rw [notFound, if_neg Bool.false_ne_true]
  rw [operatorAhead?_bind, kind?]
  rfl

/-- Where the number of the seam begins a product, both readings multiply it with the operand. -/
theorem factorsFrom_seam (twins : seam.OfOperands operands twin) (loose : seam.stance ≠ .bound)
    {fuel : Nat} {left : Expr} (isNumber : left.isNumber = true)
    (room : seam.rest.length + 1 < operands.fuel) (enough : seam.rest.length < fuel) :
    seam.Twin (seam.operand :: seam.rest) (seam.star :: seam.operand :: seam.rest)
      (Parser.factorsFrom operands .null (fuel + 1) left)
      (Parser.factorsFrom twin .null (fuel + 2) left)
      (seam.Leaves .ended (seam.rest.length + 1)) Anything := by
  have multiplied : seam.Twin (seam.operand :: seam.rest) (seam.operand :: seam.rest) _ _ _ _ :=
    furtherFactor left .multiply (unaryStep twins (.past _ _ loose) room)
      fun behind shorter => factorsFrom twins (Nat.le_of_lt room) fuel behind shorter
        (Nat.lt_of_lt_of_le shorter enough)
  intro stream other isTokens isOthers
  rw [factorsFrom_of_operand isNumber isTokens seam.operand_kind,
    factorsFrom_of_star isOthers seam.star_kind]
  exact advance_twin multiplied stream other isTokens isOthers

/-- A product in front of which nothing is bound: where its first factor is the number of the seam,
the operand behind it is multiplied with and without the star. -/
theorem product (twins : seam.OfOperands operands twin) (linked : seam.Linked .free tokens others)
    (room : tokens.length < operands.fuel) :
    seam.Twin tokens others (Parser.product operands) (Parser.product twin)
      (seam.Leaves .ended tokens.length) Anything := by
  obtain ⟨fuel, isFuel⟩ : ∃ fuel, operands.fuel = fuel + 1 := Nat.exists_eq_add_one.2 (by omega)
  refine here ?_
  rw [twins.fuel]
  rcases linked.split with ⟨rfl, rfl, -⟩ | ⟨isFree, rfl, rfl⟩ | ⟨token, _, _, rfl, rfl, behind⟩
  · exact never_bind unaryStep_nil
  · have loose : seam.stance ≠ .bound := by
      rw [← isFree]
      simp
    refine (unaryStep_seam twins (by omega)).bind ?_ fun _ impossible => impossible.elim
    rintro left _ _ ⟨rfl, rfl, isNumber⟩
    simp only [List.length_cons] at room ⊢
    rw [isFuel]
    exact (factorsFrom_seam twins loose isNumber (by omega) (by omega)).widen (Nat.le_succ _)
  · refine (unaryStep twins behind room).bind ?_ fun _ noNumber => Halts.factorsFrom _ _ _ noNumber
    exact fun _ _ _ ⟨further, shorter⟩ =>
      factorsFrom twins (Nat.le_of_lt room) _ further shorter (Nat.lt_trans shorter room)

/-! ## Levels -/

/-- A chain of operators of one level, by induction on the fuel. -/
theorem chainFrom {operand twinOperand : Parser Expr} {level : Level} (loose : level.Loose)
    {bound : Nat}
    (operandTwin : ∀ {tokens others}, seam.Linked .free tokens others → tokens.length < bound →
      seam.Twin tokens others operand twinOperand (seam.Leaves .ended tokens.length) Anything)
    (fuel : Nat) {left : Expr} (linked : seam.Linked .ended tokens others)
    (inside : tokens.length < bound) (enough : tokens.length < fuel) :
    seam.Twin tokens others (Parser.chainFrom level operand .null fuel left)
      (Parser.chainFrom level twinOperand .null (fuel + 1) left) (seam.Leaves .ended bound)
      Anything := by
  induction fuel generalizing left tokens others with
  | zero => exact absurd enough (Nat.not_lt_zero _)
  | succ fuel inductionHypothesis =>
      refine operatorAhead? linked.head?_eq level ?_
      cases isOperator : (tokens.head?.map (·.kind)).bind level with
      | none => exact result ⟨linked, inside⟩
      | some operator =>
          rcases linked.split with ⟨rfl, rfl, -⟩ | ⟨-, rfl, rfl⟩ | ⟨token, _, _, rfl, rfl, behind⟩
          · cases isOperator
          · have opens : seam.number.kind.stance .free = .free := loose.stance _ _ isOperator
            rw [seam.number_kind] at opens
            cases opens
          · have opens : Stance.ended.after token.kind = .free := loose.stance _ _ isOperator
            rw [opens] at behind
            simp only [List.length_cons] at inside enough
            refine advance ((operandTwin behind (by omega)).bind ?_ fun _ _ => ?_)
            · exact fun _ _ _ ⟨further, shorter⟩ =>
                since (inductionHypothesis further (by omega) (by omega))
            · exact Halts.since_bind fun _ => Halts.chainFrom loose _ _ _ _

/-- All binary levels, by induction on their list. -/
theorem binaryOf (twins : seam.OfOperands operands twin) (levels : List Level)
    (loose : ∀ level ∈ levels, level.Loose) (linked : seam.Linked .free tokens others)
    (room : tokens.length < operands.fuel) :
    seam.Twin tokens others (Parser.binaryOf operands levels) (Parser.binaryOf twin levels)
      (seam.Leaves .ended tokens.length) Anything := by
  induction levels generalizing tokens others with
  | nil => exact product twins linked room
  | cons level levels inductionHypothesis =>
      obtain ⟨looseLevel, looseLevels⟩ := List.forall_mem_cons.1 loose
      have operand {tokens others : List Token} (linked : seam.Linked .free tokens others)
          (room : tokens.length < operands.fuel) := inductionHypothesis looseLevels linked room
      refine here ((operand linked room).bind ?_ fun _ _ => Halts.chainFrom looseLevel _ _ _ _)
      rintro left _ _ ⟨behind, shorter⟩
      rw [twins.fuel]
      exact chainFrom looseLevel (fun further shorter => operand further (by omega)) _ behind
        shorter (by omega)

theorem expressionStep (twins : seam.OfOperands operands twin)
    (linked : seam.Linked .free tokens others) (room : tokens.length < operands.fuel) :
    seam.Twin tokens others (Parser.expressionStep operands) (Parser.expressionStep twin)
      (seam.Leaves .ended tokens.length) Anything := by
  have levels := binaryOf twins binaryLevels loose_binaryLevels linked room
  refine here (levels.bind ?_ fun _ _ => ?_)
  · rintro test _ _ ⟨behind, shorter⟩
    refine acceptMark behind (fun _ _ asked still => ?_) (result ⟨behind, shorter⟩)
    refine (twins.expression asked (by omega)).bind ?_ fun _ _ => ?_
    · rintro consequent _ _ ⟨further, shorter⟩
      refine (expectMark further _).leaving fun _ _ _ otherwise shorter => ?_
      refine (twins.expression otherwise (by omega)).bind ?_ fun _ _ => ?_
      · exact fun _ _ _ ⟨last, shorter⟩ => since (result ⟨last, by omega⟩)
      · exact Halts.since_bind fun _ => Halts.result trivial
    · exact (Halts.expectMark (by simp)).never_bind
  · refine (Halts.acceptMark (by simp)).bind ?_
    rintro _ rfl
    exact Halts.result trivial

/-- The reading with the star has a unit of fuel more. By induction on the nesting. -/
theorem operands_of_fuel (fuel : Nat) :
    seam.OfOperands ⟨Parser.expression fuel, Parser.unary fuel, fuel + 1⟩
      ⟨Parser.expression (fuel + 1), Parser.unary (fuel + 1), fuel + 2⟩ := by
  induction fuel with
  | zero =>
      refine ⟨rfl, fun _ short => ?_, fun _ short => ?_⟩ <;> exact absurd short (by simp)
  | succ fuel inductionHypothesis =>
      exact ⟨rfl,
        fun linked room => expressionStep inductionHypothesis linked (Nat.lt_of_succ_lt_succ room),
        fun linked room => unaryStep_bound inductionHypothesis linked (Nat.lt_of_succ_lt_succ room)⟩

/-- Expressions of every depth. The reading with the star has one more unit of fuel. -/
theorem expression {fuel : Nat} (linked : seam.Linked .free tokens others)
    (room : tokens.length < fuel) :
    seam.Twin tokens others (Parser.expression fuel) (Parser.expression (fuel + 1))
      (seam.Leaves .ended tokens.length) Anything :=
  (operands_of_fuel fuel).expression linked (Nat.succ_lt_succ room)

end Twin
end Seam
end Parser
end ScopeScript
