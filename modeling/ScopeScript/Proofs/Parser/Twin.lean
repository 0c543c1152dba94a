import ScopeScript.Proofs.Parser.Stance

/-!
# Reading a product with and without its star

A token sequence in which a number stands directly in front of a name or a parenthesis, and the one
with a star in between, are read side by side. `Linked` relates what is left of the two, and keeps
the stance of what comes next. Up to the number both readings see the same tokens, and behind the
star they do so again. Where the number begins a product, the reading without the star multiplies as
well. Where it is bound, its operand is not taken: what has been read of an expression ends in front
of it, and nothing goes on there (`Halts`).

`Twin` says that two parsers go on from linked tokens side by side. It is closed under sequencing,
so it is shown for each production by following its text. Places do not matter for this, so all
spans are taken to be forgotten, and both readings make the very same tree.
-/

namespace ScopeScript
namespace Parser

theorem bind_apply (first : Parser β) (next : β → Parser α) (stream : Stream) :
    (first >>= next) stream = (first stream).bind fun read => next read.1 read.2 := rfl

theorem frontKind?_bind_eq (next : Option TokenKind → Parser α) :
    (Parser.frontKind? >>= next) = Parser.front? >>= fun token? => next (token?.map (·.kind)) := rfl

theorem isAtEnd_bind_eq (next : Bool → Parser α) :
    (Parser.isAtEnd >>= next) = Parser.front? >>= fun token? => next token?.isNone := rfl

theorem isAt_bind_eq (kind : TokenKind) (next : Bool → Parser α) :
    (Parser.isAt kind >>= next) = Parser.frontKind? >>= fun kind? => next (kind? == some kind) :=
  rfl

theorem operatorAhead?_bind_eq (level : Level) (next : Option BinaryOperator → Parser α) :
    (Parser.operatorAhead? level >>= next) =
      Parser.frontKind? >>= fun kind? => next (kind?.bind level) := rfl

/-- Whether a token is accepted is decided by the kind of the next one. -/
theorem accept_bind (kind : TokenKind) (next : Bool → Parser α) (stream : Stream) :
    (Parser.accept kind >>= next) stream =
      (if stream.tokens.head?.map Token.kind = some kind then Parser.advance >>= fun _ => next true
        else next false) stream := by
  have unfolded : (Parser.accept kind >>= next) stream =
      ((if (stream.tokens.head?.map Token.kind == some kind) = true
        then Parser.advance >>= fun _ => pure true else pure false) >>= next) stream := rfl
  rw [unfolded]
  by_cases ahead : stream.tokens.head?.map Token.kind = some kind
  · rw [if_pos (beq_iff_eq.2 ahead), if_pos ahead]
    rfl
  · rw [if_neg (fun same => ahead (beq_iff_eq.1 same)), if_neg ahead]
    rfl

theorem operatorAhead?_bind (level : Level) (next : Option BinaryOperator → Parser α)
    (stream : Stream) :
    (Parser.operatorAhead? level >>= next) stream =
      next ((stream.tokens.head?.map Token.kind).bind level) stream := rfl

/-- All places in a stream have been forgotten. -/
structure Stream.Unplaced (stream : Stream) : Prop where
  tokens : ∀ token ∈ stream.tokens, token.span = .null
  previous? : ∀ span, stream.previous? = some span → span = .null
  endSpan : stream.endSpan = .null

/-- Passing a token leaves the rest without places. -/
theorem Stream.Unplaced.tail {token : Token} {tokens : List Token} {previous? : Option Span}
    {endSpan : Span} (unplaced : (⟨token :: tokens, previous?, endSpan⟩ : Stream).Unplaced) :
    (⟨tokens, some token.span, endSpan⟩ : Stream).Unplaced where
  tokens other member := unplaced.tokens other (List.mem_cons_of_mem _ member)
  previous? := by
    rintro _ ⟨⟩
    exact unplaced.tokens token List.mem_cons_self
  endSpan := unplaced.endSpan

/-- Where nothing has a place, everything starts nowhere. -/
theorem Stream.Unplaced.here {stream : Stream} (unplaced : stream.Unplaced) :
    Parser.here stream = .ok (.null, stream) := by
  obtain ⟨_ | ⟨token, rest⟩, previous?, endSpan⟩ := stream
  · obtain rfl := unplaced.endSpan
    rfl
  · change Except.ok (token.span, _) = _
    rw [unplaced.tokens token List.mem_cons_self]

/-- And what starts nowhere ends nowhere. -/
theorem Stream.Unplaced.since {stream : Stream} (unplaced : stream.Unplaced) :
    Parser.since .null stream = .ok (.null, stream) := by
  rcases stream with ⟨tokens, _ | previous, endSpan⟩
  · rfl
  · cases unplaced.previous? previous rfl
    rfl

/-- A number in front of a name or a parenthesis, with a star that may be put in between, what
comes behind them, and how the number stands. -/
structure Seam where
  number : Token
  star : Token
  operand : Token
  rest : List Token
  stance : Stance
  number_kind : number.kind = .number
  star_kind : star.kind = .mark .star
  operand_kind : operand.kind = .name ∨ operand.kind = .mark .leftParen

namespace Seam

variable (seam : Seam)

/-- What is left of a token sequence without and with the star, and how it stands. The seam can be
passed only if the number is not bound. -/
inductive Linked : Stance → List Token → List Token → Prop
  | seam : Linked seam.stance (seam.number :: seam.operand :: seam.rest)
      (seam.number :: seam.star :: seam.operand :: seam.rest)
  | past (stance : Stance) (tokens : List Token) : seam.stance ≠ .bound →
      Linked stance tokens tokens
  | cons {stance : Stance} {tokens others : List Token} (token : Token) :
      Linked (stance.after token.kind) tokens others →
      Linked stance (token :: tokens) (token :: others)

/-- What two attempts come to, the first one without and the second one with the star. Where the
number is bound the first one may be refused, or halt in front of the operand, on its own. -/
inductive Meets (Result : List Token → List Token → α → Prop) (Halt : α → Prop) :
    Except Fault (α × Stream) → Except Fault (α × Stream) → Prop
  | both {value : α} {stream other : Stream} : stream.Unplaced → other.Unplaced →
      Result stream.tokens other.tokens value →
      Meets Result Halt (.ok (value, stream)) (.ok (value, other))
  | neither {fault otherFault : Fault} : Meets Result Halt (.error fault) (.error otherFault)
  | refused {fault : Fault} {attempt : Except Fault (α × Stream)} : seam.stance = .bound →
      Meets Result Halt (.error fault) attempt
  | halted {value : α} {stream : Stream} {attempt : Except Fault (α × Stream)} :
      seam.stance = .bound → stream.tokens = seam.operand :: seam.rest → Halt value →
      Meets Result Halt (.ok (value, stream)) attempt

/-- Two parsers that find some tokens each go on side by side. -/
def Twin (tokens others : List Token) (parser twin : Parser α)
    (Result : List Token → List Token → α → Prop) (Halt : α → Prop) : Prop :=
  ∀ stream other, stream.tokens = tokens → other.tokens = others → stream.Unplaced →
    other.Unplaced → seam.Meets Result Halt (parser stream) (twin other)

/-- In front of the operand, a parser fails or stays where it is. -/
def Halts (parser : Parser α) (Halt : α → Prop) : Prop :=
  ∀ stream value rest, stream.tokens = seam.operand :: seam.rest →
    parser stream = .ok (value, rest) → rest.tokens = seam.operand :: seam.rest ∧ Halt value

/-- Linked tokens are left, fewer than a bound. -/
def Leaves (stance : Stance) (bound : Nat) (rest otherRest : List Token) (_ : α) : Prop :=
  seam.Linked stance rest otherRest ∧ rest.length < bound

/-- A parser never ends in front of the operand. -/
def Never (_ : α) : Prop := False

/-- A parser may end in front of the operand with anything. -/
def Anything (_ : α) : Prop := True

variable {seam} {stance : Stance} {tokens others : List Token}

/-! ## Linked tokens -/

namespace Linked

/-- What is linked is at its end, in front of the seam, or begins with the same token twice. At the
end the seam has been passed, so the number is not bound. -/
theorem split (linked : seam.Linked stance tokens others) :
    (tokens = [] ∧ others = [] ∧ seam.stance ≠ .bound) ∨
      (stance = seam.stance ∧ tokens = seam.number :: seam.operand :: seam.rest ∧
        others = seam.number :: seam.star :: seam.operand :: seam.rest) ∨
      ∃ token rest otherRest, tokens = token :: rest ∧ others = token :: otherRest ∧
        seam.Linked (stance.after token.kind) rest otherRest := by
  cases linked with
  | seam => exact .inr (.inl ⟨rfl, rfl, rfl⟩)
  | past _ _ loose =>
      cases tokens with
      | nil => exact .inl ⟨rfl, rfl, loose⟩
      | cons token rest => exact .inr (.inr ⟨token, rest, rest, rfl, rfl, .past _ _ loose⟩)
  | cons token linked => exact .inr (.inr ⟨token, _, _, rfl, rfl, linked⟩)

/-- The two readings see the same next token. -/
theorem head?_eq (linked : seam.Linked stance tokens others) : others.head? = tokens.head? := by
  cases linked <;> rfl

/-- Only what the stance makes of the next token matters. -/
theorem congr {other : Stance} (linked : seam.Linked stance tokens others)
    (notNumber : ∀ token rest, tokens = token :: rest → token.kind ≠ .number)
    (same : ∀ token rest, tokens = token :: rest →
      stance.after token.kind = other.after token.kind) : seam.Linked other tokens others := by
  rcases linked.split with ⟨rfl, rfl, loose⟩ | ⟨-, rfl, -⟩ | ⟨token, rest, _, rfl, rfl, behind⟩
  · exact .past _ _ loose
  · exact absurd seam.number_kind (notNumber _ _ rfl)
  · rw [same token rest rfl] at behind
    exact .cons token behind

/-- Any tokens that lead to the stance of the seam may stand in front of it. -/
theorem of_front (front : List Token) (reached : stance.behind front = seam.stance) :
    seam.Linked stance (front ++ seam.number :: seam.operand :: seam.rest)
      (front ++ seam.number :: seam.star :: seam.operand :: seam.rest) := by
  induction front generalizing stance with
  | nil =>
      cases reached
      exact .seam
  | cons token front inductionHypothesis => exact .cons token (inductionHypothesis reached)

end Linked

/-! ## Sequencing -/

namespace Halts

variable {Halt : α → Prop}

/-- A reading that halts may end here. -/
theorem result {value : α} (halt : Halt value) : seam.Halts (pure value) Halt := by
  rintro stream _ _ ahead ⟨⟩
  exact ⟨ahead, halt⟩

/-- Where the first parser halts without having moved, the second one does so as well. -/
theorem bind {First : β → Prop} {first : Parser β} {next : β → Parser α}
    (firstHalts : seam.Halts first First)
    (nextHalts : ∀ value, First value → seam.Halts (next value) Halt) :
    seam.Halts (first >>= next) Halt := by
  intro stream value rest ahead ran
  rw [bind_apply] at ran
  cases found : first stream with
  | error fault =>
      rw [found] at ran
      cases ran
  | ok read =>
      rw [found] at ran
      obtain ⟨stays, holds⟩ := firstHalts _ _ _ ahead found
      exact nextHalts read.1 holds read.2 value rest stays ran

/-- Nothing comes behind a parser that is refused. -/
theorem never_bind {first : Parser β} {next : β → Parser α}
    (firstHalts : seam.Halts first Never) : seam.Halts (first >>= next) Halt :=
  firstHalts.bind fun _ impossible => impossible.elim

/-- A refusal is one way to halt. -/
theorem fail (span : Span) (cause : Cause) : seam.Halts (Parser.fail span cause) Halt := by
  rintro _ _ _ _ ⟨⟩

theorem here : seam.Halts Parser.here Anything := by
  rintro stream _ _ ahead ⟨⟩
  exact ⟨ahead, trivial⟩

theorem since (start : Span) : seam.Halts (Parser.since start) Anything := by
  rintro stream _ _ ahead ⟨⟩
  exact ⟨ahead, trivial⟩

/-- In front of the operand that is not taken, the next token is the operand. -/
theorem front? : seam.Halts Parser.front? (· = some seam.operand) := by
  rintro stream _ _ ahead ⟨⟩
  exact ⟨ahead, by rw [ahead]; rfl⟩

theorem frontKind? : seam.Halts Parser.frontKind? (· = some seam.operand.kind) :=
  front?.bind fun _ found => result (by rw [found]; rfl)

theorem unexpected (wanted : String) : seam.Halts (Parser.unexpected wanted : Parser α) Halt :=
  here.bind fun _ _ => front?.bind fun _ _ => fail _ _

theorem isAtEnd : seam.Halts Parser.isAtEnd (· = false) :=
  front?.bind fun _ found => result (by rw [found]; rfl)

/-- The operand is a name or a parenthesis. -/
theorem isAt {kind : TokenKind} (notName : kind ≠ .name) (notParen : kind ≠ .mark .leftParen) :
    seam.Halts (Parser.isAt kind) (· = false) := by
  refine frontKind?.bind fun _ found => result ?_
  rw [found, beq_eq_false_iff_ne, ne_eq, Option.some.injEq]
  rintro rfl
  exact seam.operand_kind.elim notName notParen

/-- Nothing but a name or an opening parenthesis is accepted there. -/
theorem accept {kind : TokenKind} (notName : kind ≠ .name) (notParen : kind ≠ .mark .leftParen) :
    seam.Halts (Parser.accept kind) (· = false) := by
  refine (isAt notName notParen).bind ?_
  rintro _ rfl
  exact result rfl

theorem acceptMark {mark : Mark} (notParen : mark ≠ .leftParen) :
    seam.Halts (Parser.acceptMark mark) (· = false) :=
  accept (by simp) (by simpa using notParen)

/-- Nothing else is found there where it is demanded. -/
theorem expect {kind : TokenKind} (notName : kind ≠ .name) (notParen : kind ≠ .mark .leftParen) :
    seam.Halts (Parser.expect kind) Never := by
  refine front?.bind ?_
  rintro _ rfl
  have different : seam.operand.kind ≠ kind := by
    rintro rfl
    exact seam.operand_kind.elim notName notParen
  simp only [if_neg different]
  exact unexpected _

theorem expectMark {mark : Mark} (notParen : mark ≠ .leftParen) :
    seam.Halts (Parser.expectMark mark) Never :=
  (expect (by simp) (by simpa using notParen)).never_bind

end Halts

namespace Twin

variable {Result : List Token → List Token → α → Prop} {Halt : α → Prop}

/-- Results that are the same on both sides. -/
theorem result {value : α} (holds : Result tokens others value) :
    seam.Twin tokens others (pure value) (pure value) Result Halt := by
  rintro stream other rfl rfl unplaced otherUnplaced
  exact .both unplaced otherUnplaced holds

/-- Two pairs of parsers in a row: where the first one halts without the star, the second one has to
halt too. -/
theorem bind {First : List Token → List Token → β → Prop} {HaltFirst : β → Prop}
    {first twinFirst : Parser β} {next twinNext : β → Parser α}
    (firstTwin : seam.Twin tokens others first twinFirst First HaltFirst)
    (nextTwin : ∀ value rest otherRest, First rest otherRest value →
      seam.Twin rest otherRest (next value) (twinNext value) Result Halt)
    (halts : ∀ value, HaltFirst value → seam.Halts (next value) Halt) :
    seam.Twin tokens others (first >>= next) (twinFirst >>= twinNext) Result Halt := by
  intro stream other isTokens isOthers unplaced otherUnplaced
  have met := firstTwin stream other isTokens isOthers unplaced otherUnplaced
  rw [bind_apply, bind_apply]
  generalize first stream = attempt at met ⊢
  generalize twinFirst other = otherAttempt at met ⊢
  cases met with
  | both unplaced otherUnplaced holds =>
      exact nextTwin _ _ _ holds _ _ rfl rfl unplaced otherUnplaced
  | neither => exact .neither
  | refused isBound => exact .refused isBound
  | @halted value stream _ isBound ahead halt =>
      have halting := halts value halt stream
      change seam.Meets Result Halt (next value stream) _
      cases ran : next value stream with
      | error fault => exact .refused isBound
      | ok read =>
          obtain ⟨stays, still⟩ := halting read.1 read.2 ahead ran
          exact .halted isBound stays still

/-- The first parser leaves linked tokens and does not halt. -/
theorem leaving {first twinFirst : Parser β} {next twinNext : β → Parser α} {bound : Nat}
    (firstTwin : seam.Twin tokens others first twinFirst (seam.Leaves stance bound) Never)
    (nextTwin : ∀ value rest otherRest, seam.Linked stance rest otherRest →
      rest.length < bound → seam.Twin rest otherRest (next value) (twinNext value) Result Halt) :
    seam.Twin tokens others (first >>= next) (twinFirst >>= twinNext) Result Halt :=
  firstTwin.bind (fun value rest otherRest ⟨linked, shorter⟩ =>
    nextTwin value rest otherRest linked shorter) fun _ impossible => impossible.elim

/-- What comes behind a fault is not reached. -/
theorem never_bind {first twinFirst : Parser β} {next twinNext : β → Parser α}
    (firstTwin : seam.Twin tokens others first twinFirst (fun _ _ _ => False) Never) :
    seam.Twin tokens others (first >>= next) (twinFirst >>= twinNext) Result Halt :=
  firstTwin.bind (fun _ _ _ impossible => impossible.elim) fun _ impossible => impossible.elim

/-- Results may be weakened on both sides. -/
theorem mono {Stronger : List Token → List Token → α → Prop} {HaltStronger : α → Prop}
    {parser twin : Parser α} (twins : seam.Twin tokens others parser twin Stronger HaltStronger)
    (weaker : ∀ rest otherRest value, Stronger rest otherRest value → Result rest otherRest value)
    (haltWeaker : ∀ value, HaltStronger value → Halt value) :
    seam.Twin tokens others parser twin Result Halt := by
  intro stream other isTokens isOthers unplaced otherUnplaced
  have met := twins stream other isTokens isOthers unplaced otherUnplaced
  generalize parser stream = attempt at met ⊢
  generalize twin other = otherAttempt at met ⊢
  cases met with
  | both unplaced otherUnplaced holds =>
      exact .both unplaced otherUnplaced (weaker _ _ _ holds)
  | neither => exact .neither
  | refused isBound => exact .refused isBound
  | halted isBound ahead halt => exact .halted isBound ahead (haltWeaker _ halt)

/-- A bound on what is left may be widened. -/
theorem widen {parser twin : Parser α} {bound wider : Nat}
    (twins : seam.Twin tokens others parser twin (seam.Leaves stance bound) Halt)
    (within : bound ≤ wider) :
    seam.Twin tokens others parser twin (seam.Leaves stance wider) Halt :=
  twins.mono (fun _ _ _ ⟨linked, shorter⟩ => ⟨linked, Nat.lt_of_lt_of_le shorter within⟩)
    fun _ halt => halt

/-- Where the number is bound, a parser that ends behind it halts. -/
theorem halting {Behind : List Token → List Token → α → Prop} {parser twin : Parser α}
    (isBound : seam.stance = .bound) (twins : seam.Twin tokens others parser twin Behind Never)
    (behind : ∀ rest otherRest value, Behind rest otherRest value →
      rest = seam.operand :: seam.rest ∧ Halt value) :
    seam.Twin tokens others parser twin Result Halt := by
  intro stream other isTokens isOthers unplaced otherUnplaced
  have met := twins stream other isTokens isOthers unplaced otherUnplaced
  generalize parser stream = attempt at met ⊢
  generalize twin other = otherAttempt at met ⊢
  cases met with
  | both _ _ holds =>
      obtain ⟨ahead, halt⟩ := behind _ _ _ holds
      exact .halted isBound ahead halt
  | neither => exact .neither
  | refused isBound => exact .refused isBound
  | halted _ _ impossible => exact impossible.elim

/-- Both readings are refused together; where and why may differ, as places are forgotten. -/
theorem fail (span otherSpan : Span) (cause otherCause : Cause) :
    seam.Twin tokens others (Parser.fail span cause) (Parser.fail otherSpan otherCause) Result
      Halt :=
  fun _ _ _ _ _ _ => .neither

theorem unexpected (wanted : String) :
    seam.Twin tokens others (Parser.unexpected wanted) (Parser.unexpected wanted) Result Halt :=
  fun _ _ _ _ _ _ => .neither

/-! ## Tokens -/

section

variable {next twinNext : Span → Parser α}

theorem here (nextTwin : seam.Twin tokens others (next .null) (twinNext .null) Result Halt) :
    seam.Twin tokens others (Parser.here >>= next) (Parser.here >>= twinNext) Result Halt := by
  intro stream other isTokens isOthers unplaced otherUnplaced
  rw [bind_apply, bind_apply, unplaced.here, otherUnplaced.here]
  exact nextTwin stream other isTokens isOthers unplaced otherUnplaced

theorem since (nextTwin : seam.Twin tokens others (next .null) (twinNext .null) Result Halt) :
    seam.Twin tokens others (Parser.since .null >>= next) (Parser.since .null >>= twinNext) Result
      Halt := by
  intro stream other isTokens isOthers unplaced otherUnplaced
  rw [bind_apply, bind_apply, unplaced.since, otherUnplaced.since]
  exact nextTwin stream other isTokens isOthers unplaced otherUnplaced

end

/-- Both readings see the same next token where the seam is not between them. -/
theorem front? {next twinNext : Option Token → Parser α} (same : others.head? = tokens.head?)
    (nextTwin : seam.Twin tokens others (next tokens.head?) (twinNext tokens.head?) Result Halt) :
    seam.Twin tokens others (Parser.front? >>= next) (Parser.front? >>= twinNext) Result Halt := by
  rintro stream other rfl rfl unplaced otherUnplaced
  have met := nextTwin stream other rfl rfl unplaced otherUnplaced
  have otherFound : (Parser.front? >>= twinNext) other = twinNext other.tokens.head? other := rfl
  rw [otherFound, same]
  exact met

theorem frontKind? {next twinNext : Option TokenKind → Parser α}
    (same : others.head? = tokens.head?)
    (nextTwin : seam.Twin tokens others (next (tokens.head?.map (·.kind)))
      (twinNext (tokens.head?.map (·.kind))) Result Halt) :
    seam.Twin tokens others (Parser.frontKind? >>= next) (Parser.frontKind? >>= twinNext) Result
      Halt := by
  rw [frontKind?_bind_eq, frontKind?_bind_eq]
  exact front? same nextTwin

/-- What stands behind the next token may differ, if it does not matter. -/
theorem secondKind?_any {next twinNext : Option TokenKind → Parser α}
    (nextTwin : ∀ kind? otherKind?,
      seam.Twin tokens others (next kind?) (twinNext otherKind?) Result Halt) :
    seam.Twin tokens others (Parser.secondKind? >>= next) (Parser.secondKind? >>= twinNext) Result
      Halt :=
  fun stream other => nextTwin (stream.tokens.tail.head?.map Token.kind)
    (other.tokens.tail.head?.map Token.kind) stream other

/-- Behind a shared token the readings may see different second tokens, so what follows must not
depend on it. -/
theorem secondKind? {token : Token} {next twinNext : Option TokenKind → Parser α}
    (same : others.head? = tokens.head?)
    (nextTwin : ∀ kind?, seam.Twin (token :: tokens) (token :: others) (next kind?)
      (twinNext kind?) Result Halt) :
    seam.Twin (token :: tokens) (token :: others) (Parser.secondKind? >>= next)
      (Parser.secondKind? >>= twinNext) Result Halt := by
  rintro ⟨_, previous?, endSpan⟩ ⟨_, otherPrevious?, otherEnd⟩ rfl rfl
  have otherFound : (Parser.secondKind? >>= twinNext) ⟨token :: others, otherPrevious?, otherEnd⟩ =
      twinNext (others.head?.map Token.kind) ⟨token :: others, otherPrevious?, otherEnd⟩ := rfl
  rw [otherFound, same]
  exact nextTwin (tokens.head?.map Token.kind) ⟨token :: tokens, previous?, endSpan⟩
    ⟨token :: others, otherPrevious?, otherEnd⟩ rfl rfl

theorem isAt_eq {next twinNext : Bool → Parser α} (same : others.head? = tokens.head?)
    (kind : TokenKind)
    (nextTwin : seam.Twin tokens others (next (tokens.head?.map (·.kind) == some kind))
      (twinNext (tokens.head?.map (·.kind) == some kind)) Result Halt) :
    seam.Twin tokens others (Parser.isAt kind >>= next) (Parser.isAt kind >>= twinNext) Result
      Halt := by
  rw [isAt_bind_eq, isAt_bind_eq]
  exact frontKind? same nextTwin

theorem isAt {next twinNext : Bool → Parser α} (same : others.head? = tokens.head?)
    (kind : TokenKind)
    (nextTwin : ∀ found, seam.Twin tokens others (next found) (twinNext found) Result Halt) :
    seam.Twin tokens others (Parser.isAt kind >>= next) (Parser.isAt kind >>= twinNext) Result
      Halt :=
  isAt_eq same kind (nextTwin _)

theorem isAtMark {next twinNext : Bool → Parser α} (same : others.head? = tokens.head?)
    (mark : Mark)
    (nextTwin : ∀ found, seam.Twin tokens others (next found) (twinNext found) Result Halt) :
    seam.Twin tokens others (Parser.isAtMark mark >>= next) (Parser.isAtMark mark >>= twinNext)
      Result Halt :=
  isAt same _ nextTwin

theorem isAtEnd {next twinNext : Bool → Parser α} (same : others.head? = tokens.head?)
    (nextTwin : seam.Twin tokens others (next tokens.head?.isNone) (twinNext tokens.head?.isNone)
      Result Halt) :
    seam.Twin tokens others (Parser.isAtEnd >>= next) (Parser.isAtEnd >>= twinNext) Result
      Halt := by
  rw [isAtEnd_bind_eq, isAtEnd_bind_eq]
  exact front? same nextTwin

theorem operatorAhead? {next twinNext : Option BinaryOperator → Parser α}
    (same : others.head? = tokens.head?) (level : Level)
    (nextTwin : seam.Twin tokens others (next ((tokens.head?.map (·.kind)).bind level))
      (twinNext ((tokens.head?.map (·.kind)).bind level)) Result Halt) :
    seam.Twin tokens others (Parser.operatorAhead? level >>= next)
      (Parser.operatorAhead? level >>= twinNext) Result Halt := by
  rw [operatorAhead?_bind_eq, operatorAhead?_bind_eq]
  exact frontKind? same nextTwin

/-- Both readings pass a token. -/
theorem advance {token otherToken : Token} {next twinNext : Unit → Parser α}
    (nextTwin : seam.Twin tokens others (next ()) (twinNext ()) Result Halt) :
    seam.Twin (token :: tokens) (otherToken :: others) (Parser.advance >>= next)
      (Parser.advance >>= twinNext) Result Halt := by
  rintro ⟨_, previous?, endSpan⟩ ⟨_, otherPrevious?, otherEnd⟩ rfl rfl unplaced otherUnplaced
  exact nextTwin ⟨tokens, some token.span, endSpan⟩ ⟨others, some otherToken.span, otherEnd⟩ rfl rfl
    unplaced.tail otherUnplaced.tail

/-- A token whose kind is known is passed. -/
theorem advance_of_kind {kind : TokenKind} {next twinNext : Unit → Parser α}
    (linked : seam.Linked stance tokens others) (ahead : tokens.head?.map (·.kind) = some kind)
    (notNumber : kind ≠ .number)
    (nextTwin : ∀ rest otherRest, seam.Linked (stance.after kind) rest otherRest →
      rest.length < tokens.length → seam.Twin rest otherRest (next ()) (twinNext ()) Result Halt) :
    seam.Twin tokens others (Parser.advance >>= next) (Parser.advance >>= twinNext) Result
      Halt := by
  rcases linked.split with ⟨rfl, rfl, -⟩ | ⟨-, rfl, rfl⟩ | ⟨token, _, _, rfl, rfl, behind⟩
  · cases ahead
  · rw [List.head?_cons, Option.map_some, seam.number_kind, Option.some.injEq] at ahead
    exact absurd ahead.symm notNumber
  · rw [List.head?_cons, Option.map_some, Option.some.injEq] at ahead
    rw [ahead] at behind
    exact advance (nextTwin _ _ behind (Nat.lt_succ_self _))

/-- The reading with the star passes a token on its own. -/
theorem advance_twin {token : Token} {parser : Parser α} {twinNext : Unit → Parser α}
    (nextTwin : seam.Twin tokens others parser (twinNext ()) Result Halt) :
    seam.Twin tokens (token :: others) parser (Parser.advance >>= twinNext) Result Halt := by
  rintro stream ⟨_, otherPrevious?, otherEnd⟩ isTokens rfl unplaced otherUnplaced
  exact nextTwin stream ⟨others, some token.span, otherEnd⟩ isTokens rfl unplaced
    otherUnplaced.tail

/-- Both readings accept a token or both do not, unless it is the number of the seam, which is read
by its own production. -/
theorem accept {next twinNext : Bool → Parser α} (linked : seam.Linked stance tokens others)
    {kind : TokenKind} (notNumber : kind ≠ .number)
    (yes : ∀ rest otherRest, seam.Linked (stance.after kind) rest otherRest →
      rest.length < tokens.length →
      seam.Twin rest otherRest (next true) (twinNext true) Result Halt)
    (no : seam.Twin tokens others (next false) (twinNext false) Result Halt) :
    seam.Twin tokens others (Parser.accept kind >>= next) (Parser.accept kind >>= twinNext) Result
      Halt := by
  rintro stream other rfl rfl
  rw [accept_bind, accept_bind, linked.head?_eq]
  split
  case isTrue ahead =>
    exact advance_of_kind linked ahead notNumber yes stream other rfl rfl
  case isFalse => exact no stream other rfl rfl

/-- Nothing is accepted if neither token is of the kind. -/
theorem accept_of_ne {kind : TokenKind} {token otherToken : Token}
    {next twinNext : Bool → Parser α} (different : token.kind ≠ kind)
    (otherDifferent : otherToken.kind ≠ kind)
    (no : seam.Twin (token :: tokens) (otherToken :: others) (next false) (twinNext false) Result
      Halt) :
    seam.Twin (token :: tokens) (otherToken :: others) (Parser.accept kind >>= next)
      (Parser.accept kind >>= twinNext) Result Halt := by
  intro stream other isTokens isOthers
  rw [accept_bind, accept_bind, isTokens, isOthers, if_neg (by simpa using different),
    if_neg (by simpa using otherDifferent)]
  exact no stream other isTokens isOthers

theorem acceptMark {next twinNext : Bool → Parser α} (linked : seam.Linked stance tokens others)
    {mark : Mark}
    (yes : ∀ rest otherRest, seam.Linked (stance.after (.mark mark)) rest otherRest →
      rest.length < tokens.length →
      seam.Twin rest otherRest (next true) (twinNext true) Result Halt)
    (no : seam.Twin tokens others (next false) (twinNext false) Result Halt) :
    seam.Twin tokens others (Parser.acceptMark mark >>= next) (Parser.acceptMark mark >>= twinNext)
      Result Halt :=
  accept linked (by simp) yes no

/-- A demanded token is the same in both readings. -/
theorem expect (linked : seam.Linked stance tokens others) {kind : TokenKind}
    (notNumber : kind ≠ .number) :
    seam.Twin tokens others (Parser.expect kind) (Parser.expect kind)
      (seam.Leaves (stance.after kind) tokens.length) Never := by
  refine front? linked.head?_eq ?_
  rcases linked.split with ⟨rfl, rfl, -⟩ | ⟨-, rfl, rfl⟩ | ⟨token, _, _, rfl, rfl, behind⟩
  · exact unexpected _
  · dsimp only [List.head?_cons]
    rw [if_neg (by rw [seam.number_kind]; exact notNumber.symm)]
    exact unexpected _
  · dsimp only [List.head?_cons]
    by_cases same : token.kind = kind
    · subst same
      rw [if_pos rfl]
      exact advance (result ⟨behind, Nat.lt_succ_self _⟩)
    · rw [if_neg same]
      exact unexpected _

theorem expectMark (linked : seam.Linked stance tokens others) (mark : Mark) :
    seam.Twin tokens others (Parser.expectMark mark) (Parser.expectMark mark)
      (seam.Leaves (stance.after (.mark mark)) tokens.length) Never :=
  (expect linked (by simp)).leaving fun _ _ _ linked shorter => result ⟨linked, shorter⟩

theorem expectKeyword (linked : seam.Linked stance tokens others) (keyword : Keyword) :
    seam.Twin tokens others (Parser.expectKeyword keyword) (Parser.expectKeyword keyword)
      (seam.Leaves (stance.after (.keyword keyword)) tokens.length) Never :=
  (expect linked (by simp)).leaving fun _ _ _ linked shorter => result ⟨linked, shorter⟩

theorem identifier (linked : seam.Linked stance tokens others) :
    seam.Twin tokens others Parser.identifier Parser.identifier
      (seam.Leaves (stance.after .name) tokens.length) Never :=
  (expect linked (by simp)).leaving fun _ _ _ linked shorter => result ⟨linked, shorter⟩

/-- Behind a dot stands no number, so the seam is not there. -/
theorem memberName (linked : seam.Linked .member tokens others) :
    seam.Twin tokens others Parser.memberName Parser.memberName
      (seam.Leaves .ended tokens.length) Never := by
  refine front? linked.head?_eq ?_
  have named := identifier linked
  rcases linked.split with ⟨rfl, rfl, -⟩ | ⟨-, rfl, rfl⟩ | ⟨token, _, _, rfl, rfl, behind⟩
  · exact named
  · simp only [List.head?_cons, seam.number_kind]
    exact named
  · dsimp only [List.head?_cons]
    split
    · exact advance (result ⟨behind, Nat.lt_succ_self _⟩)
    · exact named

end Twin
end Seam
end Parser
end ScopeScript
