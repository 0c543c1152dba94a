import ScopeScript.Parser.Source
import ScopeScript.Proofs.Decimal.Numerals
import ScopeScript.Proofs.Lexer.Spelling
import ScopeScript.Proofs.Text.Basic

/-!
# What parsed expressions are made of

The names and literals of a parsed expression are those of tokens. So names are words that are no
keywords, members are words, and numbers are finite and not negative (`proper_of_parse`). This is
shown by following the productions: `Yields parser Result` says that whatever a parser makes of
tokens of the lexer has a property.
-/

namespace ScopeScript

namespace Expr

mutual

/-- An expression and all expressions it is made of. -/
def nodes : Expr → List Expr
  | number span value => [.number span value]
  | text span value => [.text span value]
  | bool span value => [.bool span value]
  | none span => [.none span]
  | absent span => [.absent span]
  | name span label => [.name span label]
  | binary span left operator right =>
      .binary span left operator right :: (left.nodes ++ right.nodes)
  | unary span operator operand => .unary span operator operand :: operand.nodes
  | conditional span test consequent alternate =>
      .conditional span test consequent alternate ::
        (test.nodes ++ consequent.nodes ++ alternate.nodes)
  | sequence span items => .sequence span items :: nodesAll items
  | call span callee argumentsSpan arguments =>
      .call span callee argumentsSpan arguments :: nodesAll arguments
  | member span object nameSpan label => .member span object nameSpan label :: object.nodes
  | method span object callSpan callee argumentsSpan arguments =>
      .method span object callSpan callee argumentsSpan arguments ::
        (object.nodes ++ nodesAll arguments)
  | index span object key => .index span object key :: (object.nodes ++ key.nodes)
  | await span operand => .await span operand :: operand.nodes
  | delete span nameSpan label => [.delete span nameSpan label]
  | construct span callSpan callee argumentsSpan arguments =>
      .construct span callSpan callee argumentsSpan arguments :: nodesAll arguments

/-- Some expressions and all expressions they are made of. -/
def nodesAll : List Expr → List Expr
  | [] => []
  | expr :: rest => expr.nodes ++ nodesAll rest

end

/-- The nodes of some expressions are those of each in turn. -/
theorem nodesAll_eq_flatMap (exprs : List Expr) : nodesAll exprs = exprs.flatMap nodes := by
  induction exprs with
  | nil => rfl
  | cons expr exprs inductionHypothesis => rw [nodesAll, inductionHypothesis, List.flatMap_cons]

end Expr

namespace Token

/-- A word that is no keyword. -/
def IsName (text : List UInt8) : Prop :=
  IsWord text ∧ wordKind text = .name

/-- What is known of the token of a kind. -/
structure Sound (token : Token) : Prop where
  name : token.kind = .name → IsName (Text.bytes token.text)
  keyword : ∀ word, token.kind = .keyword word → IsWord (Text.bytes token.text)
  number : token.kind = .number → ∀ value, Decimal.read? token.text = some value →
    ∃ mantissa exponent, Binary64.ofFloat value = .finite false mantissa exponent

end Token

namespace Expr

/-- The names and numbers of a node are those of tokens. -/
def Proper : Expr → Prop
  | number _ value => ∃ mantissa exponent, Binary64.ofFloat value = .finite false mantissa exponent
  | name _ label | call _ label _ _ | delete _ _ label | construct _ _ label _ _ =>
      Token.IsName (Text.bytes label)
  | member _ _ _ label | method _ _ _ label _ _ => Token.IsWord (Text.bytes label)
  | absent _ => False
  | _ => True

/-- All nodes of an expression are proper. -/
def AllProper (expr : Expr) : Prop :=
  ∀ node ∈ expr.nodes, node.Proper

end Expr

namespace Parser

/-- Whatever a parser makes of sound tokens has a property. -/
def Yields (parser : Parser α) (Result : α → Prop) : Prop :=
  ∀ stream value rest, (∀ token ∈ stream.tokens, token.Sound) →
    parser stream = .ok (value, rest) → Result value ∧ ∀ token ∈ rest.tokens, token.Sound

namespace Yields

variable {Result : α → Prop}

/-- A parser that reads nothing yields its value. -/
theorem result {value : α} (holds : Result value) : Yields (pure value) Result := by
  rintro stream _ _ sound ⟨⟩
  exact ⟨holds, sound⟩

/-- Two parsers in a row, the second one for all that the first one may yield. -/
theorem bind {First : β → Prop} {first : Parser β} {next : β → Parser α}
    (firstYields : Yields first First)
    (nextYields : ∀ value, First value → Yields (next value) Result) :
    Yields (first >>= next) Result := by
  intro stream value rest sound ran
  have unfolded : (first >>= next) stream =
      (first stream).bind fun read => next read.1 read.2 := rfl
  rw [unfolded] at ran
  cases found : first stream with
  | error fault =>
      rw [found] at ran
      cases ran
  | ok read =>
      rw [found] at ran
      obtain ⟨holds, soundRest⟩ := firstYields stream read.1 read.2 sound found
      exact nextYields read.1 holds read.2 value rest soundRest ran

/-- What the first parser reads does not matter. -/
theorem bind_any {first : Parser β} {next : β → Parser α}
    (firstYields : Yields first fun _ => True) (nextYields : ∀ value, Yields (next value) Result) :
    Yields (first >>= next) Result :=
  firstYields.bind fun value _ => nextYields value

/-- A parser that fails yields nothing. -/
theorem fail (span : Span) (cause : Cause) : Yields (Parser.fail span cause) Result := by
  rintro stream _ _ sound ⟨⟩

/-! ## Streams -/

/-- The next token is one of the tokens of the input. -/
theorem front? : Yields Parser.front? fun token? => ∀ token, token? = some token → token.Sound := by
  rintro stream _ _ sound ⟨⟩
  exact ⟨fun token head => sound token (List.mem_of_head? head), sound⟩

theorem frontKind? : Yields Parser.frontKind? fun _ => True :=
  front?.bind fun _ _ => result trivial

theorem secondKind? : Yields Parser.secondKind? fun _ => True := by
  rintro stream _ _ sound ⟨⟩
  exact ⟨trivial, sound⟩

theorem isAt (kind : TokenKind) : Yields (Parser.isAt kind) fun _ => True :=
  frontKind?.bind_any fun _ => result trivial

theorem isAtMark (mark : Mark) : Yields (Parser.isAtMark mark) fun _ => True :=
  isAt _

theorem isAtEnd : Yields Parser.isAtEnd fun _ => True :=
  front?.bind fun _ _ => result trivial

theorem here : Yields Parser.here fun _ => True := by
  rintro stream _ _ sound ⟨⟩
  exact ⟨trivial, sound⟩

/-- Passing a token leaves tokens of the input. -/
theorem advance : Yields Parser.advance fun _ => True := by
  rintro ⟨tokens, previous?, endSpan⟩ _ _ sound ⟨⟩
  refine ⟨trivial, ?_⟩
  cases tokens with
  | nil => exact sound
  | cons token tokens => exact (List.forall_mem_cons.1 sound).2

theorem since (start : Span) : Yields (Parser.since start) fun _ => True := by
  rintro stream _ _ sound ⟨⟩
  exact ⟨trivial, sound⟩

theorem unexpected (wanted : String) : Yields (Parser.unexpected wanted : Parser α) Result :=
  here.bind_any fun _ => front?.bind fun _ _ => fail _ _

theorem accept (kind : TokenKind) : Yields (Parser.accept kind) fun _ => True := by
  refine (isAt kind).bind_any fun isThere => ?_
  cases isThere with
  | true => exact advance.bind_any fun _ => result trivial
  | false => exact result trivial

theorem acceptMark (mark : Mark) : Yields (Parser.acceptMark mark) fun _ => True :=
  accept _

/-- A demanded token is one of the input and of the kind that is demanded. -/
theorem expect (kind : TokenKind) :
    Yields (Parser.expect kind) fun token => token.Sound ∧ token.kind = kind := by
  refine front?.bind fun token? sound => ?_
  cases token? with
  | none => exact unexpected _
  | some token =>
      dsimp only
      split
      · rename_i same
        exact advance.bind_any fun _ => result ⟨sound token rfl, same⟩
      · exact unexpected _

theorem expectMark (mark : Mark) : Yields (Parser.expectMark mark) fun _ => True :=
  (expect _).bind fun _ _ => result trivial

/-- A name that is read is a word and no keyword. -/
theorem identifier : Yields Parser.identifier fun label => Token.IsName (Text.bytes label) :=
  (expect .name).bind fun _ ⟨sound, isName⟩ => result (sound.name isName)

/-- A member may have the name of a keyword, but it is a word. -/
theorem memberName : Yields Parser.memberName fun label => Token.IsWord (Text.bytes label) := by
  have named : Yields Parser.identifier fun label => Token.IsWord (Text.bytes label) := by
    intro stream value rest sound ran
    obtain ⟨isName, soundRest⟩ := identifier stream value rest sound ran
    exact ⟨isName.1, soundRest⟩
  refine front?.bind fun token? sound => ?_
  cases token? with
  | none => exact named
  | some token =>
      dsimp only
      split
      · rename_i word isKeyword
        exact advance.bind_any fun _ => result ((sound token rfl).keyword word isKeyword)
      · exact named

/-! ## Expressions -/

/-- The parsers that expressions are made of yield proper expressions. -/
structure OfOperands (operands : Operands) : Prop where
  expression : Yields operands.expression Expr.AllProper
  unary : Yields operands.unary Expr.AllProper

variable {operands : Operands}

/-- All of some expressions are proper. -/
def EachProper (items : List Expr) : Prop :=
  ∀ item ∈ items, item.AllProper

/-- A node is proper throughout if it is so itself and the nodes below it are. -/
theorem allProper_cons {node : Expr} {others : List Expr} (proper : node.Proper)
    (shape : node.nodes = node :: others) (rest : ∀ other ∈ others, other.Proper) :
    node.AllProper := by
  rw [Expr.AllProper, shape, List.forall_mem_cons]
  exact ⟨proper, rest⟩

/-- The nodes of proper expressions are proper. -/
theorem EachProper.nodesAll {items : List Expr} (proper : EachProper items) :
    ∀ node ∈ Expr.nodesAll items, node.Proper := by
  intro node member
  rw [Expr.nodesAll_eq_flatMap] at member
  obtain ⟨item, isItem, isNode⟩ := List.mem_flatMap.1 member
  exact proper item isItem node isNode

/-- Lists of proper nodes may be joined. -/
theorem proper_append {nodes others : List Expr} (proper : ∀ node ∈ nodes, node.Proper)
    (otherProper : ∀ node ∈ others, node.Proper) : ∀ node ∈ nodes ++ others, node.Proper :=
  List.forall_mem_append.2 ⟨proper, otherProper⟩

theorem operatorAhead? (level : Parser.Level) :
    Yields (Parser.operatorAhead? level) fun _ => True :=
  frontKind?.bind_any fun _ => result trivial

/-- The items of a list are proper if those read before are, by induction on the fuel. -/
theorem itemsUntil (yield : OfOperands operands) (close : Mark) (fuel : Nat) {items : List Expr}
    (proper : EachProper items) :
    Yields (Parser.itemsUntil operands close fuel items) EachProper := by
  have reversed {items : List Expr} (proper : EachProper items) : EachProper items.reverse :=
    fun item member => proper item (List.mem_reverse.1 member)
  induction fuel generalizing items with
  | zero => exact result (reversed proper)
  | succ fuel inductionHypothesis =>
      refine (isAtMark close).bind_any fun closed => ?_
      cases closed with
      | true => exact result (reversed proper)
      | false =>
          refine yield.expression.bind fun item itemProper => ?_
          have longer : EachProper (item :: items) := List.forall_mem_cons.2 ⟨itemProper, proper⟩
          refine (acceptMark .comma).bind_any fun goesOn => ?_
          cases goesOn with
          | true => exact inductionHypothesis longer
          | false => exact result (reversed longer)

theorem enclosedItems (yield : OfOperands operands) (opening close : Mark) :
    Yields (Parser.enclosedItems operands opening close) fun read => EachProper read.2 := by
  refine here.bind_any fun start => (expectMark opening).bind_any fun _ => ?_
  refine (itemsUntil yield close _ (by simp [EachProper])).bind fun items proper => ?_
  refine (expectMark close).bind_any fun _ => ?_
  exact (since start).bind_any fun span => result proper

/-- Names, literals and what is in parentheses are proper: this is where tokens become nodes. -/
theorem primary (yield : OfOperands operands) :
    Yields (Parser.primary operands) Expr.AllProper := by
  have leaf {node : Expr} (proper : node.Proper) (shape : node.nodes = [node]) : node.AllProper :=
    allProper_cons proper shape (by simp)
  refine here.bind_any fun start => front?.bind fun token? sound => ?_
  cases token? with
  | none => exact unexpected _
  | some token =>
      have isSound := sound token rfl
      dsimp only
      split
      · rename_i isNumber
        refine advance.bind_any fun _ => ?_
        split
        · rename_i value read
          exact result (leaf (isSound.number isNumber value read) rfl)
        · exact fail _ _
      · exact advance.bind_any fun _ => result (leaf trivial rfl)
      · exact advance.bind_any fun _ => result (leaf trivial rfl)
      · exact advance.bind_any fun _ => result (leaf trivial rfl)
      · exact advance.bind_any fun _ => result (leaf trivial rfl)
      · rename_i isName
        refine advance.bind_any fun _ => (isAtMark _).bind_any fun isCall => ?_
        cases isCall with
        | true =>
            refine (enclosedItems yield _ _).bind fun read proper => (since start).bind_any ?_
            exact fun span => result (allProper_cons (isSound.name isName) rfl proper.nodesAll)
        | false => exact result (leaf (isSound.name isName) rfl)
      · refine advance.bind_any fun _ => yield.expression.bind fun _ proper => ?_
        exact (expectMark _).bind_any fun _ => result proper
      · refine (enclosedItems yield _ _).bind fun read proper => ?_
        exact result (allProper_cons trivial rfl proper.nodesAll)
      · exact unexpected _

/-- Appending members, calls and keys keeps an object proper. -/
theorem membersOf (yield : OfOperands operands) (start : Span) (fuel : Nat) {object : Expr}
    (proper : object.AllProper) :
    Yields (Parser.membersOf operands start fuel object) Expr.AllProper := by
  induction fuel generalizing object with
  | zero => exact result proper
  | succ fuel inductionHypothesis =>
      refine (acceptMark .dot).bind_any fun dot => ?_
      cases dot with
      | true =>
          refine here.bind_any fun nameSpan => memberName.bind fun name isWord => ?_
          refine (isAtMark _).bind_any fun isCall => ?_
          cases isCall with
          | true =>
              refine (enclosedItems yield _ _).bind fun read itemsProper => ?_
              refine (since nameSpan).bind_any fun callSpan => (since start).bind_any fun span => ?_
              exact inductionHypothesis
                (allProper_cons isWord rfl (proper_append proper itemsProper.nodesAll))
          | false =>
              refine (since start).bind_any fun span => ?_
              exact inductionHypothesis (allProper_cons isWord rfl proper)
      | false =>
          refine (acceptMark .leftBracket).bind_any fun bracket => ?_
          cases bracket with
          | true =>
              refine yield.expression.bind fun key keyProper => (expectMark _).bind_any fun _ => ?_
              refine (since start).bind_any fun span => ?_
              exact inductionHypothesis
                (allProper_cons trivial rfl (proper_append proper keyProper))
          | false => exact result proper

theorem withMembers (yield : OfOperands operands) :
    Yields (Parser.withMembers operands) Expr.AllProper :=
  here.bind_any fun start => (primary yield).bind fun _ proper => membersOf yield start _ proper

theorem power (yield : OfOperands operands) : Yields (Parser.power operands) Expr.AllProper := by
  refine here.bind_any fun start => (withMembers yield).bind fun base baseProper => ?_
  refine (acceptMark .caret).bind_any fun caret => ?_
  cases caret with
  | true =>
      refine yield.unary.bind fun exponent exponentProper => (since start).bind_any fun span => ?_
      exact result (allProper_cons trivial rfl (proper_append baseProper exponentProper))
  | false => exact result baseProper

/-- Operators in front of an operand and behind it keep it proper. -/
theorem unaryStep (yield : OfOperands operands) :
    Yields (Parser.unaryStep operands) Expr.AllProper := by
  refine here.bind_any fun start => frontKind?.bind_any fun kind? => ?_
  cases kind? with
  | none => exact power yield
  | some kind =>
      dsimp only
      split
      · refine advance.bind_any fun _ => yield.unary.bind fun operand proper => ?_
        exact (since start).bind_any fun span => result (allProper_cons trivial rfl proper)
      · refine advance.bind_any fun _ => yield.unary.bind fun operand proper => ?_
        exact (since start).bind_any fun span => result (allProper_cons trivial rfl proper)
      · refine advance.bind_any fun _ => here.bind_any fun nameSpan => ?_
        refine identifier.bind fun label isName => (since start).bind_any fun span => ?_
        exact result (allProper_cons isName rfl (by simp))
      · refine advance.bind_any fun _ => here.bind_any fun callStart => ?_
        refine (isAt _).bind_any fun isName => secondKind?.bind_any fun second? => ?_
        have constructed : Yields
            (do
              let callee ← Parser.identifier
              let arguments ← Parser.callArguments operands
              let callSpan ← Parser.since callStart
              return .construct (← Parser.since start) callSpan callee arguments.1 arguments.2)
            Expr.AllProper := by
          refine identifier.bind fun callee isName => ?_
          refine (enclosedItems yield _ _).bind fun arguments proper => ?_
          refine (since callStart).bind_any fun callSpan => (since start).bind_any fun span => ?_
          exact result (allProper_cons isName rfl proper.nodesAll)
        split
        · exact (unexpected _).bind_any fun _ => constructed
        · exact constructed
      · exact power yield

/-- Every further operand of a chain is proper, by induction on the fuel. -/
theorem chainFrom (level : Parser.Level) {operand : Parser Expr}
    (yields : Yields operand Expr.AllProper) (start : Span) (fuel : Nat) {left : Expr}
    (proper : left.AllProper) :
    Yields (Parser.chainFrom level operand start fuel left) Expr.AllProper := by
  induction fuel generalizing left with
  | zero => exact result proper
  | succ fuel inductionHypothesis =>
      refine (operatorAhead? level).bind_any fun operator? => ?_
      cases operator? with
      | none => exact result proper
      | some operator =>
          refine advance.bind_any fun _ => yields.bind fun right rightProper => ?_
          refine (since start).bind_any fun span => ?_
          exact inductionHypothesis
            (allProper_cons trivial rfl (proper_append proper rightProper))

theorem chain (fuel : Nat) (level : Parser.Level) {operand : Parser Expr}
    (yields : Yields operand Expr.AllProper) :
    Yields (Parser.chain fuel level operand) Expr.AllProper :=
  here.bind_any fun start => yields.bind fun _ proper => chainFrom level yields start fuel proper

/-- Every further factor is proper, by induction on the fuel. -/
theorem factorsFrom (yield : OfOperands operands) (start : Span) (fuel : Nat) {left : Expr}
    (proper : left.AllProper) :
    Yields (Parser.factorsFrom operands start fuel left) Expr.AllProper := by
  induction fuel generalizing left with
  | zero => exact result proper
  | succ fuel inductionHypothesis =>
      have goesOn : ∀ operator : BinaryOperator, Yields
          (do
            let right ← Parser.unaryStep operands
            Parser.factorsFrom operands start fuel
              (.binary (← Parser.since start) left operator right)) Expr.AllProper := by
        intro operator
        refine (unaryStep yield).bind fun right rightProper => ?_
        refine (since start).bind_any fun span => ?_
        exact inductionHypothesis (allProper_cons trivial rfl (proper_append proper rightProper))
      refine (isAt _).bind_any fun isName => (isAtMark _).bind_any fun isParen => ?_
      cases left.isNumber && (isName || isParen) with
      | true => exact goesOn .multiply
      | false =>
          refine (operatorAhead? _).bind_any fun operator? => ?_
          cases operator? with
          | none => exact result proper
          | some operator => exact advance.bind_any fun _ => goesOn operator

theorem product (yield : OfOperands operands) : Yields (Parser.product operands) Expr.AllProper :=
  here.bind_any fun start => (unaryStep yield).bind fun _ proper =>
    factorsFrom yield start _ proper

/-- All binary levels, by induction on their list. -/
theorem binaryOf (yield : OfOperands operands) (levels : List Parser.Level) :
    Yields (Parser.binaryOf operands levels) Expr.AllProper := by
  induction levels with
  | nil => exact product yield
  | cons level levels inductionHypothesis => exact chain _ level inductionHypothesis

/-- An expression: a condition or what it is made of. -/
theorem expressionStep (yield : OfOperands operands) :
    Yields (Parser.expressionStep operands) Expr.AllProper := by
  refine here.bind_any fun start => (binaryOf yield _).bind fun test testProper => ?_
  refine (acceptMark .question).bind_any fun question => ?_
  cases question with
  | true =>
      refine yield.expression.bind fun consequent consequentProper => ?_
      refine (expectMark _).bind_any fun _ => yield.expression.bind fun alternate proper => ?_
      refine (since start).bind_any fun span => ?_
      exact result (allProper_cons trivial rfl
        (proper_append (proper_append testProper consequentProper) proper))
  | false => exact result testProper

/-- Reading expressions yields proper ones, by induction on the nesting. -/
theorem operands_of_fuel (fuel bound : Nat) :
    OfOperands ⟨Parser.expression fuel, Parser.unary fuel, bound⟩ := by
  induction fuel generalizing bound with
  | zero => exact ⟨unexpected _, unexpected _⟩
  | succ fuel inductionHypothesis =>
      exact ⟨expressionStep (inductionHypothesis (fuel + 1)),
        unaryStep (inductionHypothesis (fuel + 1))⟩

/-- A whole text that is a single expression is proper throughout. -/
theorem wholeExpression (fuel : Nat) : Yields (Parser.wholeExpression fuel) Expr.AllProper := by
  refine (operands_of_fuel fuel 0).expression.bind fun expr proper => ?_
  refine (acceptMark _).bind_any fun _ => isAtEnd.bind_any fun atEnd => ?_
  cases atEnd with
  | true => exact result proper
  | false => exact unexpected _

end Yields
end Parser

namespace Token

/-- Words consist of ASCII characters. -/
theorem IsWord.basic {text : List UInt8} (isWord : IsWord text) : ∀ byte ∈ text, byte < 128 := by
  obtain ⟨first, rest, rfl, start, parts⟩ := isWord
  intro byte member
  have part : isNamePart byte = true := by
    rcases List.mem_cons.1 member with rfl | member
    · simp [isNamePart, start]
    · exact parts byte member
  have all := forall_byte (p := fun byte => !isNamePart byte || decide (byte < 128))
    (by decide +kernel) byte
  simpa [part] using all

/-- What wins as a word is the whole word, and its kind is that of the word. -/
theorem word_of_best? {input : List UInt8} {kind : TokenKind} {size : Nat} (someBytes : input ≠ [])
    (found : Lexer.best? rules input = some (some kind, size))
    (named : kind = .name ∨ ∃ word, kind = .keyword word) :
    IsWord (input.take size) ∧ wordKind (input.take size) = kind := by
  obtain ⟨byte, rest, rfl⟩ := List.exists_cons_of_ne_nil someBytes
  obtain ⟨before, rule, after, split, sameKind, wins⟩ := Lexer.exists_wins_of_best? found
  have member : rule ∈ rules := split ▸ List.mem_append_right _ List.mem_cons_self
  have isWord : lead byte = .word := by
    cases fits_of_match member wins.found with
    | keyword _ isWord => exact isWord
    | name isWord => exact isWord
    | _ =>
        rcases named with rfl | ⟨word, rfl⟩
        · cases sameKind
        · cases sameKind
  have start := lead_eq_word_iff.1 isWord
  have part : isNamePart byte = true := by simp [isNamePart, start]
  rw [best?_word start] at found
  cases found
  rw [Lexer.Pattern.take_length_takeWhile]
  refine ⟨⟨byte, _, List.takeWhile_cons_of_pos part, start, ?_⟩, rfl⟩
  exact fun other isPart => List.mem_takeWhile_imp isPart

/-- What wins as a number are digits and points. -/
theorem number_of_best? {input : List UInt8} {size : Nat}
    (found : Lexer.best? rules input = some (some .number, size)) :
    input.take size ≠ [] ∧
      ∀ byte ∈ input.take size, isDigitByte byte = true ∨ byte = Text.byteOf '.' := by
  refine ⟨(longest_of_best? found).2.nonempty, ?_⟩
  obtain ⟨before, rule, after, split, sameKind, wins⟩ := Lexer.exists_wins_of_best? found
  have member : rule ∈ rules := split ▸ List.mem_append_right _ List.mem_cons_self
  have fraction {text : List UInt8}
      (matched : ((Lexer.Regex.byte (Text.byteOf '.')).sequence (oneIn 48 57).atLeastOne).Matches
        text) :
      ∀ byte ∈ text, isDigitByte byte = true ∨ byte = Text.byteOf '.' := by
    obtain ⟨digits, rfl, -, areDigits⟩ :=
      (Lexer.Pattern.matches_fraction isClass_digit _).1 matched
    exact List.forall_mem_cons.2 ⟨.inr rfl, fun byte isDigit => .inl (areDigits byte isDigit)⟩
  rcases mem_rules_iff.1 member with ⟨word, rfl⟩ | ⟨mark, rfl⟩ | isOpen
  · cases sameKind
  · cases sameKind
  · simp only [openRules_eq, List.mem_cons, List.not_mem_nil, or_false] at isOpen
    rcases isOpen with rfl | rfl | rfl | rfl | rfl | rfl | rfl | rfl
    · cases sameKind
    · cases sameKind
    · cases sameKind
    · cases sameKind
    · cases sameKind
    · obtain ⟨-, whole, tail, split, isWhole, isTail⟩ :=
        (Lexer.Pattern.finds_decimal isClass_digit (by decide)).found wins.found
      rw [split]
      refine List.forall_mem_append.2 ⟨fun byte isDigit => ?_, ?_⟩
      · exact .inl (((isClass_digit.atLeastOne _).1 isWhole).2 byte isDigit)
      · rcases isTail with rfl | isFraction
        · simp
        · exact fraction isFraction
    · exact fraction ((Lexer.Pattern.finds_fraction isClass_digit).found wins.found).2
    · cases sameKind

/-- The tokens of the lexer are sound. -/
theorem scan_tokens_sound (source : String) : ∀ token ∈ (scan source).tokens, token.Sound := by
  intro token member
  obtain ⟨before, after, split, -⟩ := exists_of_mem_located member
  obtain ⟨someBytes, cut⟩ := Lexer.cut_of_pieces split
  obtain ⟨size, found, lexeme⟩ :=
    best?_of_cut (show Lexer.Cut rules _ (Lexer.Piece.made (some token.kind) token.lexeme) from cut)
  have word (named : token.kind = .name ∨ ∃ word, token.kind = .keyword word) :
      IsWord (Text.bytes token.text) ∧ wordKind (Text.bytes token.text) = token.kind := by
    have isWord := word_of_best? someBytes found named
    rw [← lexeme] at isWord
    rw [text, Text.bytes_ofBytes isWord.1.basic]
    exact isWord
  refine ⟨fun isName => ?_, fun keyword isKeyword => (word (.inr ⟨keyword, isKeyword⟩)).1,
    fun isNumber value read => ?_⟩
  · exact ⟨(word (.inl isName)).1, (word (.inl isName)).2.trans isName⟩
  · rw [isNumber] at found
    obtain ⟨someDigits, digits⟩ := number_of_best? found
    rw [← lexeme] at someDigits digits
    have numeral : ∀ byte ∈ token.lexeme,
        byte < 128 ∧ Decimal.isNumeralChar (Text.charOf byte) = true := by
      intro byte isByte
      have all := forall_byte (p := fun byte =>
        !(isDigitByte byte || byte == Text.byteOf '.') ||
          (decide (byte < 128) && Decimal.isNumeralChar (Text.charOf byte)))
        (by decide +kernel) byte
      have either : (isDigitByte byte || byte == Text.byteOf '.') = true := by
        simpa using digits byte isByte
      simpa [either] using all
    rw [text, Text.ofBytes_basic fun byte isByte => (numeral byte isByte).1] at read
    refine Decimal.ofFloat_of_read? (by simpa using someDigits) ?_ read
    simp only [List.mem_map, forall_exists_index, and_imp, forall_apply_eq_imp_iff₂]
    exact fun byte isByte => (numeral byte isByte).2

end Token

/-- The names and numbers of a parsed expression are those of tokens. -/
theorem Expr.proper_of_parse {source : String} {expr : Expr} (parsed : Expr.parse source = .ok expr) :
    expr.AllProper := by
  unfold Expr.parse Parser.parseWith at parsed
  simp only [] at parsed
  split at parsed
  · cases parsed
  · unfold Parser.runOn at parsed
    simp only [Token.map_shift_zero] at parsed
    split at parsed
    · rename_i read ran
      cases parsed
      exact (Parser.Yields.wholeExpression _ _ _ _ (Token.scan_tokens_sound source) ran).1
    · cases parsed

end ScopeScript
