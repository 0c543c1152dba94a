import ScopeScript.Proofs.Parser.Spans

/-!
# How expressions are written

From loose to tight the constructs of an expression bind as follows: the conditional (0), the binary
operators from `or` to multiplication (1 to 11), operators in front of an operand (12), the power
(13), member accesses (14), and everything closed (15). `Written level expr tokens` says that the
tokens are a way to write the expression where something is required that binds at least as tightly
as the level. A construct that binds less tightly has to be put in parentheses, and every other one
may be, any number of times. A comma may stand behind the last item of a list.

All binary operators up to multiplication group to the left, so their right operand has to bind more
tightly. The base of a power has to be closed or a member access, and its exponent may be anything
from operators in front of an operand on.

`Ends level rest` says that what follows does not go on with a construct of the level or a tighter
one.
-/

namespace ScopeScript

/-- How tightly a binary operator binds. -/
def BinaryOperator.tightness : BinaryOperator → Nat
  | or | xor => 1
  | and => 2
  | bitOr => 3
  | bitXor => 4
  | bitAnd => 5
  | equal | notEqual => 6
  | less | lessEqual | greater | greaterEqual => 7
  | range => 8
  | shiftLeft | shiftRight => 9
  | add | subtract => 10
  | multiply | divide | modulo => 11
  | power => 13

/-- All operators but the power are on the levels between conditionals and operators in front of an
operand. -/
theorem BinaryOperator.tightness_of_ne_power {operator : BinaryOperator} {level : Nat}
    (other : operator ≠ .power) (tight : operator.tightness = level) : 1 ≤ level ∧ level ≤ 11 := by
  subst tight
  cases operator with
  | power => exact absurd rfl other
  | _ => decide

namespace TokenKind

/-- The binary operator that is written by a kind of token. -/
def binaryOperator? : TokenKind → Option BinaryOperator
  | mark .pipePipe | keyword .kwOr => some .or
  | keyword .kwXor => some .xor
  | mark .ampAmp | keyword .kwAnd => some .and
  | mark .pipe | keyword .kwBor => some .bitOr
  | keyword .kwBxor => some .bitXor
  | mark .amp | keyword .kwBand => some .bitAnd
  | mark .equal => some .equal
  | mark .notEqual => some .notEqual
  | mark .less => some .less
  | mark .lessEqual => some .lessEqual
  | mark .greater => some .greater
  | mark .greaterEqual => some .greaterEqual
  | mark .dotDot => some .range
  | mark .shiftLeft => some .shiftLeft
  | mark .shiftRight => some .shiftRight
  | mark .plus => some .add
  | mark .minus => some .subtract
  | mark .star => some .multiply
  | mark .slash => some .divide
  | mark .percent => some .modulo
  | mark .caret => some .power
  | _ => none

/-- The operator in front of an operand that is written by a kind of token. -/
def unaryOperator? : TokenKind → Option UnaryOperator
  | mark .plus => some .plus
  | mark .minus => some .minus
  | mark .bang | keyword .kwNot => some .not
  | mark .tilde | keyword .kwBnot => some .bitNot
  | mark .plusPlus => some .increment
  | mark .minusMinus => some .decrement
  | _ => none

/-- Whether a kind of token names a member. -/
def namesMember : TokenKind → Bool
  | name | keyword _ => true
  | _ => false

/-- Whether a kind of token begins something closed. -/
def opens : TokenKind → Bool
  | name | number | text | mark .leftParen | mark .leftBracket
  | keyword .kwTrue | keyword .kwFalse | keyword .kwNone => true
  | _ => false

/-- The level of what a token behind an operand goes on with. Behind some operands a name or a
parenthesis does, too; it would go on with whatever is open. -/
def joint? : TokenKind → Option Nat
  | mark .question => some 0
  | mark .dot | mark .leftBracket => some 14
  | mark .leftParen | name => some 15
  | kind => kind.binaryOperator?.map BinaryOperator.tightness

end TokenKind

namespace Expr

/-- The expression without its spans. -/
def unplaced (expr : Expr) : Expr :=
  expr.mapSpans fun _ => .null

/-- How tightly the outermost construct of an expression binds. -/
def tightness : Expr → Nat
  | conditional .. => 0
  | binary _ _ operator _ => operator.tightness
  | unary .. => 12
  | member .. | method .. | index .. => 14
  | _ => 15

mutual

/-- Tokens are a way to write an expression where something at least as tight as a level is
required. -/
inductive Written : Nat → Expr → List Token → Prop
  | bare {level : Nat} {expr : Expr} {tokens : List Token} :
      level ≤ expr.tightness → Shape expr tokens → Written level expr tokens
  | parenthesised {level : Nat} {expr : Expr} {opening closing : Token} {tokens : List Token} :
      opening.kind = .mark .leftParen → Written 0 expr tokens →
      closing.kind = .mark .rightParen → Written level expr (opening :: tokens ++ [closing])

/-- Tokens are a way to write an expression without parentheses around the whole. -/
inductive Shape : Expr → List Token → Prop
  | number {span : Span} {value : Float} {token : Token} :
      token.kind = .number → Decimal.read? token.text = some value →
      Shape (.number span value) [token]
  | text {span : Span} {value : String} {token : Token} :
      token.kind = .text → token.content = value → Shape (.text span value) [token]
  | bool {span : Span} {value : Bool} {token : Token} :
      token.kind = .keyword (if value then .kwTrue else .kwFalse) →
      Shape (.bool span value) [token]
  | none {span : Span} {token : Token} :
      token.kind = .keyword .kwNone → Shape (.none span) [token]
  | name {span : Span} {label : String} {token : Token} :
      token.kind = .name → token.text = label → Shape (.name span label) [token]
  | binary {span : Span} {left right : Expr} {operator : BinaryOperator} {token : Token}
      {leftTokens rightTokens : List Token} :
      operator ≠ .power → Written operator.tightness left leftTokens →
      token.kind.binaryOperator? = some operator →
      Written (operator.tightness + 1) right rightTokens →
      Shape (.binary span left operator right) (leftTokens ++ token :: rightTokens)
  | power {span : Span} {base exponent : Expr} {caret : Token}
      {baseTokens exponentTokens : List Token} :
      Written 14 base baseTokens → caret.kind = .mark .caret →
      Written 12 exponent exponentTokens →
      Shape (.binary span base .power exponent) (baseTokens ++ caret :: exponentTokens)
  | unary {span : Span} {operand : Expr} {operator : UnaryOperator} {token : Token}
      {tokens : List Token} :
      token.kind.unaryOperator? = some operator → Written 12 operand tokens →
      Shape (.unary span operator operand) (token :: tokens)
  | conditional {span : Span} {test consequent alternate : Expr} {question colon : Token}
      {testTokens consequentTokens alternateTokens : List Token} :
      Written 1 test testTokens → question.kind = .mark .question →
      Written 0 consequent consequentTokens → colon.kind = .mark .colon →
      Written 0 alternate alternateTokens →
      Shape (.conditional span test consequent alternate)
        (testTokens ++ question :: consequentTokens ++ colon :: alternateTokens)
  | sequence {span : Span} {items : List Expr} {tokens : List Token} :
      Enclosed .leftBracket .rightBracket items tokens → Shape (.sequence span items) tokens
  | call {span argumentsSpan : Span} {callee : String} {arguments : List Expr} {token : Token}
      {tokens : List Token} :
      token.kind = .name → token.text = callee → Enclosed .leftParen .rightParen arguments tokens →
      Shape (.call span callee argumentsSpan arguments) (token :: tokens)
  | member {span nameSpan : Span} {object : Expr} {label : String} {dot token : Token}
      {tokens : List Token} :
      Written 14 object tokens → dot.kind = .mark .dot → token.kind.namesMember = true →
      token.text = label → Shape (.member span object nameSpan label) (tokens ++ [dot, token])
  | method {span callSpan argumentsSpan : Span} {object : Expr} {callee : String}
      {arguments : List Expr} {dot token : Token} {tokens argumentTokens : List Token} :
      Written 14 object tokens → dot.kind = .mark .dot → token.kind.namesMember = true →
      token.text = callee → Enclosed .leftParen .rightParen arguments argumentTokens →
      Shape (.method span object callSpan callee argumentsSpan arguments)
        (tokens ++ dot :: token :: argumentTokens)
  | index {span : Span} {object key : Expr} {opening closing : Token}
      {tokens keyTokens : List Token} :
      Written 14 object tokens → opening.kind = .mark .leftBracket → Written 0 key keyTokens →
      closing.kind = .mark .rightBracket →
      Shape (.index span object key) (tokens ++ opening :: keyTokens ++ [closing])

/-- Tokens are a way to write a list of expressions between two marks. -/
inductive Enclosed : Mark → Mark → List Expr → List Token → Prop
  | between {left right : Mark} {items : List Expr} {opening closing : Token}
      {tokens : List Token} :
      opening.kind = .mark left → Items items tokens → closing.kind = .mark right →
      Enclosed left right items (opening :: tokens ++ [closing])

/-- Tokens are a way to write expressions separated by commas; there may be a comma behind the last
one. -/
inductive Items : List Expr → List Token → Prop
  | nil : Items [] []
  | last {item : Expr} {tokens : List Token} : Written 0 item tokens → Items [item] tokens
  | cons {item : Expr} {items : List Expr} {comma : Token} {tokens itemsTokens : List Token} :
      Written 0 item tokens → comma.kind = .mark .comma → Items items itemsTokens →
      Items (item :: items) (tokens ++ comma :: itemsTokens)

end

/-- What follows does not go on with a construct of a level or a tighter one. -/
def Ends (level : Nat) (rest : List Token) : Prop :=
  ∀ token, rest.head? = some token → ∀ joint, token.kind.joint? = some joint → joint < level

/-! ## Laws -/

@[simp] theorem unplaced_binary (span : Span) (left right : Expr) (operator : BinaryOperator) :
    (binary span left operator right).unplaced =
      .binary .null left.unplaced operator right.unplaced :=
  rfl

@[simp] theorem unplaced_unary (span : Span) (operator : UnaryOperator) (operand : Expr) :
    (unary span operator operand).unplaced = .unary .null operator operand.unplaced :=
  rfl

@[simp] theorem unplaced_conditional (span : Span) (test consequent alternate : Expr) :
    (conditional span test consequent alternate).unplaced =
      .conditional .null test.unplaced consequent.unplaced alternate.unplaced :=
  rfl

@[simp] theorem unplaced_sequence (span : Span) (items : List Expr) :
    (sequence span items).unplaced = .sequence .null (items.map unplaced) :=
  congrArg (sequence .null) (mapSpansAll_eq_map _ items)

@[simp] theorem unplaced_call (span argumentsSpan : Span) (callee : String)
    (arguments : List Expr) :
    (call span callee argumentsSpan arguments).unplaced =
      .call .null callee .null (arguments.map unplaced) :=
  congrArg (call .null callee .null) (mapSpansAll_eq_map _ arguments)

@[simp] theorem unplaced_member (span nameSpan : Span) (object : Expr) (label : String) :
    (member span object nameSpan label).unplaced = .member .null object.unplaced .null label :=
  rfl

@[simp] theorem unplaced_method (span callSpan argumentsSpan : Span) (object : Expr)
    (callee : String) (arguments : List Expr) :
    (method span object callSpan callee argumentsSpan arguments).unplaced =
      .method .null object.unplaced .null callee .null (arguments.map unplaced) :=
  congrArg (method .null object.unplaced .null callee .null) (mapSpansAll_eq_map _ arguments)

@[simp] theorem unplaced_index (span : Span) (object key : Expr) :
    (index span object key).unplaced = .index .null object.unplaced key.unplaced :=
  rfl

/-- An operator goes on with an operand at its own level. -/
theorem joint?_of_binaryOperator? {kind : TokenKind} {operator : BinaryOperator}
    (found : kind.binaryOperator? = some operator) :
    kind.joint? = some operator.tightness := by
  cases kind with
  | mark sign => cases sign <;> cases found <;> rfl
  | keyword word => cases word <;> cases found <;> rfl
  | _ => cases found

/-- No token goes on with an operator in front of an operand. -/
theorem joint?_ne_unary (kind : TokenKind) : kind.joint? ≠ some 12 := by
  cases kind with
  | mark sign => cases sign <;> simp [TokenKind.joint?, TokenKind.binaryOperator?,
      BinaryOperator.tightness]
  | keyword word => cases word <;> simp [TokenKind.joint?, TokenKind.binaryOperator?,
      BinaryOperator.tightness]
  | _ => simp [TokenKind.joint?, TokenKind.binaryOperator?]

/-- What ends a level ends every tighter one. -/
theorem Ends.mono {level other : Nat} {rest : List Token} (ends : Ends level rest)
    (tighter : level ≤ other) : Ends other rest :=
  fun token found joint reached => Nat.lt_of_lt_of_le (ends token found joint reached) tighter

/-- What ends powers ends operands with operators in front of them, too. -/
theorem Ends.unary {rest : List Token} (ends : Ends 13 rest) : Ends 12 rest := by
  intro token found joint reached
  have looser := ends token found joint reached
  have other : joint ≠ 12 := by
    rintro rfl
    exact joint?_ne_unary token.kind reached
  omega

/-- A token of a looser level ends a construct. -/
theorem ends_cons {level joint : Nat} {token : Token} (reached : token.kind.joint? = some joint)
    (looser : joint < level) (rest : List Token) : Ends level (token :: rest) := by
  rintro _ ⟨⟩ other found
  cases reached.symm.trans found
  exact looser

/-- A token that goes on with nothing ends every construct. -/
theorem ends_cons_of_none {token : Token} (closes : token.kind.joint? = Option.none) (level : Nat)
    (rest : List Token) : Ends level (token :: rest) := by
  rintro _ ⟨⟩ other found
  cases closes.symm.trans found

theorem ends_nil (level : Nat) : Ends level [] := by
  rintro token ⟨⟩

/-- What follows is none of the tokens that would go on. -/
theorem Ends.kind_ne {level joint : Nat} {rest : List Token} (ends : Ends level rest)
    {kind : TokenKind} (reached : kind.joint? = some joint) (tighter : level ≤ joint) :
    ∀ token, rest.head? = some token → token.kind ≠ kind := by
  rintro token found rfl
  have looser := ends token found joint reached
  omega

/-- What binds no tighter than required has exactly the required tightness. -/
theorem Written.tighter {level : Nat} {expr : Expr} {tokens : List Token}
    (written : Written level expr tokens) :
    expr.tightness = level ∧ Shape expr tokens ∨ Written (level + 1) expr tokens := by
  cases written with
  | bare tight shape =>
      rcases Nat.eq_or_lt_of_le tight with same | more
      · exact .inl ⟨same.symm, shape⟩
      · exact .inr (.bare more shape)
  | parenthesised opening inner closing => exact .inr (.parenthesised opening inner closing)

/-- Every way to write an expression has a token. -/
theorem Written.length_pos {level : Nat} {expr : Expr} {tokens : List Token}
    (written : Written level expr tokens) : 0 < tokens.length := by
  refine List.length_pos_iff.2 ?_
  cases written with
  | bare _ shape =>
      cases shape with
      | sequence enclosed =>
          cases enclosed
          simp
      | _ => simp
  | parenthesised => simp

/-- Every item takes at least one token. -/
theorem Items.length_le {items : List Expr} {tokens : List Token} (written : Items items tokens) :
    items.length ≤ tokens.length := by
  cases written with
  | nil => simp
  | last written => exact written.length_pos
  | cons written _ rest =>
      have first := written.length_pos
      have others := rest.length_le
      simp only [List.length_append, List.length_cons]
      omega

/-- Everything that is written begins with a token that opens something closed, unless it begins
with an operator in front of an operand. -/
theorem Written.exists_first {level : Nat} {expr : Expr} {tokens : List Token}
    (written : Written level expr tokens) :
    ∃ token rest, tokens = token :: rest ∧
      (token.kind.opens = true ∨ level ≤ 12 ∧ token.kind.unaryOperator?.isSome) := by
  cases written with
  | parenthesised opening inner closing => exact ⟨_, _, rfl, .inl (by rw [opening]; rfl)⟩
  | bare least shape =>
      cases shape with
      | number kind _ => exact ⟨_, _, rfl, .inl (by rw [kind]; rfl)⟩
      | text kind _ => exact ⟨_, _, rfl, .inl (by rw [kind]; rfl)⟩
      | @bool _ value _ kind => exact ⟨_, _, rfl, .inl (by cases value <;> rw [kind] <;> rfl)⟩
      | none kind => exact ⟨_, _, rfl, .inl (by rw [kind]; rfl)⟩
      | name kind _ => exact ⟨_, _, rfl, .inl (by rw [kind]; rfl)⟩
      | binary _ left =>
          obtain ⟨token, rest, rfl, begins⟩ := left.exists_first
          refine ⟨token, _, rfl, begins.imp_right fun ⟨loose, sign⟩ => ⟨?_, sign⟩⟩
          exact Nat.le_trans least loose
      | power base =>
          obtain ⟨token, rest, rfl, begins⟩ := base.exists_first
          exact ⟨token, _, rfl, begins.imp_right (by omega)⟩
      | unary sign => exact ⟨_, _, rfl, .inr ⟨least, by rw [sign]; rfl⟩⟩
      | conditional test =>
          obtain ⟨token, rest, rfl, begins⟩ := test.exists_first
          have loose : level ≤ 12 := Nat.le_trans least (Nat.zero_le 12)
          exact ⟨token, _, rfl, begins.imp_right fun ⟨_, sign⟩ => ⟨loose, sign⟩⟩
      | sequence enclosed =>
          cases enclosed with
          | between opening _ _ => exact ⟨_, _, rfl, .inl (by rw [opening]; rfl)⟩
      | call kind _ _ => exact ⟨_, _, rfl, .inl (by rw [kind]; rfl)⟩
      | member object =>
          obtain ⟨token, rest, rfl, begins⟩ := object.exists_first
          exact ⟨token, _, rfl, begins.imp_right (by omega)⟩
      | method object =>
          obtain ⟨token, rest, rfl, begins⟩ := object.exists_first
          exact ⟨token, _, rfl, begins.imp_right (by omega)⟩
      | index object =>
          obtain ⟨token, rest, rfl, begins⟩ := object.exists_first
          exact ⟨token, _, rfl, begins.imp_right (by omega)⟩

end Expr

/-! ## Everything can be written -/

/-- A kind of token that writes a binary operator. -/
def BinaryOperator.sign : BinaryOperator → TokenKind
  | add => .mark .plus
  | subtract => .mark .minus
  | multiply => .mark .star
  | divide => .mark .slash
  | power => .mark .caret
  | range => .mark .dotDot
  | modulo => .mark .percent
  | and => .keyword .kwAnd
  | or => .keyword .kwOr
  | xor => .keyword .kwXor
  | bitAnd => .mark .amp
  | bitOr => .mark .pipe
  | bitXor => .keyword .kwBxor
  | shiftLeft => .mark .shiftLeft
  | shiftRight => .mark .shiftRight
  | equal => .mark .equal
  | notEqual => .mark .notEqual
  | less => .mark .less
  | lessEqual => .mark .lessEqual
  | greater => .mark .greater
  | greaterEqual => .mark .greaterEqual

/-- The sign of a binary operator writes it. -/
theorem BinaryOperator.binaryOperator?_sign (operator : BinaryOperator) :
    operator.sign.binaryOperator? = some operator := by
  cases operator <;> rfl

/-- A kind of token that writes an operator in front of an operand. -/
def UnaryOperator.sign : UnaryOperator → TokenKind
  | plus => .mark .plus
  | minus => .mark .minus
  | not => .mark .bang
  | bitNot => .mark .tilde
  | increment => .mark .plusPlus
  | decrement => .mark .minusMinus

/-- And so does the sign of an operator in front of an operand. -/
theorem UnaryOperator.unaryOperator?_sign (operator : UnaryOperator) :
    operator.sign.unaryOperator? = some operator := by
  cases operator <;> rfl

theorem Text.ofBytes_bytes (text : String) : ofBytes (bytes text) = text := by
  have valid : (ByteArray.mk (bytes text).toArray).IsValidUTF8 := by
    simpa [bytes] using text.isValidUTF8
  rw [ofBytes, String.fromUTF8?, dif_pos valid]
  simp [bytes, String.fromUTF8]

/-- A token of a kind that stands nowhere. -/
def Token.plain (kind : TokenKind) (text : String) : Token :=
  ⟨kind, Text.bytes text, .null⟩

theorem Token.text_plain (kind : TokenKind) (label : String) :
    (Token.plain kind label).text = label :=
  Text.ofBytes_bytes label

namespace Expr

mutual

/-- An expression is made of the constructs that have a place among the levels, and there are
literals for its numbers and texts. -/
def Writable : Expr → Prop
  | number _ value => ∃ token : Token, token.kind = .number ∧ Decimal.read? token.text = some value
  | text _ value => ∃ token : Token, token.kind = .text ∧ token.content = value
  | bool _ _ | none _ | name _ _ => True
  | binary _ left _ right => left.Writable ∧ right.Writable
  | unary _ _ operand => operand.Writable
  | conditional _ test consequent alternate =>
      test.Writable ∧ consequent.Writable ∧ alternate.Writable
  | sequence _ items => WritableAll items
  | call _ _ _ arguments => WritableAll arguments
  | member _ object _ _ => object.Writable
  | method _ object _ _ _ arguments => object.Writable ∧ WritableAll arguments
  | index _ object key => object.Writable ∧ key.Writable
  | absent _ | await _ _ | delete _ _ _ | construct _ _ _ _ _ => False

/-- All of some expressions are writable. -/
def WritableAll : List Expr → Prop
  | [] => True
  | expr :: rest => expr.Writable ∧ WritableAll rest

end

/-- With parentheses around it, an expression is as tight as required. -/
theorem Shape.exists_written {expr : Expr} {tokens : List Token} (shape : Shape expr tokens)
    (level : Nat) : ∃ tokens, Written level expr tokens :=
  ⟨Token.plain (.mark .leftParen) "(" :: tokens ++ [Token.plain (.mark .rightParen) ")"],
    .parenthesised rfl (.bare (Nat.zero_le _) shape) rfl⟩

/-- Any two marks may be put around items. -/
theorem Items.exists_enclosed {items : List Expr} {tokens : List Token}
    (written : Items items tokens) (left right : Mark) :
    ∃ tokens, Enclosed left right items tokens :=
  ⟨Token.plain (.mark left) left.spelling :: tokens ++
    [Token.plain (.mark right) right.spelling], .between rfl written rfl⟩

mutual

/-- Every writable expression has a way to be written, by induction on it. -/
theorem Writable.exists_shape : ∀ expr : Expr, expr.Writable → ∃ tokens, Shape expr tokens
  | number _ _, ⟨token, kind, value⟩ => ⟨[token], .number kind value⟩
  | text _ _, ⟨token, kind, content⟩ => ⟨[token], .text kind content⟩
  | bool _ true, _ => ⟨[Token.plain (.keyword .kwTrue) "true"], .bool rfl⟩
  | bool _ false, _ => ⟨[Token.plain (.keyword .kwFalse) "false"], .bool rfl⟩
  | none _, _ => ⟨[Token.plain (.keyword .kwNone) "None"], .none rfl⟩
  | name _ label, _ => ⟨[Token.plain .name label], .name rfl (Token.text_plain .name label)⟩
  | binary _ left operator right, ⟨leftWritable, rightWritable⟩ => by
      obtain ⟨_, leftShape⟩ := Writable.exists_shape left leftWritable
      obtain ⟨_, rightShape⟩ := Writable.exists_shape right rightWritable
      by_cases power : operator = .power
      · subst power
        obtain ⟨base, baseWritten⟩ := leftShape.exists_written 14
        obtain ⟨exponent, exponentWritten⟩ := rightShape.exists_written 12
        exact ⟨base ++ Token.plain (.mark .caret) "^" :: exponent,
          .power baseWritten rfl exponentWritten⟩
      · obtain ⟨leftTokens, leftWritten⟩ := leftShape.exists_written operator.tightness
        obtain ⟨rightTokens, rightWritten⟩ := rightShape.exists_written (operator.tightness + 1)
        exact ⟨leftTokens ++ Token.plain operator.sign operator.symbol :: rightTokens,
          .binary power leftWritten operator.binaryOperator?_sign rightWritten⟩
  | unary _ operator operand, writable => by
      obtain ⟨_, shape⟩ := Writable.exists_shape operand writable
      obtain ⟨tokens, written⟩ := shape.exists_written 12
      exact ⟨Token.plain operator.sign operator.symbol :: tokens,
        .unary operator.unaryOperator?_sign written⟩
  | conditional _ test consequent alternate, ⟨first, second, third⟩ => by
      obtain ⟨_, testShape⟩ := Writable.exists_shape test first
      obtain ⟨testTokens, testWritten⟩ := testShape.exists_written 1
      obtain ⟨consequentTokens, consequentShape⟩ := Writable.exists_shape consequent second
      obtain ⟨alternateTokens, alternateShape⟩ := Writable.exists_shape alternate third
      exact ⟨testTokens ++ Token.plain (.mark .question) "?" :: consequentTokens ++
        Token.plain (.mark .colon) ":" :: alternateTokens,
        .conditional testWritten rfl (.bare (Nat.zero_le _) consequentShape) rfl
          (.bare (Nat.zero_le _) alternateShape)⟩
  | sequence _ items, writable => by
      obtain ⟨_, written⟩ := WritableAll.exists_items items writable
      obtain ⟨tokens, enclosed⟩ := written.exists_enclosed .leftBracket .rightBracket
      exact ⟨tokens, .sequence enclosed⟩
  | call _ callee _ arguments, writable => by
      obtain ⟨_, written⟩ := WritableAll.exists_items arguments writable
      obtain ⟨tokens, enclosed⟩ := written.exists_enclosed .leftParen .rightParen
      exact ⟨Token.plain .name callee :: tokens,
        .call rfl (Token.text_plain .name callee) enclosed⟩
  | member _ object _ label, writable => by
      obtain ⟨_, shape⟩ := Writable.exists_shape object writable
      obtain ⟨tokens, written⟩ := shape.exists_written 14
      exact ⟨tokens ++ [Token.plain (.mark .dot) ".", Token.plain .name label],
        .member written rfl rfl (Token.text_plain .name label)⟩
  | method _ object _ callee _ arguments, ⟨objectWritable, argumentsWritable⟩ => by
      obtain ⟨_, shape⟩ := Writable.exists_shape object objectWritable
      obtain ⟨tokens, written⟩ := shape.exists_written 14
      obtain ⟨_, items⟩ := WritableAll.exists_items arguments argumentsWritable
      obtain ⟨argumentTokens, enclosed⟩ := items.exists_enclosed .leftParen .rightParen
      exact ⟨tokens ++ Token.plain (.mark .dot) "." :: Token.plain .name callee :: argumentTokens,
        .method written rfl rfl (Token.text_plain .name callee) enclosed⟩
  | index _ object key, ⟨objectWritable, keyWritable⟩ => by
      obtain ⟨_, shape⟩ := Writable.exists_shape object objectWritable
      obtain ⟨tokens, written⟩ := shape.exists_written 14
      obtain ⟨keyTokens, keyShape⟩ := Writable.exists_shape key keyWritable
      exact ⟨tokens ++ Token.plain (.mark .leftBracket) "[" :: keyTokens ++
        [Token.plain (.mark .rightBracket) "]"],
        .index written rfl (.bare (Nat.zero_le _) keyShape) rfl⟩

/-- And so do all items of a list. -/
theorem WritableAll.exists_items : ∀ items : List Expr, WritableAll items →
    ∃ tokens, Items items tokens
  | [], _ => ⟨[], .nil⟩
  | item :: items, ⟨first, others⟩ => by
      obtain ⟨tokens, shape⟩ := Writable.exists_shape item first
      obtain ⟨rest, written⟩ := WritableAll.exists_items items others
      exact ⟨tokens ++ Token.plain (.mark .comma) "," :: rest,
        .cons (.bare (Nat.zero_le _) shape) rfl written⟩

end

end Expr

end ScopeScript
