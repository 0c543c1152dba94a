import ScopeScript.Proofs.Decimal.ReadingBack
import ScopeScript.Proofs.Parser.Regrouping
import ScopeScript.Proofs.Parser.Rendering
import ScopeScript.Proofs.Text.Unquoting

/-!
# Recovering expressions from rendered forms

The parser cannot tell every expression from its rendered form: it takes a power of an awaited
value for an awaited power. But rendering puts every operation in parentheses of its own, so no
precedence is needed to read it: a reader takes one word after the other and keeps a stack of the
nodes that are not complete (`Reader.take?`). An access behind an `await` is the one thing it cannot
place, and it places all of them under the `await`. The words of a rendered form lead it to the
regrouped expression, whatever nodes are open around it (`Recovered`). Therefore two expressions
with one rendered form are the same up to the spans and the accesses to awaited values
(`rendering_determines_regrouped`).
-/

namespace ScopeScript

open Token

namespace Recovery

/-- The kind of a token and its text. -/
abbrev Word := TokenKind × List UInt8

/-- A node of which some words are read. -/
inductive Opened
  | operation
  | unary (operator : UnaryOperator)
  | binary (left : Expr) (operator : BinaryOperator)
  | consequent (test : Expr)
  | alternate (test consequent : Expr)
  | list (node : List Expr → Expr) (items : List Expr)
  | key (object : Expr)
  | await (span : Span)

/-- What is read of a rendered form: the nodes that are not complete, the innermost one first, and
where it stands in that one. It is in front of an expression, in front of a name, or behind an
expression with which the next word may go on. -/
inductive Reader
  | due (opened : List Opened)
  | labelDue (node : String → Expr) (opened : List Opened)
  | behind (expr : Expr) (opened : List Opened)

/-- Take a word in front of an expression: its first word, an operator in front of an operand, or
the mark that closes a list. -/
def start? (opened : List Opened) : Word → Option Reader
  | (.number, lexeme) =>
      (Decimal.read? (Text.ofBytes lexeme)).map fun value => .behind (.number .null value) opened
  | (.text, lexeme) => some (.behind (.text .null (Text.unquoted (Text.ofBytes lexeme))) opened)
  | (.name, lexeme) => some (.behind (.name .null (Text.ofBytes lexeme)) opened)
  | (.keyword .kwTrue, _) => some (.behind (.bool .null true) opened)
  | (.keyword .kwFalse, _) => some (.behind (.bool .null false) opened)
  | (.keyword .kwNone, _) => some (.behind (.none .null) opened)
  | (.keyword .kwAwait, _) => some (.due (.await .null :: opened))
  | (.keyword .kwDelete, _) => some (.labelDue (.delete .null .null) opened)
  | (.keyword .kwNew, _) =>
      some (.labelDue (fun callee => .construct .null .null callee .null []) opened)
  | (.mark .leftParen, _) => some (.due (.operation :: opened))
  | (.mark .leftBracket, _) => some (.due (.list (.sequence .null) [] :: opened))
  | (kind, _) =>
      match opened with
      | .operation :: outer =>
          kind.unaryOperator?.map fun operator => .due (.unary operator :: outer)
      | .list node items :: outer => some (.behind (node items) outer)
      | _ => none

/-- What arguments make of the expression in front of them. -/
def called? : Expr → Option (List Expr → Expr)
  | .name _ callee => some (.call .null callee .null)
  | .member _ object _ callee => some (.method .null object .null callee .null)
  | .construct _ _ callee _ _ => some (.construct .null .null callee .null)
  | _ => none

/-- Take a word behind an expression that does not go on with it. The expression is complete then,
and so are the nodes that end with it. -/
def finish? : Expr → List Opened → TokenKind → Option Reader
  | expr, .await span :: outer, kind => finish? (.await span expr) outer kind
  | expr, .operation :: outer, kind =>
      if kind = .mark .question then some (.due (.consequent expr :: outer))
      else kind.binaryOperator?.map fun operator => .due (.binary expr operator :: outer)
  | expr, .consequent test :: outer, _ => some (.due (.alternate test expr :: outer))
  | expr, .unary operator :: outer, _ => some (.behind (.unary .null operator expr) outer)
  | expr, .binary left operator :: outer, _ =>
      some (.behind (.binary .null left operator expr) outer)
  | expr, .alternate test consequent :: outer, _ =>
      some (.behind (.conditional .null test consequent expr) outer)
  | expr, .list node items :: outer, kind =>
      if kind = .mark .comma then some (.due (.list node (items ++ [expr]) :: outer))
      else some (.behind (node (items ++ [expr])) outer)
  | expr, .key object :: outer, _ => some (.behind (.index .null object expr) outer)
  | _, [], _ => none

/-- Take the next word of a rendered form. -/
def Reader.take? : Reader → Word → Option Reader
  | .due opened, word => start? opened word
  | .labelDue node opened, (_, label) => some (.behind (node (Text.ofBytes label)) opened)
  | .behind expr opened, (.mark .dot, _) => some (.labelDue (.member .null expr .null) opened)
  | .behind expr opened, (.mark .leftBracket, _) => some (.due (.key expr :: opened))
  | .behind expr opened, (.mark .leftParen, _) =>
      (called? expr).map fun node => .due (.list node [] :: opened)
  | .behind expr opened, (kind, _) => finish? expr opened kind

/-- A reader behind an expression. What is awaited may have accesses behind it, so an `await` is
not complete there. -/
def Reader.after : Expr → List Opened → Reader
  | .await span operand, opened => Reader.after operand (.await span :: opened)
  | expr, opened => .behind expr opened

/-- Only an `await` is left open behind an expression. -/
theorem after_of_not_await {expr : Expr} (notAwait : expr.isAwait = false)
    (opened : List Opened) : Reader.after expr opened = .behind expr opened := by
  fun_cases Reader.after expr opened with
  | case1 => cases notAwait
  | case2 => rfl

/-- Whether a kind of word goes on with an expression in front of it. -/
def goesOn : TokenKind → Bool
  | .mark .dot | .mark .leftParen | .mark .leftBracket => true
  | _ => false

/-- No binary operator goes on with the expression in front of it. -/
theorem goesOn_sign (operator : BinaryOperator) : goesOn operator.sign = false := by
  cases operator <;> rfl

theorem sign_ne_question (operator : BinaryOperator) : operator.sign ≠ .mark .question := by
  cases operator <;> decide

/-- A word that does not go on with an expression completes it, and every `await` in it. -/
theorem take?_after {kind : TokenKind} (ends : ¬goesOn kind) (lexeme : List UInt8)
    (expr : Expr) (opened : List Opened) :
    (Reader.after expr opened).take? (kind, lexeme) = finish? expr opened kind := by
  fun_induction Reader.after expr opened with
  | case1 opened span operand inductionHypothesis => rw [inductionHypothesis, finish?]
  | case2 opened expr =>
      rw [Reader.take?]
      all_goals
        rintro rfl
        exact ends rfl

/-- An access that is read behind every object is read under every `await`. -/
theorem foldlM_after_underAwaits {access : Expr → Expr} {words : List Word}
    (notAwait : ∀ object, (access object).isAwait = false)
    (reads : ∀ object opened, words.foldlM Reader.take? (.behind object opened) =
      some (.behind (access object) opened))
    (expr : Expr) (opened : List Opened) :
    words.foldlM Reader.take? (.after expr opened) =
      some (.after (expr.underAwaits access) opened) := by
  fun_induction Expr.underAwaits access expr generalizing opened with
  | case1 span operand inductionHypothesis => exact inductionHypothesis _
  | case2 object notAwaited =>
      rw [after_of_not_await (notAwait object), Reader.after.eq_2 object opened notAwaited,
        reads object]

end Recovery

namespace Expr

open Recovery

/-- The rendered form of an expression is scanned into words that lead to the regrouped
expression, wherever one is due. -/
structure Recovered (expr : Expr) (words : List Word) : Prop where
  worded : Worded (Text.bytes expr.render) words
  recovers : ∀ opened, words.foldlM Reader.take? (.due opened) =
    some (.after expr.unplaced.regrouped opened)

/-- The rendered forms of some expressions with commas between them are scanned into words that
lead, up to a closing mark, to a node with the regrouped expressions. -/
structure RecoveredAll (items : List Expr) (words : List Word) : Prop where
  worded : WordedAll items words
  recovers : ∀ node read close lexeme opened, close = Mark.rightParen ∨ close = Mark.rightBracket →
    (words ++ [(TokenKind.mark close, lexeme)]).foldlM Reader.take?
      (.due (.list node read :: opened)) =
        some (.behind (node (read ++ regroupedAll (items.map unplaced))) opened)

/-! ## Literals and names -/

/-- An expression of one word. -/
theorem recovered_word {expr : Expr} {word : Word}
    (worded : Worded (Text.bytes expr.render) [word])
    (notAwait : expr.unplaced.regrouped.isAwait = false)
    (starts : ∀ opened, start? opened word = some (.behind expr.unplaced.regrouped opened)) :
    ∃ words, Recovered expr words := by
  refine ⟨_, worded, fun opened => ?_⟩
  rw [List.foldlM_cons, Reader.take?, starts, after_of_not_await notAwait]
  rfl

/-- A number is read back by its digits. -/
theorem recovered_number {span : Span} {value : Float} {mantissa : Nat} {exponent : Int}
    (taken : Binary64.ofFloat value = .finite false mantissa exponent) :
    ∃ words, Recovered (.number span value) words := by
  refine recovered_word (worded_number (isDecimal_format taken)) rfl fun opened => ?_
  rw [start?, Text.ofBytes_bytes, Decimal.read?_format taken]
  rfl

/-- A text is read back by its escapes. -/
theorem recovered_text (span : Span) (value : String) :
    ∃ words, Recovered (.text span value) words := by
  refine recovered_word (worded_text value) rfl fun opened => ?_
  rw [start?, Text.ofBytes_bytes, Text.unquoted_quoted]
  rfl

theorem recovered_bool (span : Span) (value : Bool) :
    ∃ words, Recovered (.bool span value) words := by
  cases value with
  | true => exact recovered_word (.keyword .kwTrue) rfl fun opened => rfl
  | false => exact recovered_word (.keyword .kwFalse) rfl fun opened => rfl

theorem recovered_none (span : Span) : ∃ words, Recovered (.none span) words :=
  recovered_word (.keyword .kwNone) rfl fun _ => rfl

theorem recovered_name {span : Span} {label : String} (isName : IsName (Text.bytes label)) :
    ∃ words, Recovered (.name span label) words := by
  refine recovered_word (worded_name isName) rfl fun opened => ?_
  rw [start?, Text.ofBytes_bytes]
  rfl

theorem recovered_delete {span nameSpan : Span} {label : String}
    (isName : IsName (Text.bytes label)) :
    ∃ words, Recovered (.delete span nameSpan label) words := by
  refine ⟨_, worded_delete isName, fun opened => ?_⟩
  simp [Reader.take?, start?, Text.ofBytes_bytes, unplaced, mapSpans, regrouped, Reader.after]

/-! ## Operations -/

/-- An expression in parentheses. -/
theorem recovered_between {expr : Expr} {words : List Word}
    (worded : Worded (Text.bytes expr.render) (between .leftParen .rightParen words))
    (notAwait : expr.unplaced.regrouped.isAwait = false)
    (reads : ∀ lexeme opened,
      (words ++ [(TokenKind.mark .rightParen, lexeme)]).foldlM Reader.take?
        (.due (.operation :: opened)) = some (.behind expr.unplaced.regrouped opened)) :
    ∃ words, Recovered expr words := by
  refine ⟨_, worded, fun opened => ?_⟩
  rw [between, List.append_assoc, List.singleton_append, List.foldlM_cons,
    after_of_not_await notAwait]
  exact reads _ opened

/-- The two operands are read one after the other in the parentheses of the operation, whose
operator is told by its sign. -/
theorem recovered_binary {span : Span} {left right : Expr} {operator : BinaryOperator}
    {leftWords rightWords : List Word} (leftRecovered : Recovered left leftWords)
    (rightRecovered : Recovered right rightWords) :
    ∃ words, Recovered (.binary span left operator right) words := by
  obtain ⟨lexeme, worded⟩ := worded_binary operator leftRecovered.worded rightRecovered.worded
  refine recovered_between worded rfl fun closing opened => ?_
  have behindLeft :
      (Reader.after left.unplaced.regrouped (.operation :: opened)).take? (operator.sign, lexeme) =
        some (.due (.binary left.unplaced.regrouped operator :: opened)) := by
    rw [take?_after (by simp [goesOn_sign]), finish?, if_neg (sign_ne_question operator),
      operator.binaryOperator?_sign]
    rfl
  simp [List.foldlM_append, leftRecovered.recovers, behindLeft, rightRecovered.recovers,
    take?_after, goesOn, finish?, regrouped]

/-- The operand is read behind its operator. -/
theorem recovered_unary {span : Span} {operator : UnaryOperator} {operand : Expr}
    {words : List Word} (recovered : Recovered operand words) :
    ∃ words, Recovered (.unary span operator operand) words := by
  obtain ⟨lexeme, worded⟩ := worded_unary operator recovered.worded
  refine recovered_between worded rfl fun closing opened => ?_
  have begun : (Reader.due (.operation :: opened)).take? (operator.sign, lexeme) =
      some (.due (.unary operator :: opened)) := by
    cases operator <;> rfl
  simp [begun, recovered.recovers, take?_after, goesOn, finish?, regrouped]

/-- The three parts of a condition are read one after the other. -/
theorem recovered_conditional {span : Span} {test consequent alternate : Expr}
    {testWords consequentWords alternateWords : List Word}
    (testRecovered : Recovered test testWords)
    (consequentRecovered : Recovered consequent consequentWords)
    (alternateRecovered : Recovered alternate alternateWords) :
    ∃ words, Recovered (.conditional span test consequent alternate) words := by
  refine recovered_between (worded_conditional testRecovered.worded consequentRecovered.worded
    alternateRecovered.worded) rfl fun closing opened => ?_
  simp [List.foldlM_append, testRecovered.recovers, consequentRecovered.recovers,
    alternateRecovered.recovers, take?_after, goesOn, finish?, regrouped]

/-- An `await` stays open behind what is awaited, as accesses may follow. -/
theorem recovered_await {span : Span} {operand : Expr} {words : List Word}
    (recovered : Recovered operand words) :
    ∃ words, Recovered (.await span operand) words := by
  refine ⟨_, worded_await recovered.worded, fun opened => ?_⟩
  rw [List.foldlM_cons, unplaced_await, regrouped, Reader.after]
  exact recovered.recovers _

/-! ## Lists -/

theorem recoveredAll_nil : RecoveredAll [] [] := by
  refine ⟨.nil, fun node read close lexeme opened closes => ?_⟩
  rw [List.map_nil, regroupedAll, List.append_nil]
  rcases closes with rfl | rfl <;> rfl

/-- One more item in front of a list, behind which a comma stands or nothing. -/
theorem recoveredAll_cons {item : Expr} {items : List Expr} {words itemsWords : List Word}
    (recovered : Recovered item words) (recoveredItems : RecoveredAll items itemsWords) :
    ∃ words, RecoveredAll (item :: items) words := by
  cases items with
  | nil =>
      refine ⟨words, .single recovered.worded, fun node read close lexeme opened closes => ?_⟩
      rcases closes with rfl | rfl <;>
        simp [recovered.recovers, take?_after, goesOn, finish?, regroupedAll]
  | cons next items =>
      refine ⟨_, .cons recovered.worded (by simp) recoveredItems.worded,
        fun node read close lexeme opened closes => ?_⟩
      have others := recoveredItems.recovers node (read ++ [item.unplaced.regrouped]) close lexeme
        opened closes
      rw [List.append_assoc, List.append_assoc, List.singleton_append, List.foldlM_append,
        recovered.recovers]
      have behindComma : (Reader.after item.unplaced.regrouped (.list node read :: opened)).take?
          (.mark .comma, Text.bytes Mark.comma.spelling) =
            some (.due (.list node (read ++ [item.unplaced.regrouped]) :: opened)) := by
        rw [take?_after (by decide), finish?, if_pos rfl]
      simp only [Option.bind_eq_bind, Option.bind_some, List.foldlM_cons, behindComma]
      exact others.trans (by simp [regroupedAll])

/-- A sequence is read item by item. -/
theorem recovered_sequence {span : Span} {items : List Expr} {words : List Word}
    (recovered : RecoveredAll items words) :
    ∃ words, Recovered (.sequence span items) words := by
  refine ⟨_, worded_sequence recovered.worded, fun opened => ?_⟩
  rw [between, List.append_assoc, List.singleton_append, List.foldlM_cons, unplaced_sequence]
  exact recovered.recovers _ [] _ _ opened (.inr rfl)

/-- Arguments are read behind the expression that takes them. -/
theorem RecoveredAll.arguments {arguments : List Expr} {words : List Word}
    (recovered : RecoveredAll arguments words) (expr : Expr) {node : List Expr → Expr}
    (called : called? expr = some node) (opened : List Opened) :
    (between .leftParen .rightParen words).foldlM Reader.take? (.behind expr opened) =
      some (.behind (node (regroupedAll (arguments.map unplaced))) opened) := by
  rw [between, List.append_assoc, List.singleton_append, List.foldlM_cons, Reader.take?, called]
  exact recovered.recovers node [] _ _ opened (.inl rfl)

/-- A name in front of a parenthesis becomes a call when the arguments are read. -/
theorem recovered_call {span argumentsSpan : Span} {callee : String} {arguments : List Expr}
    {words : List Word} (isName : IsName (Text.bytes callee))
    (recovered : RecoveredAll arguments words) :
    ∃ words, Recovered (.call span callee argumentsSpan arguments) words := by
  refine ⟨_, worded_call isName recovered.worded, fun opened => ?_⟩
  rw [List.foldlM_cons, Reader.take?, start?, Text.ofBytes_bytes, unplaced_call]
  exact recovered.arguments (.name .null callee) rfl opened

/-- The arguments behind `new` are those of the construction. -/
theorem recovered_construct {span callSpan argumentsSpan : Span} {callee : String}
    {arguments : List Expr} {words : List Word} (isName : IsName (Text.bytes callee))
    (recovered : RecoveredAll arguments words) :
    ∃ words, Recovered (.construct span callSpan callee argumentsSpan arguments) words := by
  refine ⟨_, worded_construct isName recovered.worded, fun opened => ?_⟩
  rw [List.foldlM_cons, Reader.take?, start?, Option.bind_eq_bind, Option.bind_some,
    List.foldlM_cons, Reader.take?, Text.ofBytes_bytes, unplaced_construct]
  exact recovered.arguments (.construct .null .null callee .null []) rfl opened

/-! ## Accesses to objects -/

/-- A name behind a dot is a member of what stands in front, or of what is awaited there. -/
theorem recovered_member {span nameSpan : Span} {object : Expr} {label : String} {words : List Word}
    (isWord : IsWord (Text.bytes label)) (recovered : Recovered object words) :
    ∃ words, Recovered (.member span object nameSpan label) words := by
  refine ⟨_, worded_member recovered.worded isWord, fun opened => ?_⟩
  rw [List.foldlM_append, recovered.recovers, unplaced_member, regrouped]
  refine foldlM_after_underAwaits (fun _ => rfl) (fun object opened => ?_) _ _
  simp [Reader.take?, Text.ofBytes_bytes]

/-- Arguments behind a member call it. -/
theorem recovered_method {span callSpan argumentsSpan : Span} {object : Expr} {callee : String}
    {arguments : List Expr} {objectWords words : List Word} (isWord : IsWord (Text.bytes callee))
    (objectRecovered : Recovered object objectWords) (recovered : RecoveredAll arguments words) :
    ∃ words, Recovered (.method span object callSpan callee argumentsSpan arguments) words := by
  refine ⟨_, worded_method objectRecovered.worded isWord recovered.worded, fun opened => ?_⟩
  rw [List.append_assoc, List.foldlM_append, objectRecovered.recovers, unplaced_method, regrouped]
  refine foldlM_after_underAwaits (fun _ => rfl) (fun object opened => ?_) _ _
  rw [List.cons_append, List.cons_append, List.foldlM_cons, Reader.take?, Option.bind_eq_bind,
    Option.bind_some, List.foldlM_cons, Reader.take?, Text.ofBytes_bytes]
  exact recovered.arguments (.member .null object .null callee) rfl opened

/-- A key behind an object is one of what stands in front, or of what is awaited there. -/
theorem recovered_index {span : Span} {object key : Expr} {objectWords keyWords : List Word}
    (objectRecovered : Recovered object objectWords) (keyRecovered : Recovered key keyWords) :
    ∃ words, Recovered (.index span object key) words := by
  refine ⟨_, worded_index objectRecovered.worded keyRecovered.worded, fun opened => ?_⟩
  rw [List.foldlM_append, objectRecovered.recovers, unplaced_index, regrouped]
  refine foldlM_after_underAwaits (fun _ => rfl) (fun object opened => ?_) _ _
  have opens (lexeme : List UInt8) : (Reader.behind object opened).take?
      (.mark .leftBracket, lexeme) = some (.due (.key object :: opened)) := rfl
  simp [between, opens, keyRecovered.recovers, take?_after, goesOn, finish?]

/-! ## All expressions -/

mutual

/-- The regrouped expression is read from the rendered form of an expression with proper nodes. -/
theorem exists_recovered : ∀ expr : Expr, (∀ node ∈ expr.nodes, node.Proper) →
    ∃ words, Recovered expr words
  | number _ _, proper => by
      obtain ⟨_, _, taken⟩ := proper _ List.mem_cons_self
      exact recovered_number taken
  | text span value, _ => recovered_text span value
  | bool span value, _ => recovered_bool span value
  | none span, _ => recovered_none span
  | absent _, proper => (proper _ List.mem_cons_self).elim
  | name _ _, proper => recovered_name (proper _ List.mem_cons_self)
  | delete _ _ _, proper => recovered_delete (proper _ List.mem_cons_self)
  | binary _ left _ right, proper => by
      rw [nodes, List.forall_mem_cons, List.forall_mem_append] at proper
      obtain ⟨_, leftRecovered⟩ := exists_recovered left proper.2.1
      obtain ⟨_, rightRecovered⟩ := exists_recovered right proper.2.2
      exact recovered_binary leftRecovered rightRecovered
  | unary _ _ operand, proper => by
      rw [nodes, List.forall_mem_cons] at proper
      obtain ⟨_, recovered⟩ := exists_recovered operand proper.2
      exact recovered_unary recovered
  | conditional _ test consequent alternate, proper => by
      rw [nodes, List.forall_mem_cons, List.forall_mem_append, List.forall_mem_append] at proper
      obtain ⟨_, testRecovered⟩ := exists_recovered test proper.2.1.1
      obtain ⟨_, consequentRecovered⟩ := exists_recovered consequent proper.2.1.2
      obtain ⟨_, alternateRecovered⟩ := exists_recovered alternate proper.2.2
      exact recovered_conditional testRecovered consequentRecovered alternateRecovered
  | sequence _ items, proper => by
      rw [nodes, List.forall_mem_cons] at proper
      obtain ⟨_, recovered⟩ := exists_recoveredAll items proper.2
      exact recovered_sequence recovered
  | call _ _ _ arguments, proper => by
      rw [nodes, List.forall_mem_cons] at proper
      obtain ⟨_, recovered⟩ := exists_recoveredAll arguments proper.2
      exact recovered_call proper.1 recovered
  | construct _ _ _ _ arguments, proper => by
      rw [nodes, List.forall_mem_cons] at proper
      obtain ⟨_, recovered⟩ := exists_recoveredAll arguments proper.2
      exact recovered_construct proper.1 recovered
  | await _ operand, proper => by
      rw [nodes, List.forall_mem_cons] at proper
      obtain ⟨_, recovered⟩ := exists_recovered operand proper.2
      exact recovered_await recovered
  | member _ object _ _, proper => by
      rw [nodes, List.forall_mem_cons] at proper
      obtain ⟨_, recovered⟩ := exists_recovered object proper.2
      exact recovered_member proper.1 recovered
  | method _ object _ _ _ arguments, proper => by
      rw [nodes, List.forall_mem_cons, List.forall_mem_append] at proper
      obtain ⟨_, objectRecovered⟩ := exists_recovered object proper.2.1
      obtain ⟨_, recovered⟩ := exists_recoveredAll arguments proper.2.2
      exact recovered_method proper.1 objectRecovered recovered
  | index _ object key, proper => by
      rw [nodes, List.forall_mem_cons, List.forall_mem_append] at proper
      obtain ⟨_, objectRecovered⟩ := exists_recovered object proper.2.1
      obtain ⟨_, keyRecovered⟩ := exists_recovered key proper.2.2
      exact recovered_index objectRecovered keyRecovered

/-- All items of proper lists are read back. -/
theorem exists_recoveredAll : ∀ items : List Expr, (∀ node ∈ nodesAll items, node.Proper) →
    ∃ words, RecoveredAll items words
  | [], _ => ⟨[], recoveredAll_nil⟩
  | item :: items, proper => by
      rw [nodesAll, List.forall_mem_append] at proper
      obtain ⟨_, recovered⟩ := exists_recovered item proper.1
      obtain ⟨_, recoveredItems⟩ := exists_recoveredAll items proper.2
      exact recoveredAll_cons recovered recoveredItems

end

/-- Expressions with the same rendered form are the same when they are regrouped. -/
theorem regrouped_eq_of_render {expr twin : Expr} (proper : ∀ node ∈ expr.nodes, node.Proper)
    (properTwin : ∀ node ∈ twin.nodes, node.Proper) (same : expr.render = twin.render) :
    expr.unplaced.regrouped = twin.unplaced.regrouped := by
  obtain ⟨words, recovered⟩ := exists_recovered expr proper
  obtain ⟨twinWords, twinRecovered⟩ := exists_recovered twin properTwin
  have sameWords : words = twinWords := by
    rw [← (recovered.worded.spells.scanWith apart_nil).1,
      ← (twinRecovered.worded.spells.scanWith apart_nil).1, same]
  subst sameWords
  -- A node around the expression tells when it is complete.
  have read := (recovered.recovers [.operation]).symm.trans (twinRecovered.recovers [.operation])
  have finished := congrArg (·.take? (.mark .question, [])) (Option.some.inj read)
  simpa [take?_after, goesOn, finish?] using finished

/-- Two expressions that were read have the same rendered form exactly if they are the same up to
the spans and the side of an `await` on which the accesses stand. If neither accesses an awaited
value, the rendered form determines the expression. -/
theorem rendering_determines_regrouped {source other : String} {expr twin : Expr}
    (parsed : Expr.parse source = .ok expr) (parsedTwin : Expr.parse other = .ok twin) :
    (expr.render = twin.render ↔ expr.unplaced.regrouped = twin.unplaced.regrouped) ∧
      ((∀ node ∈ expr.nodes ++ twin.nodes, node.accessesAwait = false) →
        expr.render = twin.render → expr.unplaced = twin.unplaced) := by
  have regroups : expr.render = twin.render → expr.unplaced.regrouped = twin.unplaced.regrouped :=
    regrouped_eq_of_render (proper_of_parse parsed) (proper_of_parse parsedTwin)
  refine ⟨⟨regroups, fun same => ?_⟩, fun covered same => ?_⟩
  · calc expr.render = expr.unplaced.regrouped.render := by
          rw [render_regrouped, unplaced, render_mapSpans]
      _ = twin.unplaced.regrouped.render := by rw [same]
      _ = twin.render := by rw [render_regrouped, unplaced, render_mapSpans]
  · rw [List.forall_mem_append] at covered
    rw [← regrouped_unplaced expr covered.1, ← regrouped_unplaced twin covered.2, regroups same]

theorem exists_parsed (source other : String) (holds : Expr → Expr → Bool)
    (checked : (match Expr.parse source, Expr.parse other with
      | .ok expr, .ok twin => holds expr twin
      | _, _ => false) = true) :
    ∃ expr twin, Expr.parse source = .ok expr ∧ Expr.parse other = .ok twin ∧
      holds expr twin = true := by
  split at checked
  · next expr twin parsed parsedTwin => exact ⟨expr, twin, parsed, parsedTwin, checked⟩
  · cases checked

/-- Blanks, parentheses and a product that is not written out do not show in the rendered form. -/
theorem awaited_call_is_determined :
    ∃ expr twin, Expr.parse "f(await (g.h(2x)), -(new C())[0])" = .ok expr ∧
      Expr.parse "f( await g . h(2 * (x)) , (- (new C()) [ 0 ]) )" = .ok twin ∧
      expr.render = twin.render ∧ expr.unplaced = twin.unplaced := by
  obtain ⟨expr, twin, parsed, parsedTwin, checked⟩ := exists_parsed
    "f(await (g.h(2x)), -(new C())[0])" "f( await g . h(2 * (x)) , (- (new C()) [ 0 ]) )"
    (fun expr twin => expr.render == twin.render &&
      (expr.nodes ++ twin.nodes).all (!·.accessesAwait)) (by decide +kernel)
  simp only [Bool.and_eq_true, beq_iff_eq, List.all_eq_true, Bool.not_eq_true'] at checked
  exact ⟨expr, twin, parsed, parsedTwin, checked.1,
    (rendering_determines_regrouped parsed parsedTwin).2 checked.2 checked.1⟩

/-- A member of an awaited value is written like the awaited member. -/
theorem member_of_awaited_is_ambiguous :
    ∃ accessed awaited, Expr.parse "(await a).b" = .ok accessed ∧
      Expr.parse "await a.b" = .ok awaited ∧ accessed.render = awaited.render ∧
      accessed.unplaced ≠ awaited.unplaced := by
  obtain ⟨accessed, awaited, parsed, parsedAwaited, checked⟩ :=
    exists_parsed "(await a).b" "await a.b" (fun accessed awaited =>
      accessed.render == awaited.render && accessed.isAwait != awaited.isAwait) (by decide +kernel)
  simp only [Bool.and_eq_true, beq_iff_eq, bne_iff_ne] at checked
  refine ⟨accessed, awaited, parsed, parsedAwaited, checked.1, fun same => checked.2 ?_⟩
  rw [← isAwait_unplaced accessed, ← isAwait_unplaced awaited, same]

end Expr
end ScopeScript
