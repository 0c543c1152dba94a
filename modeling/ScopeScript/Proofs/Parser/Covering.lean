import ScopeScript.Proofs.Parser.Outline

/-!
# How tokens cover a tree

`Input.Covers first past parts` says that the tokens from position `first` up to `past` stand for
the outlines `parts` in their order: each token is a name, a literal or punctuation, and each node
starts with the first and ends with the last token of its own. A node without parentheses or a
keyword that belong to what surrounds it covers less than was read for it.

`Takes position parser Result` follows a parser from a position of an input to the next one. Every
production of expressions covers what it reads by what it makes of it.
-/

namespace ScopeScript

/-! ## Punctuation -/

/-- Whether a token of a kind is punctuation: neither a name or a literal, nor something that gives
the token behind it another role. -/
def TokenKind.isSilent : TokenKind → Bool
  | .mark .dot | .keyword .kwImport => false
  | .keyword .kwTrue | .keyword .kwFalse | .keyword .kwNone => false
  | .mark _ | .keyword _ => true
  | .name | .number | .text => false

namespace Token.Role

/-- Punctuation makes no leaf. -/
theorem leaf?_of_isSilent {token : Token} (silent : token.kind.isSilent = true) :
    leaf? .ordinary token = none := by
  unfold TokenKind.isSilent at silent
  unfold leaf?
  grind

/-- Punctuation leaves the token behind it in its ordinary role. -/
theorem next_of_isSilent {kind : TokenKind} (silent : kind.isSilent = true) :
    next .ordinary kind = .ordinary := by
  unfold TokenKind.isSilent at silent
  unfold next
  grind

end Token.Role

namespace Parser

/-! ## Positions -/

/-- The tokens of a source text, and where the text ends. -/
structure Input where
  tokens : List Token
  endSpan : Span

namespace Input

variable (input : Input)

/-- What is still to be read at a position. -/
def stream (position : Nat) : Stream where
  tokens := input.tokens.drop position
  previous? := (input.tokens.take position).getLast?.map Token.span
  endSpan := input.endSpan

/-- Where the token at a position stands. -/
def spanAt (position : Nat) : Span :=
  (input.tokens[position]?.map Token.span).getD input.endSpan

/-- The span of the tokens from one position up to another. -/
def cover (first past : Nat) : Span :=
  (input.spanAt first).extend (input.spanAt (past - 1))

/-- The tokens from one position up to another stand for outlines. -/
inductive Covers : Nat → Nat → List Outline → Prop
  | nil {position : Nat} : Covers position position []
  | token {first past : Nat} {token : Token} {others : List Outline} :
      input.tokens[first]? = some token →
      Token.Role.next .ordinary token.kind = .ordinary →
      Covers (first + 1) past others →
      Covers first past ((Token.Role.leaf? .ordinary token).toList.map .leaf ++ others)
  | node {first middle past : Nat} {parts others : List Outline} :
      first < middle →
      Covers first middle parts →
      Covers middle past others →
      Covers first past (.node (input.cover first middle) parts :: others)
  /-- Behind a dot stands the name of a member, and the arguments if it is called. -/
  | member {first middle past : Nat} {dot word : Token} {parts others : List Outline} :
      input.tokens[first]? = some dot → dot.kind = .mark .dot →
      input.tokens[first + 1]? = some word →
      Token.Role.leaf? .member word = some (.name word.text) →
      Covers (first + 2) middle parts →
      Covers middle past others →
      Covers first past
        (.node (input.cover (first + 1) middle) (.named word.text :: parts) :: others)
  /-- Behind the keyword of an import stands the file. -/
  | source {first past : Nat} {keyword file : Token} {label : String} {others : List Outline} :
      input.tokens[first]? = some keyword → keyword.kind = .keyword .kwImport →
      input.tokens[first + 1]? = some file →
      file.kind = .name ∨ file.kind = .text →
      Token.Role.leaf? .source file = some (.source label) →
      Covers (first + 2) past others →
      Covers first past (.leaf (.source label) :: others)
  /-- The initial value that is left out stands where the declaration without it stands. -/
  | blank {first past : Nat} {keyword name : Token} {others : List Outline} :
      input.tokens[first]? = some keyword → keyword.kind = .keyword .kwLet →
      input.tokens[first + 1]? = some name → name.kind = .name →
      Covers (first + 2) past others →
      Covers first past
        (.named name.text :: .blank (input.cover first (first + 2)) :: others)

variable {input} {first middle past : Nat} {parts others : List Outline}

@[simp] theorem cover_single (position : Nat) :
    input.cover position (position + 1) = input.spanAt position := by
  simp [cover]

namespace Covers

/-- Positions never go back. -/
theorem le (covers : input.Covers first past parts) : first ≤ past := by
  induction covers <;> omega

/-- Something is covered only by tokens. -/
theorem lt (covers : input.Covers first past parts) (something : parts ≠ []) : first < past := by
  cases covers with
  | nil => exact absurd rfl something
  | token _ _ rest => exact rest.le
  | node moved _ rest => exact Nat.lt_of_lt_of_le moved rest.le
  | member _ _ _ _ inner rest => have := inner.le; have := rest.le; omega
  | source _ _ _ _ _ rest | blank _ _ _ _ rest => have := rest.le; omega

/-- What covers something starts with a token. -/
theorem first_lt_length (covers : input.Covers first past parts) (moved : first < past) :
    first < input.tokens.length := by
  induction covers with
  | nil => exact absurd moved (Nat.lt_irrefl _)
  | node inside _ _ inductionHypothesis _ => exact inductionHypothesis inside
  | token found | member found | source found | blank found =>
      exact (List.getElem?_eq_some_iff.1 found).1

/-- What covers something ends at a token of the input. -/
theorem le_length (covers : input.Covers first past parts) (moved : first < past) :
    past ≤ input.tokens.length := by
  have inside := covers.first_lt_length moved
  replace inside : first ≤ input.tokens.length := Nat.le_of_lt inside
  clear moved
  have behind {position : Nat} {token : Token} (found : input.tokens[position]? = some token) :
      position + 1 ≤ input.tokens.length :=
    (List.getElem?_eq_some_iff.1 found).1
  induction covers with
  | nil => exact inside
  | token found _ _ inductionHypothesis => exact inductionHypothesis (behind found)
  | node _ _ _ inner rest => exact rest (inner inside)
  | member _ _ found _ _ _ inner rest => exact rest (inner (behind found))
  | source _ _ found _ _ _ inductionHypothesis | blank _ _ found _ _ inductionHypothesis =>
      exact inductionHypothesis (behind found)

/-- Covering is closed under putting outlines one after the other. -/
theorem append (covers : input.Covers first middle parts)
    (covers_others : input.Covers middle past others) :
    input.Covers first past (parts ++ others) := by
  induction covers with
  | nil => exact covers_others
  | token found ordinary _ inductionHypothesis =>
      rw [List.append_assoc]
      exact .token found ordinary (inductionHypothesis covers_others)
  | node moved inner _ _ inductionHypothesis =>
      exact .node moved inner (inductionHypothesis covers_others)
  | member isDot dot isWord word inner _ _ inductionHypothesis =>
      exact .member isDot dot isWord word inner (inductionHypothesis covers_others)
  | source isKeyword keyword isFile kind file _ inductionHypothesis =>
      exact .source isKeyword keyword isFile kind file (inductionHypothesis covers_others)
  | blank isKeyword keyword isName name _ inductionHypothesis =>
      exact .blank isKeyword keyword isName name (inductionHypothesis covers_others)

/-! ## Single tokens and whole nodes -/

variable {position : Nat} {token : Token}

/-- Punctuation covers nothing. -/
theorem silent (found : input.tokens[position]? = some token)
    (isSilent : token.kind.isSilent = true) : input.Covers position (position + 1) [] := by
  have covers := Covers.token found (Token.Role.next_of_isSilent isSilent) nil
  rwa [Token.Role.leaf?_of_isSilent isSilent] at covers

/-- A token that makes a leaf covers it. -/
theorem leaf {leaf : Leaf} (found : input.tokens[position]? = some token)
    (ordinary : Token.Role.next .ordinary token.kind = .ordinary)
    (isLeaf : Token.Role.leaf? .ordinary token = some leaf) :
    input.Covers position (position + 1) [.leaf leaf] := by
  have covers := Covers.token found ordinary nil
  rwa [isLeaf] at covers

/-- A name covers itself. -/
theorem named (found : input.tokens[position]? = some token) (isName : token.kind = .name) :
    input.Covers position (position + 1) [.named token.text] :=
  leaf found (by rw [isName]; rfl) (by simp [Token.Role.leaf?, isName])

/-- What was read for a node makes the node. -/
theorem whole (covers : input.Covers first past parts) (moved : first < past) :
    input.Covers first past [.node (input.cover first past) parts] :=
  .node moved covers .nil

/-- A literal or a name is a node of one token. -/
theorem wholeLeaf {leaf : Leaf} (found : input.tokens[position]? = some token)
    (ordinary : Token.Role.next .ordinary token.kind = .ordinary)
    (isLeaf : Token.Role.leaf? .ordinary token = some leaf) :
    input.Covers position (position + 1) [.node (input.spanAt position) [.leaf leaf]] := by
  rw [← cover_single]
  exact (Covers.leaf found ordinary isLeaf).whole (Nat.lt_succ_self position)

end Covers
end Input

/-! ## Following a parser -/

open Input (Covers)

variable {input : Input} {position first past : Nat}

/-- At a position of the input, a parser gives a value and stays where it is. -/
def Looks (input : Input) (position : Nat) (parser : Parser α) (value : α) : Prop :=
  parser (input.stream position) = .ok (value, input.stream position)

/-- From a position of the input, whatever a parser reads leads to a position that goes with it. -/
def Takes (input : Input) (position : Nat) (parser : Parser α) (Result : Nat → α → Prop) : Prop :=
  ∀ value rest, parser (input.stream position) = .ok (value, rest) →
    ∃ next, rest = input.stream next ∧ Result next value

namespace Looks

/-- Looking ahead does not move on. -/
theorem bind {first : Parser β} {next : β → Parser α} {value : β} {Result : Nat → α → Prop}
    (looks : Looks input position first value) (takes : Takes input position (next value) Result) :
    Takes input position (first >>= next) Result := by
  intro final rest ran
  have unfolded : (first >>= next) (input.stream position) =
      (first (input.stream position)).bind fun read => next read.1 read.2 := rfl
  rw [unfolded, looks] at ran
  exact takes final rest ran

theorem here : Looks input position Parser.here (input.spanAt position) := by
  have found : input.tokens[position]? = (input.tokens.drop position).head? := by
    rw [List.head?_drop]
  unfold Looks Input.spanAt
  rw [found]
  cases ahead : input.tokens.drop position with
  | nil =>
      simp [Parser.here, Input.stream, ahead]
      rfl
  | cons token rest =>
      simp [Parser.here, Input.stream, ahead]
      rfl

theorem front? : Looks input position Parser.front? input.tokens[position]? := by
  rw [← List.head?_drop]
  rfl

theorem frontKind? : Looks input position Parser.frontKind?
    (input.tokens[position]?.map (·.kind)) := by
  rw [← List.head?_drop]
  rfl

theorem secondKind? : Looks input position Parser.secondKind?
    (input.tokens[position + 1]?.map (·.kind)) := by
  rw [← List.head?_drop, ← List.tail_drop]
  rfl

theorem isAt (kind : TokenKind) : Looks input position (Parser.isAt kind)
    (input.tokens[position]?.map (·.kind) == some kind) := by
  rw [← List.head?_drop]
  rfl

theorem isAtMark (mark : Mark) : Looks input position (Parser.isAtMark mark)
    (input.tokens[position]?.map (·.kind) == some (.mark mark)) :=
  isAt _

theorem isAtEnd : Looks input position Parser.isAtEnd input.tokens[position]?.isNone := by
  rw [← List.head?_drop]
  rfl

/-- A node ends with the token read last. -/
theorem since (moved : first < past) (inside : past ≤ input.tokens.length) :
    Looks input past (Parser.since (input.spanAt first)) (input.cover first past) := by
  obtain ⟨token, found⟩ : ∃ token, input.tokens[past - 1]? = some token :=
    ⟨_, List.getElem?_eq_getElem (by omega)⟩
  have last : (input.tokens.take past).getLast? = some token := by
    rw [List.getLast?_take, if_neg (by omega), found, Option.some_or]
  have unfolded : Parser.since (input.spanAt first) (input.stream past) =
      .ok ((input.spanAt first).extend
        (((input.tokens.take past).getLast?.map Token.span).getD (input.spanAt first)),
          input.stream past) := rfl
  rw [Looks, unfolded, last, Input.cover, Input.spanAt, Input.spanAt, found]
  rfl

/-- Before the first token a node covers nothing. -/
theorem since_start {start : Span} : Looks input 0 (Parser.since start) start := by
  have unfolded : Parser.since start (input.stream 0) = .ok (start.extend start, input.stream 0) :=
    rfl
  rw [Looks, unfolded, Span.extend_self]

end Looks

namespace Takes

variable {Result : Nat → α → Prop} {token : Token} {parts : List Outline}

/-- A parser that reads nothing stays where it is. -/
theorem result {value : α} (holds : Result position value) :
    Takes input position (pure value) Result := by
  rintro _ _ ⟨⟩
  exact ⟨position, rfl, holds⟩

theorem bind {First : Nat → β → Prop} {first : Parser β} {next : β → Parser α}
    (firstTakes : Takes input position first First)
    (nextTakes : ∀ value middle, First middle value → Takes input middle (next value) Result) :
    Takes input position (first >>= next) Result := by
  intro value rest ran
  have unfolded : (first >>= next) (input.stream position) =
      (first (input.stream position)).bind fun read => next read.1 read.2 := rfl
  rw [unfolded] at ran
  cases found : first (input.stream position) with
  | error fault =>
      rw [found] at ran
      cases ran
  | ok read =>
      rw [found] at ran
      obtain ⟨middle, stream, holds⟩ := firstTakes read.1 read.2 found
      apply nextTakes read.1 middle holds value rest
      rw [← stream]
      exact ran

/-- A result may be weakened. -/
theorem mono {Weaker : Nat → α → Prop} {parser : Parser α}
    (takes : Takes input position parser Result)
    (weaker : ∀ value next, Result next value → Weaker next value) :
    Takes input position parser Weaker := by
  intro value rest ran
  obtain ⟨next, stream, holds⟩ := takes value rest ran
  exact ⟨next, stream, weaker value next holds⟩

/-- A parser that fails takes nothing. -/
theorem fail (span : Span) (cause : Cause) :
    Takes input position (Parser.fail span cause) Result := by
  rintro _ _ ⟨⟩

theorem unexpected (wanted : String) :
    Takes input position (Parser.unexpected wanted : Parser α) Result :=
  Looks.here.bind (Looks.front?.bind (fail _ _))

/-- What comes behind a fault is not reached. -/
theorem never_bind {first : Parser β} {next : β → Parser α}
    (never : Takes input position first fun _ _ => False) :
    Takes input position (first >>= next) Result :=
  never.bind fun _ _ impossible => impossible.elim

/-! ### Tokens -/

/-- The next token is passed. -/
theorem advance (found : input.tokens[position]? = some token) :
    Takes input position Parser.advance fun next _ => next = position + 1 := by
  rintro _ _ ran
  refine ⟨position + 1, ?_, rfl⟩
  have ahead : input.tokens.drop position = token :: input.tokens.drop (position + 1) := by
    obtain ⟨inside, rfl⟩ := List.getElem?_eq_some_iff.1 found
    exact List.drop_eq_getElem_cons inside
  have last : (input.tokens.take (position + 1)).getLast? = some token := by
    rw [List.getLast?_take, if_neg (by omega), Nat.add_sub_cancel, found, Option.some_or]
  simp only [Parser.advance, Input.stream, ahead] at ran
  cases ran
  rw [Input.stream, last]
  rfl

/-- Passing punctuation covers nothing. -/
theorem advance_silent (found : input.tokens[position]? = some token)
    (silent : token.kind.isSilent = true) :
    Takes input position Parser.advance fun next _ => Covers input position next [] :=
  (advance found).mono fun _ _ reached => reached ▸ .silent found silent

/-- A token that may be there is passed if it is, and otherwise nothing is. -/
theorem accept (kind : TokenKind) :
    Takes input position (Parser.accept kind) fun next isThere =>
      if isThere then
        ∃ token, input.tokens[position]? = some token ∧ token.kind = kind ∧ next = position + 1
      else
        next = position := by
  refine (Looks.isAt kind).bind ?_
  cases ahead : input.tokens[position]? with
  | none => exact result rfl
  | some token =>
      rw [Option.map_some]
      by_cases same : token.kind = kind
      · rw [beq_iff_eq.2 (congrArg some same)]
        exact (advance ahead).bind fun _ _ next => result ⟨token, rfl, same, next⟩
      · rw [beq_eq_false_iff_ne.2 (by simpa using same)]
        exact result rfl

/-- Punctuation that may be left out. -/
theorem accept_silent {kind : TokenKind} (silent : kind.isSilent = true) :
    Takes input position (Parser.accept kind) fun next _ => Covers input position next [] := by
  refine (accept kind).mono fun isThere next reached => ?_
  cases isThere with
  | false =>
      cases reached
      exact .nil
  | true =>
      obtain ⟨token, found, rfl, rfl⟩ := reached
      exact .silent found silent

/-- A token that must be there is passed. -/
theorem expect (kind : TokenKind) :
    Takes input position (Parser.expect kind) fun next token =>
      input.tokens[position]? = some token ∧ token.kind = kind ∧ next = position + 1 := by
  refine Looks.front?.bind ?_
  cases ahead : input.tokens[position]? with
  | none => exact unexpected _
  | some token =>
      dsimp only
      split
      · rename_i same
        exact (advance ahead).bind fun _ _ next => result ⟨rfl, same, next⟩
      · exact unexpected _

/-- Demanded punctuation covers nothing, and is passed. -/
theorem expect_silent {kind : TokenKind} (silent : kind.isSilent = true) :
    Takes input position (Parser.expect kind) fun next _ =>
      Covers input position next [] ∧ position < next := by
  refine (expect kind).mono ?_
  rintro token _ ⟨found, rfl, rfl⟩
  exact ⟨.silent found silent, Nat.lt_succ_self position⟩

/-- A demanded mark covers nothing. -/
theorem expectMark {mark : Mark} (silent : (TokenKind.mark mark).isSilent = true) :
    Takes input position (Parser.expectMark mark) fun next _ =>
      Covers input position next [] ∧ position < next :=
  (expect_silent silent).bind fun _ _ covers => result covers

/-- A demanded keyword is the next token. -/
theorem keyword (word : Keyword) :
    Takes input position (Parser.expectKeyword word) fun next _ =>
      ∃ token, input.tokens[position]? = some token ∧ token.kind = .keyword word ∧
        next = position + 1 :=
  (expect (.keyword word)).bind fun token _ reached => result ⟨token, reached⟩

/-- A demanded keyword that is punctuation covers nothing. -/
theorem expectKeyword {keyword : Keyword} (silent : (TokenKind.keyword keyword).isSilent = true) :
    Takes input position (Parser.expectKeyword keyword) fun next _ =>
      Covers input position next [] ∧ position < next :=
  (expect_silent silent).bind fun _ _ covers => result covers

/-- A name is the next token, and its text is what is read. -/
theorem identifier :
    Takes input position Parser.identifier fun next label =>
      ∃ token, input.tokens[position]? = some token ∧ token.kind = .name ∧ label = token.text ∧
        next = position + 1 := by
  refine (expect .name).bind fun token next ⟨found, isName, reached⟩ => ?_
  exact result ⟨token, found, isName, rfl, reached⟩

/-- A name that is read is covered by its token. -/
theorem name :
    Takes input position Parser.identifier fun next label =>
      Covers input position next [.named label] := by
  refine identifier.mono ?_
  rintro _ _ ⟨token, found, isName, rfl, rfl⟩
  exact .named found isName

/-- The word behind a dot may be a keyword as well; it is the name of a member there. -/
theorem memberName :
    Takes input position Parser.memberName fun next label =>
      ∃ word, input.tokens[position]? = some word ∧
        Token.Role.leaf? .member word = some (.name word.text) ∧ label = word.text ∧
        next = position + 1 := by
  have named : Takes input position Parser.identifier fun next label =>
      ∃ word, input.tokens[position]? = some word ∧
        Token.Role.leaf? .member word = some (.name word.text) ∧ label = word.text ∧
        next = position + 1 := by
    refine identifier.mono ?_
    rintro _ _ ⟨token, found, isName, rfl, rfl⟩
    exact ⟨token, found, by simp [Token.Role.leaf?, isName], rfl, rfl⟩
  refine Looks.front?.bind ?_
  cases ahead : input.tokens[position]? with
  | none =>
      rw [ahead] at named
      exact named
  | some token =>
      dsimp only
      split
      · rename_i word isKeyword
        refine (advance ahead).bind fun _ _ next => result ?_
        exact ⟨token, rfl, by simp [Token.Role.leaf?, isKeyword], rfl, next⟩
      · rw [ahead] at named
        exact named

/-- A node is made of what was read since its start. -/
theorem node {make : Span → α} {outline : α → Outline} (covers : Covers input first past parts)
    (moved : first < past) (shape : ∀ span, outline (make span) = .node span parts) :
    Takes input past (Parser.since (input.spanAt first) >>= fun span => pure (make span))
      fun next value => Covers input first next [outline value] := by
  refine (Looks.since moved (covers.le_length moved)).bind (result ?_)
  rw [shape]
  exact covers.whole moved

/-- A node with parts starts where the reading did. -/
theorem parent {part : Outline} {make : Span → α} {outline : α → Outline}
    (covers : Covers input first past (part :: parts))
    (shape : ∀ span, outline (make span) = .node span (part :: parts)) :
    Takes input past (Parser.since (input.spanAt first) >>= fun span => pure (make span))
      fun next value => Covers input first next [outline value] :=
  node covers (covers.lt (List.cons_ne_nil _ _)) shape

/-- A node with parts is read before a parser goes on with it. -/
theorem parent_bind {part : Outline} {next : Span → Parser α}
    (covers : Covers input first past (part :: parts))
    (takes : Covers input first past [.node (input.cover first past) (part :: parts)] →
      Takes input past (next (input.cover first past)) Result) :
    Takes input past (Parser.since (input.spanAt first) >>= next) Result := by
  have moved := covers.lt (List.cons_ne_nil _ _)
  exact (Looks.since moved (covers.le_length moved)).bind (takes (covers.whole moved))

/-! ### Expressions -/

/-- Whatever a parser makes of tokens is covered by them. -/
def Traces (input : Input) (parser : Parser α) (outline : α → Outline) : Prop :=
  ∀ position, Takes input position parser fun next value =>
    Covers input position next [outline value]

/-- The parsers that expressions are made of. -/
structure OfOperands (input : Input) (operands : Operands) : Prop where
  expression : Traces input operands.expression Expr.outline
  unary : Traces input operands.unary Expr.outline

variable {operands : Operands}

/-- Items are collected backwards. -/
theorem outlines_reverse_cons (item : Expr) (items : List Expr) :
    Expr.outlines (item :: items).reverse = Expr.outlines items.reverse ++ [item.outline] := by
  simp [Expr.outlines_eq_map]

/-- The items of a list are covered one by one; commas and the closing mark cover nothing. -/
theorem itemsUntil (traces : OfOperands input operands) (close : Mark) (fuel : Nat)
    {items : List Expr} (covers : Covers input first past (Expr.outlines items.reverse)) :
    Takes input past (Parser.itemsUntil operands close fuel items) fun next read =>
      Covers input first next (Expr.outlines read) := by
  induction fuel generalizing items past with
  | zero => exact result covers
  | succ fuel inductionHypothesis =>
      refine (Looks.isAtMark close).bind ?_
      split
      · exact result covers
      · refine (traces.expression past).bind fun item next covered => ?_
        have longer := covers.append covered
        rw [← outlines_reverse_cons] at longer
        refine (accept_silent rfl).bind fun goesOn next separated => ?_
        replace longer := longer.append separated
        rw [List.append_nil] at longer
        cases goesOn with
        | true => exact inductionHypothesis longer
        | false => exact result longer

/-- An enclosed list is a node from its opening to its closing mark. -/
theorem enclosedItems (traces : OfOperands input operands) {opening close : Mark}
    (opens : (TokenKind.mark opening).isSilent = true)
    (closes : (TokenKind.mark close).isSilent = true) :
    Traces input (Parser.enclosedItems operands opening close) fun read =>
      .node read.1 (Expr.outlines read.2) := by
  intro position
  refine Looks.here.bind ((expectMark opens).bind fun _ _ ⟨opened, moved⟩ => ?_)
  refine (itemsUntil traces close _ opened).bind fun items _ covers => ?_
  refine (expectMark closes).bind fun _ _ ⟨closed, _⟩ => ?_
  have all := covers.append closed
  rw [List.append_nil] at all
  have := covers.le
  exact node all (by omega) fun span => rfl

/-- A primary expression is covered by its tokens, with the parentheses around it left to what
surrounds it. -/
theorem primary (traces : OfOperands input operands) :
    Traces input (Parser.primary operands) Expr.outline := by
  intro position
  refine Looks.here.bind (Looks.front?.bind ?_)
  cases ahead : input.tokens[position]? with
  | none => exact unexpected _
  | some token =>
      dsimp only
      split
      case h_1 isNumber =>
        refine (advance ahead).bind fun _ _ reached => ?_
        cases reached
        split
        · rename_i value read
          refine result (.wholeLeaf ahead (by rw [isNumber]; rfl) ?_)
          simp [Token.Role.leaf?, isNumber, read]
        · exact fail _ _
      case h_2 kind | h_3 kind | h_4 kind | h_5 kind =>
        refine (advance ahead).bind fun _ _ reached => result ?_
        cases reached
        exact .wholeLeaf ahead (by rw [kind]; rfl) (by simp [Token.Role.leaf?, kind])
      case h_6 isName =>
        refine (advance ahead).bind fun _ _ reached => (Looks.isAtMark _).bind ?_
        cases reached
        have callee := Covers.named ahead isName
        split
        · refine (enclosedItems traces rfl rfl _).bind fun read next covers => ?_
          exact parent (callee.append covers) fun span => rfl
        · refine result ?_
          have whole := callee.whole (Nat.lt_succ_self position)
          rwa [Input.cover_single] at whole
      case h_7 isParen =>
        -- The parentheses are read for what surrounds the expression.
        refine (advance_silent ahead (by rw [isParen]; rfl)).bind fun _ _ opened => ?_
        refine (traces.expression _).bind fun expr _ covers => ?_
        refine (expectMark rfl).bind fun _ _ ⟨closed, _⟩ => result ?_
        exact opened.append (covers.append closed)
      case h_8 =>
        exact (enclosedItems traces rfl rfl _).bind fun read _ covers => result covers
      case h_9 => exact unexpected _

/-- What is appended to an object becomes a node from the object's first token on. -/
theorem membersOf (traces : OfOperands input operands) (fuel : Nat) {object : Expr}
    (covers : Covers input first past [object.outline]) :
    Takes input past (Parser.membersOf operands (input.spanAt first) fuel object)
      fun next expr => Covers input first next [expr.outline] := by
  induction fuel generalizing past object with
  | zero => exact result covers
  | succ fuel inductionHypothesis =>
      refine (accept (.mark .dot)).bind fun isDot _ reached => ?_
      cases isDot with
      | true =>
          obtain ⟨dot, found, kind, rfl⟩ := reached
          refine Looks.here.bind (memberName.bind ?_)
          rintro _ _ ⟨word, isThere, isWord, rfl, rfl⟩
          refine (Looks.isAtMark _).bind ?_
          split
          · refine (enclosedItems traces rfl rfl _).bind fun read next arguments => ?_
            have moved := arguments.lt (List.cons_ne_nil _ _)
            refine (Looks.since (by omega) (arguments.le_length moved)).bind ?_
            refine parent_bind (covers.append (.member found kind isThere isWord arguments .nil)) ?_
            exact fun called => inductionHypothesis called
          · have named := covers.append (.member found kind isThere isWord .nil .nil)
            rw [Input.cover_single] at named
            exact parent_bind named fun whole => inductionHypothesis whole
      | false =>
          cases reached
          refine (accept_silent rfl).bind fun isBracket _ opened => ?_
          replace covers := covers.append opened
          cases isBracket with
          | true =>
              refine (traces.expression _).bind fun key _ covered => ?_
              refine (expectMark rfl).bind fun _ next ⟨closed, _⟩ => ?_
              refine parent_bind (covers.append (covered.append closed)) ?_
              exact fun indexed => inductionHypothesis indexed
          | false => exact result covers

/-- A primary expression with what is appended to it. -/
theorem withMembers (traces : OfOperands input operands) :
    Traces input (Parser.withMembers operands) Expr.outline := by
  intro position
  refine Looks.here.bind ((primary traces position).bind fun object _ covers => ?_)
  exact membersOf traces _ covers

/-- The two operands of a power and the operator between them, which covers nothing. -/
theorem power (traces : OfOperands input operands) :
    Traces input (Parser.power operands) Expr.outline := by
  intro position
  refine Looks.here.bind ((withMembers traces position).bind fun base _ covers => ?_)
  refine (accept_silent rfl).bind fun isCaret _ passed => ?_
  replace covers := covers.append passed
  cases isCaret with
  | true =>
      refine (traces.unary _).bind fun exponent _ raised => ?_
      exact parent (covers.append raised) fun span => rfl
  | false => exact result covers

/-- Operators in front of an operand are punctuation. -/
theorem isSilent_of_unaryOperator? {kind : TokenKind} {operator : UnaryOperator}
    (found : unaryOperator? kind = some operator) : kind.isSilent = true := by
  unfold unaryOperator? at found
  split at found <;> first | rfl | cases found

/-- Read the call behind `new`, which was found at `first`. -/
theorem constructed (traces : OfOperands input operands)
    (passed : Covers input first past []) :
    Takes input past
      (do
        let callee ← Parser.identifier
        let arguments ← Parser.callArguments operands
        let callSpan ← Parser.since (input.spanAt past)
        return Expr.construct (← Parser.since (input.spanAt first)) callSpan callee arguments.1
          arguments.2)
      fun next expr => Covers input first next [expr.outline] := by
  refine name.bind fun callee _ called => ?_
  refine (enclosedItems traces rfl rfl _).bind fun arguments _ covers => ?_
  refine parent_bind (called.append covers) fun call => ?_
  exact parent (passed.append call) fun span => rfl

/-- An operand with the operators in front of it and behind it, each a node around the last one. -/
theorem unaryStep (traces : OfOperands input operands) :
    Traces input (Parser.unaryStep operands) Expr.outline := by
  intro position
  refine Looks.here.bind (Looks.frontKind?.bind ?_)
  cases ahead : input.tokens[position]? with
  | none => exact power traces position
  | some token =>
      rw [Option.map_some]
      dsimp only
      split
      case h_1 operator isOperator =>
        refine (advance_silent ahead (isSilent_of_unaryOperator? isOperator)).bind ?_
        intro _ _ passed
        refine (traces.unary _).bind fun operand _ covers => ?_
        exact parent (passed.append covers) fun span => rfl
      case h_2 isAwait =>
        refine (advance_silent ahead (by rw [isAwait]; rfl)).bind fun _ _ passed => ?_
        refine (traces.unary _).bind fun operand _ covers => ?_
        exact parent (passed.append covers) fun span => rfl
      case h_3 isDelete =>
        refine (advance_silent ahead (by rw [isDelete]; rfl)).bind fun _ _ passed => ?_
        refine Looks.here.bind (identifier.bind ?_)
        rintro _ _ ⟨name, isThere, isName, rfl, rfl⟩
        have deleted := (Covers.named isThere isName).whole (Nat.lt_succ_self _)
        rw [Input.cover_single] at deleted
        exact parent (passed.append deleted) fun span => rfl
      case h_4 isNew =>
        refine (advance_silent ahead (by rw [isNew]; rfl)).bind fun _ _ passed => ?_
        refine Looks.here.bind ((Looks.isAt _).bind (Looks.secondKind?.bind ?_))
        split
        · exact never_bind (unexpected _)
        · exact constructed traces passed
      case h_5 => exact power traces position

/-- The tokens of a level are operators. -/
def SilentLevel (level : Parser.Level) : Prop :=
  ∀ kind operator, level kind = some operator → kind.isSilent = true

/-- The operators between factors are punctuation. -/
theorem silent_factorLevel : SilentLevel factorLevel := by
  intro kind operator found
  unfold factorLevel at found
  split at found <;> first | rfl | cases found

/-- So are those of all binary levels. -/
theorem silent_binaryLevels : ∀ level ∈ binaryLevels, SilentLevel level := by
  simp only [binaryLevels, List.forall_mem_cons, List.not_mem_nil, false_implies, implies_true,
    and_true]
  refine ⟨?_, ?_, ?_, ?_, ?_, ?_, ?_, ?_, ?_, ?_⟩ <;> intro kind operator found <;>
    dsimp only at found <;> split at found <;> first | rfl | cases found

/-- Read the operator that comes next. -/
theorem operatorAhead? {level : Parser.Level} (silent : SilentLevel level)
    {next : Option BinaryOperator → Parser α} (without : Takes input position (next none) Result)
    (with_ : ∀ operator token, input.tokens[position]? = some token →
      token.kind.isSilent = true → Takes input position (next (some operator)) Result) :
    Takes input position (Parser.operatorAhead? level >>= next) Result := by
  have looks : Looks input position (Parser.operatorAhead? level)
      ((input.tokens[position]?.map (·.kind)).bind level) := by
    rw [← List.head?_drop]
    rfl
  refine looks.bind ?_
  cases ahead : input.tokens[position]? with
  | none => exact without
  | some token =>
      rw [Option.map_some, Option.bind_some]
      cases found : level token.kind with
      | none => exact without
      | some operator => exact with_ operator token ahead (silent _ _ found)

/-- Every further operand of a chain makes a node from the first operand on. -/
theorem chainFrom {level : Parser.Level} {operand : Parser Expr} (silent : SilentLevel level)
    (traces : Traces input operand Expr.outline) (fuel : Nat) {left : Expr}
    (covers : Covers input first past [left.outline]) :
    Takes input past (Parser.chainFrom level operand (input.spanAt first) fuel left)
      fun next expr => Covers input first next [expr.outline] := by
  induction fuel generalizing past left with
  | zero => exact result covers
  | succ fuel inductionHypothesis =>
      refine operatorAhead? silent (result covers) fun operator token ahead isSilent => ?_
      refine (advance_silent ahead isSilent).bind fun _ _ passed => ?_
      refine (traces _).bind fun right _ covered => ?_
      refine parent_bind (covers.append (passed.append covered)) ?_
      exact fun longer => inductionHypothesis longer

/-- A chain of operators of one level. -/
theorem chain (fuel : Nat) {level : Parser.Level} {operand : Parser Expr}
    (silent : SilentLevel level) (traces : Traces input operand Expr.outline) :
    Traces input (Parser.chain fuel level operand) Expr.outline := by
  intro position
  refine Looks.here.bind ((traces position).bind fun left _ covers => ?_)
  exact chainFrom silent traces fuel covers

/-- Every further factor makes a node from the first factor on, with or without a star. -/
theorem factorsFrom (traces : OfOperands input operands) (fuel : Nat) {left : Expr}
    (covers : Covers input first past [left.outline]) :
    Takes input past (Parser.factorsFrom operands (input.spanAt first) fuel left)
      fun next expr => Covers input first next [expr.outline] := by
  induction fuel generalizing past left with
  | zero => exact result covers
  | succ fuel inductionHypothesis =>
      -- Whether an operator stands between the factors or not, the next factor is read here.
      have goesOn {operator : BinaryOperator} {behind : Nat}
          (passed : Covers input past behind []) : Takes input behind
          (do
            let right ← Parser.unaryStep operands
            Parser.factorsFrom operands (input.spanAt first) fuel
              (.binary (← Parser.since (input.spanAt first)) left operator right))
          fun next expr => Covers input first next [expr.outline] := by
        refine (unaryStep traces _).bind fun right _ covered => ?_
        refine parent_bind (covers.append (passed.append covered)) ?_
        exact fun longer => inductionHypothesis longer
      refine (Looks.isAt _).bind ((Looks.isAtMark _).bind ?_)
      split
      · exact goesOn .nil
      · refine operatorAhead? silent_factorLevel (result covers) ?_
        intro operator token ahead isSilent
        exact (advance_silent ahead isSilent).bind fun _ _ passed => goesOn passed

/-- A product with all its factors. -/
theorem product (traces : OfOperands input operands) :
    Traces input (Parser.product operands) Expr.outline := by
  intro position
  refine Looks.here.bind ((unaryStep traces position).bind fun left _ covers => ?_)
  exact factorsFrom traces _ covers

/-- All binary levels, by induction on their list. -/
theorem binaryOf (traces : OfOperands input operands) {levels : List Parser.Level}
    (silent : ∀ level ∈ levels, SilentLevel level) :
    Traces input (Parser.binaryOf operands levels) Expr.outline := by
  induction levels with
  | nil => exact product traces
  | cons level levels inductionHypothesis =>
      obtain ⟨first, others⟩ := List.forall_mem_cons.1 silent
      exact chain _ first (inductionHypothesis others)

/-- An expression: a condition or what it is made of. -/
theorem expressionStep (traces : OfOperands input operands) :
    Traces input (Parser.expressionStep operands) Expr.outline := by
  intro position
  refine Looks.here.bind ((binaryOf traces silent_binaryLevels position).bind ?_)
  intro test _ covers
  refine (accept_silent rfl).bind fun isQuestion _ passed => ?_
  replace covers := covers.append passed
  cases isQuestion with
  | true =>
      refine (traces.expression _).bind fun consequent _ chosen => ?_
      refine (expectMark rfl).bind fun _ _ ⟨colon, _⟩ => ?_
      refine (traces.expression _).bind fun alternate _ otherwise => ?_
      exact parent (covers.append (chosen.append (colon.append otherwise))) fun span => rfl
  | false => exact result covers

/-- Expressions are covered by what is read for them, by induction on the nesting. -/
theorem operands_of_fuel (fuel bound : Nat) :
    OfOperands input ⟨Parser.expression fuel, Parser.unary fuel, bound⟩ := by
  induction fuel generalizing bound with
  | zero => exact ⟨fun _ => unexpected _, fun _ => unexpected _⟩
  | succ fuel inductionHypothesis =>
      exact ⟨expressionStep (inductionHypothesis (fuel + 1)),
        unaryStep (inductionHypothesis (fuel + 1))⟩

/-- Expressions of every depth, by induction on the fuel. -/
theorem expression (fuel : Nat) : Traces input (Parser.expression fuel) Expr.outline :=
  (operands_of_fuel fuel 0).expression

end Takes
end Parser
end ScopeScript
