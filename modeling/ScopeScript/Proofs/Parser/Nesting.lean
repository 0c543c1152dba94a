import ScopeScript.Proofs.Lexer.Scanning
import ScopeScript.Proofs.Parser.CoveringStatements
import ScopeScript.Proofs.Parser.Offset

/-!
# Leaves and spans of parsed programs

A parsed program has the names and literals of its source text, in the same order
(`leaves_of_parse`), and its spans are well nested (`spans_are_nested`): they start and stop with
tokens, the parts of a node lie inside it, and they stand one behind the other.

Both are read off the way in which the tokens cover the outline of the program.
-/

namespace ScopeScript

namespace Outline

@[simp] theorem leavesAll_append (outlines others : List Outline) :
    leavesAll (outlines ++ others) = leavesAll outlines ++ leavesAll others := by
  induction outlines with
  | nil => rfl
  | cons outline outlines inductionHypothesis =>
      rw [List.cons_append, leavesAll, leavesAll, inductionHypothesis, List.append_assoc]

@[simp] theorem leavesAll_map_leaf (leaves : List Leaf) :
    leavesAll (leaves.map .leaf) = leaves := by
  induction leaves with
  | nil => rfl
  | cons leaf rest inductionHypothesis =>
      rw [List.map_cons, leavesAll, Outline.leaves, inductionHypothesis, List.singleton_append]

@[simp] theorem subtreesAll_append (outlines others : List Outline) :
    subtreesAll (outlines ++ others) = subtreesAll outlines ++ subtreesAll others := by
  induction outlines with
  | nil => rfl
  | cons outline outlines inductionHypothesis =>
      rw [List.cons_append, subtreesAll, subtreesAll, inductionHypothesis, List.append_assoc]

/-- An outline comes before those of its parts. -/
theorem subtrees_eq (outline : Outline) :
    outline.subtrees = outline :: subtreesAll outline.parts := by
  cases outline <;> simp [subtrees, parts, subtreesAll]

end Outline

namespace Parser.Input

variable {input : Input} {first middle past : Nat} {parts others : List Outline}

/-- The token at a position is the first of what is left there. -/
theorem drop_eq_cons {position : Nat} {token : Token}
    (found : input.tokens[position]? = some token) :
    input.tokens.drop position = token :: input.tokens.drop (position + 1) := by
  obtain ⟨inside, rfl⟩ := List.getElem?_eq_some_iff.1 found
  exact List.drop_eq_getElem_cons inside

/-! ## Leaves -/

/-- The leaves of outlines are those of the tokens that cover them. -/
theorem Covers.leaves (covers : input.Covers first past parts) :
    Token.leaves (input.tokens.drop first) =
      Outline.leavesAll parts ++ Token.leaves (input.tokens.drop past) := by
  unfold Token.leaves
  induction covers with
  | nil => rfl
  | token found ordinary _ inductionHypothesis =>
      rw [drop_eq_cons found, Token.leavesFrom, ordinary, inductionHypothesis]
      simp
  | node _ _ _ inner rest =>
      rw [inner, rest, Outline.leavesAll, Outline.leaves, List.append_assoc]
  | @member first _ _ dot word parts others isDot kind isWord word_leaf _ _ inner rest =>
      have none : Token.Role.leaf? .ordinary dot = none := by simp [Token.Role.leaf?, kind]
      have behindDot : Token.Role.next .ordinary dot.kind = .member := by rw [kind]; rfl
      have behindWord : Token.Role.next .member word.kind = .ordinary := rfl
      rw [drop_eq_cons isDot, drop_eq_cons isWord, Token.leavesFrom, none, behindDot,
        Token.leavesFrom, word_leaf, behindWord, inner, rest]
      simp [Outline.leavesAll, Outline.leaves, Outline.named]
  | @source first _ keyword file label others isKeyword kind isFile fileKind file_leaf _ ih =>
      have none : Token.Role.leaf? .ordinary keyword = none := by simp [Token.Role.leaf?, kind]
      have behindKeyword : Token.Role.next .ordinary keyword.kind = .source := by rw [kind]; rfl
      have behindFile : Token.Role.next .source file.kind = .ordinary := by
        rcases fileKind with isName | isText
        · rw [isName]; rfl
        · rw [isText]; rfl
      rw [drop_eq_cons isKeyword, drop_eq_cons isFile, Token.leavesFrom, none, behindKeyword,
        Token.leavesFrom, file_leaf, behindFile, ih]
      simp [Outline.leavesAll, Outline.leaves]
  | @blank first _ keyword name others isKeyword kind isThere isName _ ih =>
      have none : Token.Role.leaf? .ordinary keyword = none := by simp [Token.Role.leaf?, kind]
      have behindKeyword : Token.Role.next .ordinary keyword.kind = .ordinary := by rw [kind]; rfl
      have named : Token.Role.leaf? .ordinary name = some (.name name.text) := by
        simp [Token.Role.leaf?, isName]
      have behindName : Token.Role.next .ordinary name.kind = .ordinary := by rw [isName]; rfl
      rw [drop_eq_cons isKeyword, drop_eq_cons isThere, Token.leavesFrom, none, behindKeyword,
        Token.leavesFrom, named, behindName, ih]
      simp [Outline.leavesAll, Outline.leaves, Outline.named]

/-! ## Places of nodes -/

/-- A span covers tokens from one position up to another. -/
def Between (input : Input) (first past : Nat) (span : Span) : Prop :=
  ∃ start stop, first ≤ start ∧ start < stop ∧ stop ≤ past ∧ span = input.cover start stop

/-- Wider bounds hold as well. -/
theorem Between.mono {outerFirst outerPast : Nat} {span : Span}
    (between : input.Between first past span) (start : outerFirst ≤ first)
    (stop : past ≤ outerPast) : input.Between outerFirst outerPast span := by
  obtain ⟨innerStart, innerStop, lower, moved, upper, rfl⟩ := between
  exact ⟨innerStart, innerStop, by omega, moved, by omega, rfl⟩

/-- Two spans cover tokens, and those of the second one come later. -/
def Apart (input : Input) (span later : Span) : Prop :=
  ∃ middle, input.Between 0 middle span ∧ input.Between middle input.tokens.length later

/-- Where a node stands and where its parts stand. -/
structure Settled (input : Input) (part : Outline) (first past : Nat) : Prop where
  span? : part.span? = some (input.cover first past)
  moved : first < past
  inside : past ≤ input.tokens.length
  children : ∀ child ∈ part.childSpans, input.Between first past child
  apart : part.childSpans.Pairwise input.Apart
  blank : ∀ span, part = .blank span → past = first + 2 ∧
    input.tokens[first]?.map (·.kind) = some (.keyword .kwLet) ∧
    input.tokens[first + 1]?.map (·.kind) = some .name

/-- Outlines stand one behind the other, and so do the parts of each node. -/
structure Settles (input : Input) (first past : Nat) (parts : List Outline) : Prop where
  between : ∀ span ∈ parts.filterMap Outline.span?, input.Between first past span
  apart : (parts.filterMap Outline.span?).Pairwise input.Apart
  nodes : ∀ part ∈ Outline.subtreesAll parts, ∀ span, part.span? = some span →
    ∃ start stop, input.Settled part start stop

namespace Settles

/-- Nothing is settled anywhere. -/
theorem nil : input.Settles first past [] := by
  constructor <;> simp [Outline.subtreesAll]

/-- What is settled stays so if it starts earlier. -/
theorem widen (settles : input.Settles middle past parts) (lower : first ≤ middle) :
    input.Settles first past parts where
  between span member := (settles.between span member).mono lower le_rfl
  apart := settles.apart
  nodes := settles.nodes

/-- Leaves have no spans. -/
theorem leaf (leaf : Leaf) (rest : input.Settles first past others) :
    input.Settles first past (.leaf leaf :: others) := by
  refine ⟨rest.between, rest.apart, ?_⟩
  intro part member span isSpan
  rw [Outline.subtreesAll, Outline.subtrees] at member
  rcases List.mem_cons.1 member with rfl | member
  · cases isSpan
  · exact rest.nodes part member span isSpan

/-- A node stands in front of what comes behind it. -/
theorem cons {part : Outline} {start stop : Nat} (settled : input.Settled part start stop)
    (below : ∀ inner ∈ Outline.subtreesAll part.parts, ∀ span, inner.span? = some span →
      ∃ start stop, input.Settled inner start stop)
    (rest : input.Settles stop past others) (lower : first ≤ start) (upper : stop ≤ past)
    (inside : past ≤ input.tokens.length) : input.Settles first past (part :: others) := by
  have spans : (part :: others).filterMap Outline.span? =
      input.cover start stop :: others.filterMap Outline.span? := by
    rw [List.filterMap_cons, settled.span?]
  have moved := settled.moved
  refine ⟨?_, ?_, ?_⟩
  · rw [spans, List.forall_mem_cons]
    refine ⟨⟨start, stop, lower, moved, upper, rfl⟩, fun span member => ?_⟩
    exact (rest.between span member).mono (by omega) le_rfl
  · rw [spans, List.pairwise_cons]
    refine ⟨fun later member => ⟨stop, ?_, ?_⟩, rest.apart⟩
    · exact ⟨start, stop, Nat.zero_le start, moved, le_rfl, rfl⟩
    · exact (rest.between later member).mono le_rfl inside
  · intro inner member span isSpan
    rw [Outline.subtreesAll, Outline.subtrees_eq, List.cons_append] at member
    rcases List.mem_cons.1 member with rfl | member
    · exact ⟨start, stop, settled⟩
    · rcases List.mem_append.1 member with member | member
      · exact below inner member span isSpan
      · exact rest.nodes inner member span isSpan

/-- What was read for a node settles it. -/
theorem node (inner : input.Settles first middle parts) (rest : input.Settles middle past others)
    (moved : first < middle) (upper : middle ≤ past) (inside : past ≤ input.tokens.length) :
    input.Settles first past (.node (input.cover first middle) parts :: others) := by
  refine cons ⟨rfl, moved, by omega, inner.between, inner.apart, ?_⟩ inner.nodes rest le_rfl upper
    inside
  rintro _ ⟨⟩

end Settles

/-- Covered outlines stand where their tokens stand. -/
theorem Covers.settles (covers : input.Covers first past parts)
    (inside : past ≤ input.tokens.length) : input.Settles first past parts := by
  induction covers with
  | nil => exact .nil
  | @token first past token others found ordinary rest inductionHypothesis =>
      have settled := (inductionHypothesis inside).widen (Nat.le_succ first)
      cases Token.Role.leaf? .ordinary token with
      | none => exact settled
      | some leaf => exact settled.leaf leaf
  | node moved _ rest inner_ih rest_ih =>
      have upper := rest.le
      exact (inner_ih (by omega)).node (rest_ih inside) moved upper inside
  | @member first middle past dot word parts others _ _ isWord _ inner rest inner_ih rest_ih =>
      have lower := inner.le
      have upper := rest.le
      have called := ((inner_ih (by omega)).leaf (.name word.text)).widen (Nat.le_succ (first + 1))
      exact (called.node (rest_ih inside) (by omega) upper inside).widen (Nat.le_succ first)
  | source _ _ _ _ _ _ inductionHypothesis =>
      exact ((inductionHypothesis inside).leaf _).widen (by omega)
  | @blank first past keyword name others isKeyword kind isThere isName rest inductionHypothesis =>
      have upper := rest.le
      refine Settles.leaf _ ?_
      refine .cons ⟨rfl, by omega, by omega, ?_, .nil, ?_⟩ ?_ (inductionHypothesis inside) le_rfl
        upper inside
      · rintro _ ⟨⟩
      · intro span _
        rw [isKeyword, isThere, Option.map_some, Option.map_some, kind, isName]
        exact ⟨rfl, rfl, rfl⟩
      · rintro _ ⟨⟩

/-! ## Places of tokens -/

/-- Tokens stand one behind the other within a text of a size. -/
structure Ordered (input : Input) (size : Nat) : Prop where
  forward : ∀ token ∈ input.tokens, token.span.start.toNat ≤ token.span.stop.toNat
  inside : ∀ token ∈ input.tokens, token.span.stop.toNat ≤ size
  ordered : input.tokens.Pairwise fun token later =>
    token.span.stop.toNat ≤ later.span.start.toNat

/-- The tokens of a source text stand one behind the other inside the text. -/
theorem ofSource_ordered {source : String} (fits : Text.size source < 2 ^ 64) :
    (ofSource source).Ordered (Text.size source) := by
  have length :
      Token.covered (Lexer.pieces Token.rules (Text.bytes source)) = Text.size source := by
    rw [Token.covered, Lexer.flatMap_bytes_pieces, Text.length_bytes]
  refine ⟨fun token member => ?_, fun token member => ?_, ?_⟩
  · obtain ⟨before, after, split, span⟩ := Token.exists_of_mem_located member
    rw [split, Token.covered_append, Token.covered_cons, Lexer.Piece.bytes] at length
    rw [span, Token.spanAt_start (by omega), Token.spanAt_stop (by omega)]
    omega
  · exact (Token.scan_tokens_within source token member).2
  · exact Token.pairwise_located (by rw [length]; omega)

namespace Ordered

variable {size : Nat}

theorem spanAt_mem (inside : first < input.tokens.length) :
    ∃ token ∈ input.tokens, input.spanAt first = token.span := by
  refine ⟨input.tokens[first], List.getElem_mem inside, ?_⟩
  rw [spanAt, List.getElem?_eq_getElem inside, Option.map_some, Option.getD_some]

/-- A token starts before it stops. -/
theorem start_le_stop (ordered : input.Ordered size) (inside : first < input.tokens.length) :
    (input.spanAt first).start.toNat ≤ (input.spanAt first).stop.toNat := by
  obtain ⟨token, member, span⟩ := spanAt_mem inside
  rw [span]
  exact ordered.forward token member

/-- A token stops before the next one starts. -/
theorem stop_le_start (ordered : input.Ordered size) (moved : first < middle)
    (inside : middle < input.tokens.length) :
    (input.spanAt first).stop.toNat ≤ (input.spanAt middle).start.toNat := by
  have earlier := List.pairwise_iff_getElem.1 ordered.ordered first middle (by omega) inside moved
  rw [spanAt, spanAt, List.getElem?_eq_getElem inside, List.getElem?_eq_getElem (by omega)]
  exact earlier

/-- Later tokens start later. -/
theorem start_le (ordered : input.Ordered size) (moved : first ≤ middle)
    (inside : middle < input.tokens.length) :
    (input.spanAt first).start.toNat ≤ (input.spanAt middle).start.toNat := by
  rcases Nat.eq_or_lt_of_le moved with rfl | moved
  · exact le_rfl
  · exact (ordered.start_le_stop (by omega)).trans (ordered.stop_le_start moved inside)

/-- Later tokens stop later. -/
theorem stop_le (ordered : input.Ordered size) (moved : first ≤ middle)
    (inside : middle < input.tokens.length) :
    (input.spanAt first).stop.toNat ≤ (input.spanAt middle).stop.toNat := by
  rcases Nat.eq_or_lt_of_le moved with rfl | moved
  · exact le_rfl
  · exact (ordered.stop_le_start moved inside).trans (ordered.start_le_stop inside)

/-- A span that covers tokens goes from the start of the first to the stop of the last one. -/
theorem cover_eq (ordered : input.Ordered size) (moved : first < past)
    (inside : past ≤ input.tokens.length) :
    input.cover first past =
      ⟨(input.spanAt first).start, (input.spanAt (past - 1)).stop⟩ := by
  have starts := ordered.start_le (show first ≤ past - 1 by omega) (by omega)
  have stops := ordered.stop_le (show first ≤ past - 1 by omega) (by omega)
  rw [cover, Span.extend, if_neg (by rw [UInt64.lt_iff_toNat_lt]; omega)]
  congr 1
  split
  · rfl
  · rename_i same
    rw [gt_iff_lt, UInt64.lt_iff_toNat_lt] at same
    exact UInt64.toNat_inj.1 (by omega)

end Ordered

end Parser.Input

/-! ## Parsed programs -/

namespace Span

/-- A span starts where a token starts, and it stops where a token stops. -/
def Aligned (tokens : List Token) (span : Span) : Prop :=
  (∃ token ∈ tokens, span.start = token.span.start) ∧
    ∃ token ∈ tokens, span.stop = token.span.stop

/-- A span lies inside another one. -/
def Inside (inner outer : Span) : Prop :=
  outer.start.toNat ≤ inner.start.toNat ∧ inner.stop.toNat ≤ outer.stop.toNat

/-- A span stops before another one starts. -/
def Before (span later : Span) : Prop :=
  span.stop.toNat ≤ later.start.toNat

/-- A span covers the keyword of a declaration and the name behind it. -/
def OfBareDeclaration (tokens : List Token) (span : Span) : Prop :=
  ∃ before keyword name after, tokens = before ++ keyword :: name :: after ∧
    keyword.kind = .keyword .kwLet ∧ name.kind = .name ∧
    span = ⟨keyword.span.start, name.span.stop⟩

end Span

/-- A node lies within a text of a size, and its parts stand one behind the other inside it. The
initial value that a declaration leaves out covers the rest of the declaration. -/
structure Outline.Nested (tokens : List Token) (size : Nat) (part : Outline) (span : Span) :
    Prop where
  forward : span.start.toNat ≤ span.stop.toNat
  within : span.stop.toNat ≤ size
  children : ∀ child ∈ part.childSpans, child.Inside span
  ordered : part.childSpans.Pairwise Span.Before
  blank : part = .blank span → span.OfBareDeclaration tokens

namespace Parser.Input.Ordered

variable {input : Input} {first middle past size : Nat} {span later : Span}

/-- A span between two positions starts and stops with tokens. -/
theorem aligned (ordered : input.Ordered size) (between : input.Between first past span)
    (inside : past ≤ input.tokens.length) : span.Aligned input.tokens := by
  obtain ⟨start, stop, _, moved, upper, rfl⟩ := between
  rw [ordered.cover_eq moved (by omega)]
  obtain ⟨firstToken, firstMember, firstSpan⟩ :=
    spanAt_mem (show start < input.tokens.length by omega)
  obtain ⟨lastToken, lastMember, lastSpan⟩ :=
    spanAt_mem (show stop - 1 < input.tokens.length by omega)
  exact ⟨⟨firstToken, firstMember, by rw [firstSpan]⟩, lastToken, lastMember, by rw [lastSpan]⟩

/-- And it lies inside the text. -/
theorem within (ordered : input.Ordered size) (between : input.Between first past span)
    (inside : past ≤ input.tokens.length) :
    span.start.toNat ≤ span.stop.toNat ∧ span.stop.toNat ≤ size := by
  obtain ⟨start, stop, _, moved, upper, rfl⟩ := between
  rw [ordered.cover_eq moved (by omega)]
  refine ⟨?_, ?_⟩
  · exact (ordered.start_le_stop (by omega)).trans
      (ordered.stop_le (show start ≤ stop - 1 by omega) (by omega))
  · obtain ⟨token, member, isSpan⟩ := spanAt_mem (show stop - 1 < input.tokens.length by omega)
    rw [isSpan]
    exact ordered.inside token member

/-- What lies between two positions lies inside their cover. -/
theorem inside_cover (ordered : input.Ordered size) (between : input.Between first past span)
    (moved : first < past) (inside : past ≤ input.tokens.length) :
    span.Inside (input.cover first past) := by
  obtain ⟨start, stop, lower, innerMoved, upper, rfl⟩ := between
  rw [ordered.cover_eq innerMoved (by omega), ordered.cover_eq moved inside]
  exact ⟨ordered.start_le lower (by omega), ordered.stop_le (by omega) (by omega)⟩

/-- What is apart stands one behind the other. -/
theorem before (ordered : input.Ordered size) (apart : input.Apart span later) :
    span.Before later := by
  obtain ⟨middle, ⟨start, stop, _, moved, upper, rfl⟩,
    laterStart, laterStop, lower, laterMoved, inside, rfl⟩ := apart
  rw [Span.Before, ordered.cover_eq moved (by omega), ordered.cover_eq laterMoved inside]
  exact ordered.stop_le_start (by omega) (by omega)

/-- A declaration without an initial value is told by its first two tokens. -/
theorem ofBareDeclaration (ordered : input.Ordered size)
    (isKeyword : input.tokens[first]?.map (·.kind) = some (.keyword .kwLet))
    (isName : input.tokens[first + 1]?.map (·.kind) = some .name) :
    (input.cover first (first + 2)).OfBareDeclaration input.tokens := by
  obtain ⟨keyword, keywordThere, keywordKind⟩ := Option.map_eq_some_iff.1 isKeyword
  obtain ⟨name, nameThere, nameKind⟩ := Option.map_eq_some_iff.1 isName
  have inside := (List.getElem?_eq_some_iff.1 nameThere).1
  refine ⟨input.tokens.take first, keyword, name, input.tokens.drop (first + 2), ?_, keywordKind,
    nameKind, ?_⟩
  · rw [← drop_eq_cons nameThere, ← drop_eq_cons keywordThere, List.take_append_drop]
  · rw [ordered.cover_eq (by omega) (by omega), show first + 2 - 1 = first + 1 from rfl, spanAt,
      spanAt, keywordThere, nameThere]
    rfl

/-- A settled outline is well nested and starts and stops with tokens: by induction on the way it is
settled. -/
theorem nested {part : Outline} (ordered : input.Ordered size)
    (settled : input.Settled part first past) :
    part.Nested input.tokens size (input.cover first past) ∧
      (input.cover first past).Aligned input.tokens := by
  have self : input.Between first past (input.cover first past) :=
    ⟨first, past, le_rfl, settled.moved, le_rfl, rfl⟩
  obtain ⟨forward, within⟩ := ordered.within self settled.inside
  refine ⟨⟨forward, within, fun child member => ?_, ?_, fun isBlank => ?_⟩,
    ordered.aligned self settled.inside⟩
  · exact ordered.inside_cover (settled.children child member) settled.moved settled.inside
  · exact settled.apart.imp ordered.before
  · obtain ⟨rfl, isKeyword, isName⟩ := settled.blank _ isBlank
    exact ordered.ofBareDeclaration isKeyword isName

end Parser.Input.Ordered

namespace Program

/-- A parsed program stands where its tokens stand, unless there are none. -/
theorem settled_of_parse {path source : String} {program : Program}
    (parsed : Program.parse path source = .ok program) {part : Outline} {span : Span}
    (member : part ∈ program.outline.subtrees) (isSpan : part.span? = some span) :
    (∃ start stop, (Parser.Input.ofSource source).Settled part start stop) ∨
      (Token.scan source).tokens = [] ∧ program.body = [] ∧ part = .node span [] ∧
        span = (Parser.Input.ofSource source).endSpan := by
  obtain ⟨covers, programSpan⟩ := covers_of_parse parsed
  have settles := covers.settles le_rfl
  rw [Outline.subtrees_eq] at member
  rcases List.mem_cons.1 member with rfl | member
  · by_cases none : (Token.scan source).tokens = []
    · -- Without tokens nothing is covered.
      have nothing : Stmt.outlines program.body = [] := by
        by_contra something
        have moved := covers.lt something
        rw [none] at moved
        cases moved
      cases isSpan
      rw [if_pos none] at programSpan
      refine .inr ⟨none, ?_, ?_, programSpan⟩
      · rw [Stmt.outlines_eq_map] at nothing
        exact List.map_eq_nil_iff.1 nothing
      · rw [Program.outline, nothing]
    · rw [if_neg none] at programSpan
      have moved := List.length_pos_iff.2 none
      refine .inl ⟨0, (Token.scan source).tokens.length, ?_, moved, le_rfl, settles.between,
        settles.apart, ?_⟩
      · rw [← programSpan]
        rfl
      · rintro _ ⟨⟩
  · exact .inl (settles.nodes part member span isSpan)

/-- The spans of a parsed program are well nested. -/
theorem spans_are_nested {path source : String} {program : Program}
    (fits : Text.size source < 2 ^ 64) (parsed : Program.parse path source = .ok program) :
    ∀ part ∈ program.outline.subtrees, ∀ span, part.span? = some span →
      part.Nested (Token.scan source).tokens (Text.size source) span ∧
        (span.Aligned (Token.scan source).tokens ∨
          (Token.scan source).tokens = [] ∧ program.body = []) := by
  intro part member span isSpan
  have ordered := Parser.Input.ofSource_ordered fits
  rcases settled_of_parse parsed member isSpan with
    ⟨start, stop, settled⟩ | ⟨none, empty, rfl, rfl⟩
  · have same := settled.span?
    rw [isSpan] at same
    obtain rfl := Option.some.inj same
    obtain ⟨nested, aligned⟩ := ordered.nested settled
    exact ⟨nested, .inl aligned⟩
  · refine ⟨⟨le_rfl, ?_, ?_, .nil, ?_⟩, .inr ⟨none, empty⟩⟩
    · simp [Parser.Input.ofSource, Nat.mod_le]
    · rintro _ ⟨⟩
    · rintro ⟨⟩

/-- A source text with a declaration without value, a keyword in front of a function, a keyword as
the name of a member, parentheses, and an import without semicolon. -/
def sampleSource : String :=
  "let x; async fn f(a, b) \x7b yield (a.new(b, 2))[x] \x7d " ++
    "try \x7b import 'm' as y \x7d catch e \x7b \x7d"

theorem exists_sample : ∃ program, Program.parse "main" sampleSource = .ok program := by
  have accepted : (Program.parse "main" sampleSource).isOk = true := by decide +kernel
  cases parsed : Program.parse "main" sampleSource with
  | error diagnostic =>
      rw [parsed] at accepted
      cases accepted
  | ok program => exact ⟨program, rfl⟩

/-- The spans of the sample are well nested. -/
theorem spans_are_nested_sample :
    Text.size sampleSource < 2 ^ 64 ∧
      ∃ program, Program.parse "main" sampleSource = .ok program ∧
        ∀ part ∈ program.outline.subtrees, ∀ span, part.span? = some span →
          part.Nested (Token.scan sampleSource).tokens (Text.size sampleSource) span ∧
            (span.Aligned (Token.scan sampleSource).tokens ∨
              (Token.scan sampleSource).tokens = [] ∧ program.body = []) := by
  have fits : Text.size sampleSource < 2 ^ 64 := by decide +kernel
  obtain ⟨program, parsed⟩ := exists_sample
  exact ⟨fits, program, parsed, spans_are_nested fits parsed⟩

/-- The names and literals of a parsed program are those of its source text, in the same order. -/
theorem leaves_of_parse {path source : String} {program : Program}
    (parsed : Program.parse path source = .ok program) :
    program.leaves = Token.leaves (Token.scan source).tokens := by
  obtain ⟨covers, -⟩ := covers_of_parse parsed
  have leaves := covers.leaves
  have behind : (Parser.Input.ofSource source).tokens.drop (Token.scan source).tokens.length = [] :=
    List.drop_eq_nil_of_le le_rfl
  rw [behind] at leaves
  calc program.leaves
      = Outline.leavesAll (Stmt.outlines program.body) := by
        rw [Program.leaves, Program.outline, Outline.leaves]
    _ = Token.leaves (Token.scan source).tokens := by
        rw [show Token.leaves [] = [] from rfl, List.append_nil] at leaves
        exact leaves.symm

/-- The sample has twelve names and literals. -/
theorem leaves_of_sample :
    ∃ program, Program.parse "main" sampleSource = .ok program ∧
      program.leaves = Token.leaves (Token.scan sampleSource).tokens ∧
      program.leaves.length = 12 := by
  obtain ⟨program, parsed⟩ := exists_sample
  have leaves := leaves_of_parse parsed
  refine ⟨program, parsed, leaves, ?_⟩
  rw [leaves]
  decide +kernel

end Program

end ScopeScript
