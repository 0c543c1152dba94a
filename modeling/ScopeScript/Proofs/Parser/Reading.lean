import ScopeScript.Parser.Statement

/-!
# What a parser reads

`Reads parser input rest Result` says that a parser which finds the tokens `input` leaves exactly
`rest`, and what it has read is as `Result` says, wherever the tokens stand. Sequencing passes the
tokens on, so what a production reads is shown by following its text.
-/

namespace ScopeScript
namespace Parser

/-- From some tokens a parser reads a result with a property, and leaves the rest. -/
def Reads (parser : Parser α) (input rest : List Token) (Result : α → Prop) : Prop :=
  ∀ previous? endSpan, ∃ value last?,
    parser ⟨input, previous?, endSpan⟩ = .ok (value, ⟨rest, last?, endSpan⟩) ∧ Result value

namespace Reads

variable {input middle rest : List Token} {Result : α → Prop} {token : Token}

/-- A parser that reads nothing has its value as the result. -/
theorem result {value : α} (holds : Result value) :
    Reads (pure value) input input Result :=
  fun previous? _ => ⟨value, previous?, rfl, holds⟩

/-- Two parsers in a row. -/
theorem bind {First : β → Prop} {first : Parser β} {next : β → Parser α}
    (firstReads : Reads first input middle First)
    (nextReads : ∀ value, First value → Reads (next value) middle rest Result) :
    Reads (first >>= next) input rest Result := by
  intro previous? endSpan
  obtain ⟨value, last?, ran, holds⟩ := firstReads previous? endSpan
  obtain ⟨final, final?, ranNext, holdsNext⟩ := nextReads value holds last? endSpan
  refine ⟨final, final?, Eq.trans ?_ ranNext, holdsNext⟩
  have unfolded : (first >>= next) ⟨input, previous?, endSpan⟩ =
      (first ⟨input, previous?, endSpan⟩).bind fun read => next read.1 read.2 := rfl
  rw [unfolded, ran]
  rfl

/-- The first parser gives a known result. -/
theorem bind_eq {value : β} {first : Parser β} {next : β → Parser α}
    (firstReads : Reads first input middle (· = value))
    (nextReads : Reads (next value) middle rest Result) :
    Reads (first >>= next) input rest Result :=
  firstReads.bind fun _ same => same ▸ nextReads

/-- The first parser gives something that does not matter. -/
theorem bind_any {first : Parser β} {next : β → Parser α}
    (firstReads : Reads first input middle fun _ => True)
    (nextReads : ∀ value, Reads (next value) middle rest Result) :
    Reads (first >>= next) input rest Result :=
  firstReads.bind fun value _ => nextReads value

/-! ## Looking ahead -/

theorem front? : Reads Parser.front? input input (· = input.head?) :=
  fun previous? _ => ⟨_, previous?, rfl, rfl⟩

theorem frontKind? : Reads Parser.frontKind? input input (· = input.head?.map (·.kind)) :=
  fun previous? _ => ⟨_, previous?, rfl, rfl⟩

theorem isAt_of_eq {kind : TokenKind} (same : token.kind = kind) :
    Reads (Parser.isAt kind) (token :: rest) (token :: rest) (· = true) :=
  frontKind?.bind_eq (result (by simp [same]))

/-- Another kind is not found. -/
theorem isAt_of_ne {kind : TokenKind} (different : ∀ token, input.head? = some token →
    token.kind ≠ kind) : Reads (Parser.isAt kind) input input (· = false) := by
  refine frontKind?.bind_eq (result ?_)
  cases found : input.head? with
  | none => rfl
  | some token => simp [different token found]

theorem isAtEnd_nil : Reads Parser.isAtEnd [] [] (· = true) :=
  front?.bind_eq (result rfl)

theorem here : Reads Parser.here input input fun _ => True := by
  intro previous? endSpan
  exact ⟨_, previous?, rfl, trivial⟩

theorem since (start : Span) : Reads (Parser.since start) input input fun _ => True :=
  fun previous? _ => ⟨_, previous?, rfl, trivial⟩

/-! ## Reading tokens -/

theorem advance : Reads Parser.advance (token :: rest) rest fun _ => True :=
  fun _ _ => ⟨(), some token.span, rfl, trivial⟩

/-- A token of the kind is accepted. -/
theorem accept_of_eq {kind : TokenKind} (same : token.kind = kind) :
    Reads (Parser.accept kind) (token :: rest) rest (· = true) :=
  (isAt_of_eq same).bind_eq (advance.bind_any fun _ => result rfl)

/-- No other token is. -/
theorem accept_of_ne {kind : TokenKind} (different : ∀ token, input.head? = some token →
    token.kind ≠ kind) : Reads (Parser.accept kind) input input (· = false) :=
  (isAt_of_ne different).bind_eq (result rfl)

/-- A token of the demanded kind is read. -/
theorem expect {kind : TokenKind} (same : token.kind = kind) :
    Reads (Parser.expect kind) (token :: rest) rest (· = token) := by
  refine front?.bind_eq ?_
  simp only [List.head?_cons, if_pos same]
  exact advance.bind_any fun _ => result rfl

theorem expectMark {mark : Mark} (same : token.kind = .mark mark) :
    Reads (Parser.expectMark mark) (token :: rest) rest fun _ => True :=
  (expect same).bind_eq (result trivial)

end Reads
end Parser
end ScopeScript
