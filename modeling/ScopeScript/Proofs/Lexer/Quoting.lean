import ScopeScript.Proofs.Lexer.Layout
import ScopeScript.Proofs.Text.Escaping

/-!
# Writing any text between quotes

Any bytes can be written between quotes: a backslash goes in front of every quote and of every
backslash. What is written is scanned as a single quoted text, and removing the quotes gives the
bytes back. In every quoted text that the lexer finds each backslash takes a byte with it
(`quotedBody_of_scan`), so resolving the escapes never comes to a backslash at the very end
(`quoted_texts_are_exact`).
-/

namespace ScopeScript
namespace Token

/-- A byte between quotes of a kind, with a backslash in front where it needs one. -/
def guardedByte (quote byte : UInt8) : List UInt8 :=
  if byte = quote ∨ byte = Text.byteOf '\\' then [Text.byteOf '\\', byte] else [byte]

/-- Bytes written between two quotes of a kind. -/
def writtenQuoted (quote : UInt8) (content : List UInt8) : List UInt8 :=
  quote :: content.flatMap (guardedByte quote) ++ [quote]

/-- Whether resolving the escapes comes to a backslash with nothing behind it. -/
def endsInEscape : List UInt8 → Bool
  | [] => false
  | [byte] => byte == Text.byteOf '\\'
  | byte :: next :: rest =>
      if byte = Text.byteOf '\\' then endsInEscape rest else endsInEscape (next :: rest)

/-- Quotes and backslashes stand for themselves behind a backslash. -/
theorem unescaped_guarded {quote byte : UInt8} (isQuote : isQuoteByte quote = true)
    (guarded : byte = quote ∨ byte = Text.byteOf '\\') : unescaped byte = byte := by
  simp only [isQuoteByte, Bool.or_eq_true, beq_iff_eq] at isQuote
  rcases guarded with rfl | rfl
  · rcases isQuote with rfl | rfl <;> decide
  · decide

/-- Guarding the bytes is a way to write them between quotes. -/
theorem escapes_guarded {quote : UInt8} (isQuote : isQuoteByte quote = true)
    (content : List UInt8) : Escapes quote content (content.flatMap (guardedByte quote)) := by
  induction content with
  | nil => exact .nil
  | cons byte content inductionHypothesis =>
      rw [List.flatMap_cons, guardedByte]
      split
      · rename_i guarded
        have escaped : Escapes quote (unescaped byte :: content)
            (Text.byteOf '\\' :: byte :: content.flatMap (guardedByte quote)) :=
          .escaped inductionHypothesis
        rwa [unescaped_guarded isQuote guarded] at escaped
      · rename_i free
        rw [not_or] at free
        exact .plain free.1 free.2 inductionHypothesis

/-- What stands in front of the closing quote is the body of a quoted text. -/
theorem quotedBody_of_throughQuote {quote : UInt8} {input : List UInt8} {size : Nat}
    (found : Lexer.Pattern.throughQuote quote (some (Text.byteOf '\\')) input = some size) :
    ∃ body, QuotedBody quote body ∧ input.take size = body ++ [quote] := by
  fun_induction Lexer.Pattern.throughQuote quote (some (Text.byteOf '\\')) input
    generalizing size with
  | case1 => cases found
  | case2 input =>
      cases found
      exact ⟨[], .nil, rfl⟩
  | case3 => cases found
  | case4 byte notQuote isEscape next input inductionHypothesis =>
      obtain ⟨inner, foundInner, rfl⟩ := Option.map_eq_some_iff.1 found
      obtain ⟨body, isBody, taken⟩ := inductionHypothesis foundInner
      cases isEscape
      exact ⟨_, .escaped next isBody, by rw [List.take_succ_cons, List.take_succ_cons, taken]; rfl⟩
  | case5 byte input notQuote notEscape inductionHypothesis =>
      obtain ⟨inner, foundInner, rfl⟩ := Option.map_eq_some_iff.1 found
      obtain ⟨body, isBody, taken⟩ := inductionHypothesis foundInner
      exact ⟨_, .plain notQuote (by simpa using notEscape) isBody,
        by rw [List.take_succ_cons, taken]; rfl⟩

/-- What wins as a quoted text is a body between two quotes. -/
theorem quotedBody_of_best? {input : List UInt8} {size : Nat} (someBytes : input ≠ [])
    (found : Lexer.best? rules input = some (some .text, size)) :
    ∃ quote body, isQuoteByte quote = true ∧ QuotedBody quote body ∧
      input.take size = quote :: body ++ [quote] := by
  obtain ⟨byte, rest, rfl⟩ := List.exists_cons_of_ne_nil someBytes
  obtain ⟨before, rule, after, split, sameKind, wins⟩ := Lexer.exists_wins_of_best? found
  have member : rule ∈ rules := split ▸ List.mem_append_right _ List.mem_cons_self
  cases fits_of_match member wins.found with
  | text isQuote =>
      have through : (Lexer.Pattern.throughQuote byte (some (Text.byteOf '\\')) rest).map (· + 1) =
          some size := (if_pos rfl).symm.trans wins.found
      obtain ⟨inner, foundInner, rfl⟩ := Option.map_eq_some_iff.1 through
      obtain ⟨body, isBody, taken⟩ := quotedBody_of_throughQuote foundInner
      refine ⟨byte, body, lead_eq_quote_iff.1 isQuote, isBody, ?_⟩
      rw [List.take_succ_cons, taken]
      rfl
  | _ => cases sameKind

/-- Every quoted text that the lexer finds is a body between two quotes. -/
theorem quotedBody_of_scan {source : List UInt8} {token : Token}
    (member : token ∈ (scanWith rules source).tokens) (isText : token.kind = .text) :
    ∃ quote body, isQuoteByte quote = true ∧ QuotedBody quote body ∧
      token.lexeme = quote :: body ++ [quote] := by
  obtain ⟨before, after, split, -⟩ := exists_of_mem_located member
  obtain ⟨someBytes, cut⟩ := Lexer.cut_of_pieces split
  obtain ⟨size, found, lexeme⟩ :=
    best?_of_cut (show Lexer.Cut rules _ (Lexer.Piece.made (some token.kind) token.lexeme) from cut)
  rw [isText] at found
  rw [lexeme]
  exact quotedBody_of_best? someBytes found

theorem QuotedBody.not_endsInEscape {quote : UInt8} {body : List UInt8}
    (isBody : QuotedBody quote body) : endsInEscape body = false := by
  induction isBody with
  | nil => rfl
  | @plain byte rest notQuote notEscape _ inductionHypothesis =>
      cases rest with
      | nil => exact beq_false_of_ne notEscape
      | cons next rest => rw [endsInEscape, if_neg notEscape, inductionHypothesis]
  | escaped byte _ inductionHypothesis => rw [endsInEscape, if_pos rfl, inductionHypothesis]

/-- Any bytes, written between either quote, are scanned as a single token that covers all that is
written, and stand for themselves again without the quotes. Whatever is scanned, the escapes of a
quoted text are resolved without coming to a backslash at the very end. -/
theorem quoted_texts_are_exact :
    (∀ (quote : UInt8) (content : List UInt8), isQuoteByte quote = true →
      scanWith rules (writtenQuoted quote content) =
          ⟨[⟨.text, writtenQuoted quote content,
            ⟨0, (writtenQuoted quote content).length.toUInt64⟩⟩], none⟩ ∧
        unquote (writtenQuoted quote content) = content) ∧
      ∀ (source : List UInt8), ∀ token ∈ (scanWith rules source).tokens, token.kind = .text →
        endsInEscape (token.lexeme.drop 1).dropLast = false := by
  refine ⟨fun quote content isQuote => ?_, fun source token member isText => ?_⟩
  · have escapes := escapes_guarded isQuote content
    have scanned : Scans 0 (writtenQuoted quote content ++ []) _ :=
      (escapes.spells isQuote).scans_token trivial (Scans.nil _)
    rw [List.append_nil] at scanned
    refine ⟨?_, escapes.unquote⟩
    rw [scanned.scanWith, spanAt, Nat.zero_add]
    rfl
  · obtain ⟨quote, body, -, isBody, lexeme⟩ := quotedBody_of_scan member isText
    rw [lexeme]
    simpa using isBody.not_endsInEscape

/-- Two quotes of the other kind, a backslash, an escaped letter and a quote of the kind at the
end. -/
theorem quotes_and_backslashes_are_exact :
    scanWith rules (Text.bytes "\"'\\\\n''\\\"\"") =
        ⟨[⟨.text, Text.bytes "\"'\\\\n''\\\"\"", ⟨0, 10⟩⟩], none⟩ ∧
      unquote (Text.bytes "\"'\\\\n''\\\"\"") = Text.bytes "'\\n''\"" ∧
      endsInEscape (Text.bytes "'\\\\n''\\\"") = false := by
  have written : Text.bytes "\"'\\\\n''\\\"\"" =
      writtenQuoted (Text.byteOf '"') (Text.bytes "'\\n''\"") := by decide
  obtain ⟨exact, closed⟩ := quoted_texts_are_exact
  obtain ⟨scanned, content⟩ := exact (Text.byteOf '"') (Text.bytes "'\\n''\"") (by decide)
  rw [← written] at scanned content
  refine ⟨scanned, content, ?_⟩
  have single := closed (Text.bytes "\"'\\\\n''\\\"\"") _
    (by rw [scanned]; exact List.mem_cons_self) rfl
  exact single

end Token
end ScopeScript
