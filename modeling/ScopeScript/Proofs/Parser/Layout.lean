import ScopeScript.Proofs.Lexer.Layout
import ScopeScript.Proofs.Parser.Grammar
import ScopeScript.Proofs.Parser.Offset

/-!
# Layout does not matter

A parser looks at the kinds and lexemes of tokens only, and forgetting all places is a relocation.
So two texts in which the same lexemes are laid out differently are read as the same program up to
the spans, or refused with the same message (`written_lexemes_are_read`).
-/

namespace ScopeScript

/-- The program without its spans. -/
def Program.unplaced (program : Program) : Program :=
  program.mapSpans fun _ => .null

namespace Relocation

/-- Forget all places. -/
def forget : Relocation where
  move _ := .null
  Covers _ := True
  covers_extend _ _ := trivial
  move_extend _ _ := by decide

theorem map_forget_token {tokens others : List Token}
    (same : tokens.map Token.word = others.map Token.word) :
    tokens.map forget.token = others.map forget.token := by
  have byWord : forget.token = (fun word => ⟨word.1, word.2, .null⟩) ∘ Token.word := rfl
  rw [byWord, ← List.map_map, same, List.map_map]

theorem forget_covers (stream : Parser.Stream) : forget.CoversStream stream :=
  ⟨fun _ _ => trivial, fun _ _ => trivial, trivial⟩

end Relocation

namespace Parser

open Relocation (forget)

/-- Two attempts to read something agree up to places. -/
inductive Alike (unplaced : α → α) : Except Diagnostic α → Except Diagnostic α → Prop
  | ok {value other : α} :
      unplaced value = unplaced other → Alike unplaced (.ok value) (.ok other)
  | error {diagnostic other : Diagnostic} :
      diagnostic.kind = other.kind → diagnostic.message = other.message →
      Alike unplaced (.error diagnostic) (.error other)

section

variable {Corresponds : α → α → Prop} {parser : Nat → Parser α} {unplaced : α → α}

/-- Tokens with the same words are read alike: both attempts follow the one on the tokens without
places. -/
theorem runOn_alike (commutes : ∀ fuel, forget.Commutes Corresponds (parser fuel) (parser fuel))
    (forgets : ∀ value moved, Corresponds value moved → moved = unplaced value)
    {tokens others : List Token} (same : tokens.map Token.word = others.map Token.word)
    (size otherSize : Nat) :
    Alike unplaced (runOn parser tokens size 0) (runOn parser others otherSize 0) := by
  have fuel : tokens.length = others.length := by simpa using congrArg List.length same
  simp only [runOn, Token.map_shift_zero, fuel]
  generalize first : (⟨tokens, none, _⟩ : Stream) = stream
  generalize second : (⟨others, none, _⟩ : Stream) = otherStream
  have forgotten : forget.stream stream = forget.stream otherStream := by
    rw [← first, ← second]
    exact congrArg (Stream.mk · none .null) (Relocation.map_forget_token same)
  have ran := commutes (others.length + 1) stream (Relocation.forget_covers _)
  have otherRan := commutes (others.length + 1) otherStream (Relocation.forget_covers _)
  rw [← forgotten] at otherRan
  cases read : parser (others.length + 1) stream with
  | ok result =>
      rw [read] at ran
      obtain ⟨-, moved, corresponds, readForgotten⟩ := ran
      cases otherRead : parser (others.length + 1) otherStream with
      | ok otherResult =>
          rw [otherRead] at otherRan
          obtain ⟨-, otherMoved, otherCorresponds, otherForgotten⟩ := otherRan
          have sameRead := Except.ok.inj (readForgotten.symm.trans otherForgotten)
          have sameMoved : moved = otherMoved := congrArg Prod.fst sameRead
          refine .ok ?_
          rw [← forgets _ _ corresponds, ← forgets _ _ otherCorresponds, sameMoved]
      | error fault =>
          rw [otherRead] at otherRan
          cases readForgotten.symm.trans otherRan.2
  | error fault =>
      rw [read] at ran
      cases otherRead : parser (others.length + 1) otherStream with
      | ok otherResult =>
          rw [otherRead] at otherRan
          obtain ⟨-, otherMoved, -, otherForgotten⟩ := otherRan
          cases ran.2.symm.trans otherForgotten
      | error otherFault =>
          rw [otherRead] at otherRan
          have sameFault := Except.error.inj (ran.2.symm.trans otherRan.2)
          exact .error (congrArg (·.diagnostic.kind) sameFault)
            (congrArg (·.diagnostic.message) sameFault)

theorem Alike.attach {first second : Except Diagnostic α} (alike : Alike unplaced first second)
    (path source otherPath otherSource : String) :
    Alike unplaced (first.mapError (Parser.attach path source 0))
      (second.mapError (Parser.attach otherPath otherSource 0)) := by
  cases alike with
  | ok same => exact .ok same
  | @error diagnostic other sameKind sameMessage =>
      obtain ⟨kind, message, -⟩ := attach_same path source 0 diagnostic
      obtain ⟨otherKind, otherMessage, -⟩ := attach_same otherPath otherSource 0 other
      refine .error ?_ ?_
      · rw [kind, otherKind, sameKind]
      · rw [message, otherMessage, sameMessage]

end

end Parser

namespace Token.Layout

/-- A parser that forgets nothing but places reads two layouts of the same lexemes alike. -/
theorem parseWith_alike {Corresponds : α → α → Prop} {parser : Nat → Parser α} {unplaced : α → α}
    (commutes : ∀ fuel, Relocation.forget.Commutes Corresponds (parser fuel) (parser fuel))
    (forgets : ∀ value moved, Corresponds value moved → moved = unplaced value)
    {layout other : Layout} (same : layout.lexemes = other.lexemes) {source otherSource : String}
    (written : Text.bytes source = layout.text)
    (otherWritten : Text.bytes otherSource = other.text) :
    Parser.Alike unplaced (Parser.parseWith parser source 0)
      (Parser.parseWith parser otherSource 0) := by
  simp only [Parser.parseWith, scan, written, otherWritten, scanWith_text]
  refine Parser.runOn_alike commutes forgets ?_ _ _
  rw [tokens_word, tokens_word, same]

/-- Lexemes that are laid out with any separators are read back, in their order, with their kinds
and where they were written, and nothing is reported. So a program or an expression is read the
same way, up to places, from every layout of its lexemes. -/
theorem written_lexemes_are_read (layout : Layout) :
    scanWith rules layout.text = ⟨layout.tokens, none⟩ ∧
      layout.tokens.map word = layout.lexemes ∧
      ∀ (other : Layout) (source otherSource path : String), layout.lexemes = other.lexemes →
        Text.bytes source = layout.text → Text.bytes otherSource = other.text →
        Parser.Alike Program.unplaced (Program.parse path source)
            (Program.parse path otherSource) ∧
          Parser.Alike Expr.unplaced (Expr.parse source) (Expr.parse otherSource) := by
  refine ⟨layout.scanWith_text, layout.tokens_word, ?_⟩
  intro other source otherSource path same written otherWritten
  constructor
  · exact (parseWith_alike .program (fun _ _ corresponds => corresponds.1) same written
      otherWritten).attach path source path otherSource
  · exact (parseWith_alike .wholeExpression (fun _ _ corresponds => corresponds.1) same written
      otherWritten).attach _ _ _ _

/-- No gap at all. -/
def narrow : Gap := ⟨[], .nil⟩

/-- A comment with a quote and a row of stars, a blank and an empty comment with its line break. -/
def wide : Gap where
  bytes := commentOpening ++ [34, 42, 42] ++ commentClosing ++ 32 :: (lineOpening ++ [] ++ [10])
  isGap := .closed (by decide) (.blank rfl (.line (by simp) .nil))

/-- The declaration of a variable, with a gap in front and behind each blank. -/
def declaration (gap : Gap) : Layout where
  opening := gap
  items :=
    let separator : Separator := ⟨32, rfl, gap⟩
    [(⟨_, _, .keyword .kwLet⟩, separator),
      (⟨_, [120], .name ⟨120, [], rfl, rfl, by simp⟩ fun word => by cases word <;> decide⟩,
        separator),
      (⟨_, _, .mark .assign⟩, separator),
      (⟨_, Text.byteOf '.' :: 53 :: [], .fraction rfl (by simp)⟩, separator)]
  last? := some ⟨_, _, .mark .semicolon⟩

/-- The same declaration is read from a text with single blanks and from one with comments. -/
theorem declaration_is_read :
    ∃ source : String, Text.bytes source = (declaration wide).text ∧
      Text.bytes "let x = .5 ;" = (declaration narrow).text ∧
      scanWith rules (declaration wide).text = ⟨(declaration wide).tokens, none⟩ ∧
      Parser.Alike Program.unplaced (Program.parse "a" source)
        (Program.parse "a" "let x = .5 ;") := by
  obtain ⟨scanned, -, parsed⟩ := written_lexemes_are_read (declaration wide)
  have written : Text.bytes ("/*\"***/ //\nlet /*\"***/ //\nx /*\"***/ //\n= /*\"***/ //\n" ++
      ".5 /*\"***/ //\n;") = (declaration wide).text := by decide +kernel
  have narrowWritten : Text.bytes "let x = .5 ;" = (declaration narrow).text := by decide +kernel
  exact ⟨_, written, narrowWritten, scanned,
    (parsed (declaration narrow) _ _ "a" rfl written narrowWritten).1⟩

end Token.Layout

end ScopeScript
