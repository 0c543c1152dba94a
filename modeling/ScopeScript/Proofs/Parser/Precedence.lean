import ScopeScript.Parser.Source
import ScopeScript.Proofs.Parser.Grammar
import ScopeScript.Proofs.Parser.Reading

/-!
# Precedence

Whatever way an expression is written, it is read back, and nothing behind it is touched. The
productions of the parser are taken from tight to loose: if the parser of a level reads everything
written on that level, so does the parser of the next looser one. Nested expressions are shorter,
which closes the recursion.
-/

namespace ScopeScript
namespace Parser

open ScopeScript.Expr

/-! ## Levels -/

/-- The operators that bind exactly as tightly as a level. -/
def operatorsOf (level : Nat) : Level := fun kind =>
  kind.binaryOperator?.filter (·.tightness == level)

/-- The operators of a level are those of its tightness. -/
theorem operatorsOf_eq_some_iff {level : Nat} {kind : TokenKind} {operator : BinaryOperator} :
    operatorsOf level kind = some operator ↔
      kind.binaryOperator? = some operator ∧ operator.tightness = level := by
  simp [operatorsOf, Option.filter_eq_some_iff]

/-- The levels of the parser are those from 1 to 10, the loosest one first. -/
theorem binaryLevels_eq : binaryLevels = (List.range' 1 10).map operatorsOf := by
  simp only [binaryLevels, List.range', List.map, List.cons.injEq, and_true]
  refine ⟨?_, ?_, ?_, ?_, ?_, ?_, ?_, ?_, ?_, ?_⟩ <;> funext kind <;>
    rcases kind with _ | _ | _ | sign | word <;>
      first | rfl | (cases sign <;> rfl) | (cases word <;> rfl)

/-- The level of factors is the one behind them. -/
theorem factorLevel_eq : factorLevel = operatorsOf 11 := by
  funext kind
  cases kind with
  | mark sign => cases sign <;> rfl
  | keyword word => cases word <;> rfl
  | _ => rfl

theorem unaryOperator?_eq (kind : TokenKind) : unaryOperator? kind = kind.unaryOperator? := by
  cases kind with
  | mark sign => cases sign <;> rfl
  | keyword word => cases word <;> rfl
  | _ => rfl

namespace Reads

variable {rest : List Token} {token : Token}

/-- An operator of the level is found in front of the rest. -/
theorem operatorAhead {level : Level} {operator : BinaryOperator}
    (found : level token.kind = some operator) :
    Reads (operatorAhead? level) (token :: rest) (token :: rest) (· = some operator) :=
  frontKind?.bind_eq (result (by simpa using found))

/-- What ends a level has none of its operators in front. -/
theorem noOperatorAhead {level : Nat} (ends : Ends level rest) :
    Reads (operatorAhead? (operatorsOf level)) rest rest (· = Option.none) := by
  refine frontKind?.bind_eq (result ?_)
  rw [Option.bind_eq_none_iff]
  intro kind found
  obtain ⟨token, ahead, rfl⟩ := Option.map_eq_some_iff.1 found
  refine Option.eq_none_iff_forall_ne_some.2 fun operator reached => ?_
  obtain ⟨written, same⟩ := operatorsOf_eq_some_iff.1 reached
  have looser := ends token ahead _ (joint?_of_binaryOperator? written)
  omega

/-- A name of a member is read as its text. -/
theorem memberName (names : token.kind.namesMember = true) :
    Reads Parser.memberName (token :: rest) rest (· = token.text) := by
  refine front?.bind_eq ?_
  cases kind : token.kind with
  | keyword word =>
      simp only [List.head?_cons, kind]
      exact advance.bind_any fun _ => result rfl
  | name =>
      simp only [List.head?_cons, kind]
      exact (expect kind).bind_eq (result rfl)
  | _ => simp [kind, TokenKind.namesMember] at names

end Reads

/-- A parser reads everything that is written on a level with at most so many tokens. -/
def ReadsLevel (parser : Parser Expr) (level bound : Nat) : Prop :=
  ∀ {expr : Expr} {tokens rest : List Token}, Written level expr tokens → tokens.length ≤ bound →
    Ends level rest → Reads parser (tokens ++ rest) rest (·.unplaced = expr.unplaced)

/-- What the productions rely on: nested expressions of limited length are read, and repetitions
have enough fuel for one more token. -/
structure Able (operands : Operands) (bound : Nat) : Prop where
  expression : ReadsLevel operands.expression 0 bound
  unary : ReadsLevel operands.unary 12 bound
  fuel : bound < operands.fuel

variable {operands : Operands} {bound : Nat}

/-! ## Operands that go on to the right -/

/-- Behind an operand, a loop with some fuel or more reads as `Result` says. -/
def Ready (loop : Nat → Expr → Parser Expr) (fuel : Nat) (left : Expr) (input rest : List Token)
    (Result : Expr → Prop) : Prop :=
  ∀ read more, read.unplaced = left.unplaced → fuel ≤ more →
    Reads (loop more read) input rest Result

/-- Whatever has exactly the tightness of a level is made from another operand of the level by
some tokens behind it, for which a loop takes one turn. -/
def Turns (loop : Nat → Expr → Parser Expr) (level bound : Nat) : Prop :=
  ∀ {expr : Expr} {tokens : List Token}, expr.tightness = level → Shape expr tokens →
    tokens.length ≤ bound → ∃ left leftTokens behind, tokens = leftTokens ++ behind ∧
      behind ≠ [] ∧ Written level left leftTokens ∧ ∀ {rest : List Token}, Ends (level + 1) rest →
        Ends (level + 1) (behind ++ rest) ∧ ∀ {fuel final Result},
          Ready loop fuel expr rest final Result →
            Ready loop (fuel + 1) left (behind ++ rest) final Result

/-- An operand and the turns of a loop behind it: the expression is taken apart at its right end,
while the loop builds it up from the left. -/
theorem reads_turns {operand : Parser Expr} {loop : Nat → Expr → Parser Expr} {level fuel : Nat}
    (operandReads : ReadsLevel operand (level + 1) bound) (turns : Turns loop level bound)
    {expr : Expr} {tokens rest final : List Token} {Result : Expr → Prop}
    (written : Written level expr tokens) (short : tokens.length ≤ bound)
    (ends : Ends (level + 1) rest) (ready : Ready loop fuel expr rest final Result)
    {more : Nat} (enough : fuel + tokens.length ≤ more) :
    Reads (operand >>= loop more) (tokens ++ rest) final Result := by
  -- What is taken off at the right end in a step of the induction is the last turn of the loop, so
  -- the loop needs one turn more behind what is left.
  induction size : tokens.length using Nat.strongRecOn
    generalizing expr tokens rest fuel with
  | _ size inductionHypothesis =>
      rcases written.tighter with ⟨tight, shape⟩ | tighter
      · obtain ⟨left, leftTokens, behind, rfl, nonempty, leftWritten, turn⟩ :=
          turns tight shape short
        obtain ⟨endsBehind, goesOn⟩ := turn ends
        have shorter := List.length_pos_iff.2 nonempty
        rw [List.length_append] at short enough size
        rw [List.append_assoc]
        exact inductionHypothesis _ (by omega) leftWritten (by omega) endsBehind (goesOn ready)
          (by omega) rfl
      · exact (operandReads tighter short ends).bind fun read same =>
          ready read more same (by omega)

/-- An operand and the loop behind it read a level if the loop stops where the level ends. -/
theorem ReadsLevel.loop {operand : Parser Expr} {loop : Nat → Expr → Parser Expr}
    {level fuel : Nat} (operandReads : ReadsLevel operand (level + 1) bound)
    (turns : Turns loop level bound)
    (stops : ∀ {rest : List Token}, Ends level rest → ∀ fuel expr,
      Reads (loop fuel expr) rest rest (· = expr))
    (enough : bound ≤ fuel) : ReadsLevel (operand >>= loop fuel) level bound := by
  intro expr tokens rest written short ends
  have ready : Ready loop 0 expr rest rest (·.unplaced = expr.unplaced) := by
    intro read more same _ previous? endSpan
    obtain ⟨_, last?, ran, rfl⟩ := stops ends more read previous? endSpan
    exact ⟨_, last?, ran, same⟩
  exact reads_turns operandReads turns written short (ends.mono (Nat.le_succ level)) ready
    (by omega)

/-! ## Closed expressions and member accesses -/

/-- Nothing that is written begins with a mark that closes a list. -/
theorem kind_ne_of_written {level : Nat} {expr : Expr} {tokens rest : List Token} {close : Mark}
    (closes : close = .rightParen ∨ close = .rightBracket) (written : Written level expr tokens) :
    ∀ token, (tokens ++ rest).head? = some token → token.kind ≠ .mark close := by
  obtain ⟨token, others, rfl, begins⟩ := written.exists_first
  rintro _ ⟨⟩ kind
  rcases closes with rfl | rfl <;> simp [kind, TokenKind.opens, TokenKind.unaryOperator?] at begins

/-- Items are read up to the closing mark. -/
theorem Able.itemsUntil (able : Able operands bound) {close : Mark} {closing : Token}
    (closes : close = .rightParen ∨ close = .rightBracket) (last : closing.kind = .mark close)
    (rest : List Token) {items : List Expr} {tokens : List Token} (written : Items items tokens)
    (short : tokens.length ≤ bound) {fuel : Nat} (enough : items.length ≤ fuel)
    (before : List Expr) :
    Reads (itemsUntil operands close fuel before) (tokens ++ closing :: rest) (closing :: rest)
      fun read => read.map unplaced = before.reverse.map unplaced ++ items.map unplaced := by
  induction fuel generalizing items tokens before with
  | zero =>
      cases written with
      | nil => exact Reads.result (by simp)
      | _ => cases enough
  | succ fuel inductionHypothesis =>
      cases written with
      | nil => exact (Reads.isAt_of_eq last).bind_eq (Reads.result (by simp))
      | last written =>
          refine (Reads.isAt_of_ne (kind_ne_of_written closes written)).bind_eq ?_
          have ends : Ends 0 (closing :: rest) := by
            refine ends_cons_of_none ?_ 0 rest
            rcases closes with rfl | rfl <;> rw [last] <;> rfl
          refine (able.expression written short ends).bind fun item same => ?_
          refine (Reads.accept_of_ne ?_).bind_eq (Reads.result (by simp [same]))
          rintro _ ⟨⟩
          rcases closes with rfl | rfl <;> simp [last]
      | @cons item items comma tokens others written separates itemsWritten =>
          rw [List.append_assoc, List.cons_append]
          simp only [List.length_append, List.length_cons] at short enough
          refine (Reads.isAt_of_ne (kind_ne_of_written closes written)).bind_eq ?_
          have ends : Ends 0 (comma :: (others ++ closing :: rest)) :=
            ends_cons_of_none (by rw [separates]; rfl) 0 _
          refine (able.expression written (by omega) ends).bind fun read same => ?_
          refine (Reads.accept_of_eq separates).bind_eq ?_
          have reads := inductionHypothesis itemsWritten (by omega) (by omega) (read :: before)
          simpa [same] using reads

/-- A list between two marks is read. -/
theorem Able.enclosedItems (able : Able operands bound) {opening close : Mark}
    (closes : close = .rightParen ∨ close = .rightBracket) {items : List Expr}
    {tokens : List Token} (enclosed : Enclosed opening close items tokens)
    (short : tokens.length ≤ bound + 1) (rest : List Token) :
    Reads (enclosedItems operands opening close) (tokens ++ rest) rest
      fun read => read.2.map unplaced = items.map unplaced := by
  obtain ⟨first, written, last⟩ := enclosed
  simp only [List.cons_append, List.append_assoc, List.nil_append, List.length_cons,
    List.length_append] at short ⊢
  have count := written.length_le
  have fuel := able.fuel
  refine Reads.here.bind_any fun start => (Reads.expectMark first).bind_any fun _ => ?_
  have countEnough : items.length ≤ operands.fuel := by omega
  have reads := able.itemsUntil closes last rest written (by omega) countEnough []
  refine reads.bind fun read same => (Reads.expectMark last).bind_any fun _ => ?_
  exact (Reads.since start).bind_any fun span => Reads.result (by simpa using same)

/-- Everything closed is read. -/
theorem Able.primary (able : Able operands bound) :
    ReadsLevel (primary operands) 15 (bound + 1) := by
  intro expr tokens rest written short ends
  refine Reads.here.bind_any fun start => Reads.front?.bind_eq ?_
  cases written with
  | @parenthesised _ _ opening closing tokens first inner last =>
      simp only [List.cons_append, List.append_assoc, List.nil_append, List.length_cons,
        List.length_append] at short ⊢
      simp only [List.head?_cons, first]
      have ends : Ends 0 (closing :: rest) := ends_cons_of_none (by rw [last]; rfl) 0 rest
      refine Reads.advance.bind_any fun _ => ?_
      refine (able.expression inner (by omega) ends).bind fun read same => ?_
      exact (Reads.expectMark last).bind_any fun _ => Reads.result same
  | bare least shape =>
      cases shape with
      | number kind value =>
          simp only [List.cons_append, List.head?_cons, kind, value]
          exact Reads.advance.bind_any fun _ => Reads.result rfl
      | text kind content =>
          simp only [List.cons_append, List.head?_cons, kind, content]
          exact Reads.advance.bind_any fun _ => Reads.result rfl
      | @bool _ value _ kind =>
          cases value <;> simp only [List.cons_append, List.head?_cons, kind] <;>
            exact Reads.advance.bind_any fun _ => Reads.result rfl
      | none kind =>
          simp only [List.cons_append, List.head?_cons, kind]
          exact Reads.advance.bind_any fun _ => Reads.result rfl
      | name kind label =>
          simp only [List.cons_append, List.head?_cons, kind, label]
          refine Reads.advance.bind_any fun _ => ?_
          exact (Reads.isAt_of_ne (ends.kind_ne rfl (Nat.le_refl 15))).bind_eq (Reads.result rfl)
      | sequence enclosed =>
          have reads := able.enclosedItems (.inr rfl) enclosed short rest
          obtain ⟨first, written, last⟩ := enclosed
          simp only [List.cons_append, List.head?_cons, first]
          exact reads.bind fun read same => Reads.result (by simp [same])
      | call kind label enclosed =>
          simp only [List.cons_append, List.head?_cons, kind, label]
          refine Reads.advance.bind_any fun _ => ?_
          have reads := able.enclosedItems (.inl rfl) enclosed (Nat.le_of_succ_le short) rest
          obtain ⟨first, written, last⟩ := enclosed
          refine (Reads.isAt_of_eq first).bind_eq (reads.bind fun read same => ?_)
          exact (Reads.since start).bind_any fun span => Reads.result (by simp [same])
      | binary other =>
          have loose := (BinaryOperator.tightness_of_ne_power other rfl).2
          exact absurd (Nat.le_trans least loose) (by decide)
      | _ => simp [tightness, BinaryOperator.tightness] at least

/-- A member access is its object and what stands behind it. -/
theorem Able.turns_membersOf (able : Able operands bound) (start : Span) :
    Turns (membersOf operands start) 14 (bound + 1) := by
  intro expr tokens tight shape short
  cases shape with
  | @member span nameSpan object label dot token tokens written first names spelled =>
      refine ⟨object, tokens, [dot, token], rfl, List.cons_ne_nil _ _, written, fun ends => ?_⟩
      refine ⟨ends_cons (by rw [first]; rfl) (Nat.lt_succ_self 14) _, ?_⟩
      intro fuel final Result ready read more same enough
      obtain ⟨more, rfl⟩ := Nat.exists_eq_add_of_lt enough
      refine (Reads.accept_of_eq first).bind_eq (Reads.here.bind_any fun nameStart => ?_)
      refine (Reads.memberName names).bind_eq ?_
      refine (Reads.isAt_of_ne (ends.kind_ne rfl (Nat.le_refl 15))).bind_eq ?_
      refine (Reads.since start).bind_any fun whole => ?_
      exact ready _ _ (by simp [same, spelled]) (Nat.le_add_right fuel more)
  | @method span callSpan argumentsSpan object callee arguments dot token tokens argumentTokens
      written first names spelled enclosed =>
      refine ⟨object, tokens, dot :: token :: argumentTokens, rfl, List.cons_ne_nil _ _, written,
        fun {rest} ends => ?_⟩
      refine ⟨ends_cons (by rw [first]; rfl) (Nat.lt_succ_self 14) _, ?_⟩
      intro fuel final Result ready read more same enough
      obtain ⟨more, rfl⟩ := Nat.exists_eq_add_of_lt enough
      simp only [List.length_append, List.length_cons] at short
      refine (Reads.accept_of_eq first).bind_eq (Reads.here.bind_any fun nameStart => ?_)
      refine (Reads.memberName names).bind_eq ?_
      have reads := able.enclosedItems (.inl rfl) enclosed (by omega) rest
      obtain ⟨opens, items, closes⟩ := enclosed
      refine (Reads.isAt_of_eq opens).bind_eq (reads.bind fun argumentsRead sameArguments => ?_)
      refine (Reads.since nameStart).bind_any fun callRead => ?_
      refine (Reads.since start).bind_any fun whole => ?_
      exact ready _ _ (by simp [same, spelled, sameArguments]) (Nat.le_add_right fuel more)
  | @index span object key opening closing tokens keyTokens written first keyWritten last =>
      rw [List.append_assoc, List.cons_append] at short ⊢
      refine ⟨object, tokens, opening :: (keyTokens ++ [closing]), rfl, List.cons_ne_nil _ _,
        written, fun {rest} ends => ?_⟩
      refine ⟨ends_cons (by rw [first]; rfl) (Nat.lt_succ_self 14) _, ?_⟩
      intro fuel final Result ready read more same enough
      obtain ⟨more, rfl⟩ := Nat.exists_eq_add_of_lt enough
      simp only [List.cons_append, List.append_assoc, List.nil_append, List.length_cons,
        List.length_append] at short ⊢
      refine (Reads.accept_of_ne ?_).bind_eq ((Reads.accept_of_eq first).bind_eq ?_)
      · rintro _ ⟨⟩
        simp [first]
      have ends : Ends 0 (closing :: rest) := ends_cons_of_none (by rw [last]; rfl) 0 rest
      refine (able.expression keyWritten (by omega) ends).bind fun keyRead sameKey => ?_
      refine (Reads.expectMark last).bind_any fun _ => (Reads.since start).bind_any fun whole => ?_
      exact ready _ _ (by simp [same, sameKey]) (Nat.le_add_right fuel more)
  | binary other => exact absurd (BinaryOperator.tightness_of_ne_power other tight) (by decide)
  | _ => simp [tightness, BinaryOperator.tightness] at tight

/-- Everything closed is read together with the member accesses behind it. -/
theorem Able.withMembers (able : Able operands bound) :
    ReadsLevel (withMembers operands) 14 (bound + 1) := by
  intro expr tokens rest written short ends
  refine Reads.here.bind_any fun start => ?_
  refine ReadsLevel.loop able.primary (able.turns_membersOf start) ?_ able.fuel written short ends
  intro rest ends fuel object
  cases fuel with
  | zero => exact Reads.result rfl
  | succ fuel =>
      refine (Reads.accept_of_ne (ends.kind_ne rfl (Nat.le_refl 14))).bind_eq ?_
      exact (Reads.accept_of_ne (ends.kind_ne rfl (Nat.le_refl 14))).bind_eq (Reads.result rfl)

/-! ## Powers and operators in front of an operand -/

/-- Powers are read. The exponent is read together with the operators in front of it. -/
theorem Able.power (able : Able operands bound) : ReadsLevel (power operands) 13 (bound + 1) := by
  intro expr tokens rest written short ends
  refine Reads.here.bind_any fun start => ?_
  rcases written.tighter with ⟨tight, shape⟩ | tighter
  · cases shape with
    | @power span base exponent caret baseTokens exponentTokens baseWritten kind exponentWritten =>
        simp only [List.append_assoc, List.cons_append, List.length_append,
          List.length_cons] at short ⊢
        have begins : Ends 14 (caret :: (exponentTokens ++ rest)) :=
          ends_cons (by rw [kind]; rfl) (Nat.lt_succ_self 13) _
        refine (able.withMembers baseWritten (by omega) begins).bind fun baseRead sameBase => ?_
        refine (Reads.accept_of_eq kind).bind_eq ?_
        refine (able.unary exponentWritten (by omega) ends.unary).bind fun exponentRead
          sameExponent => ?_
        refine (Reads.since start).bind_any fun whole => Reads.result ?_
        simp [sameBase, sameExponent]
    | binary other =>
        exact absurd (BinaryOperator.tightness_of_ne_power other tight) (by decide)
    | _ => simp [tightness] at tight
  · refine (able.withMembers tighter short (ends.mono (by omega))).bind fun read same => ?_
    exact (Reads.accept_of_ne (ends.kind_ne rfl (Nat.le_refl 13))).bind_eq (Reads.result same)

/-- Operands are read together with the operators in front of them. -/
theorem Able.unaryStep (able : Able operands bound) :
    ReadsLevel (unaryStep operands) 12 (bound + 1) := by
  intro expr tokens rest written short ends
  refine Reads.here.bind_any fun start => Reads.frontKind?.bind_eq ?_
  rcases written.tighter with ⟨tight, shape⟩ | tighter
  · cases shape with
    | @unary span operand operator token tokens sign operandWritten =>
        rw [← unaryOperator?_eq] at sign
        simp only [List.cons_append, List.head?_cons, Option.map_some, sign]
        refine Reads.advance.bind_any fun _ => ?_
        have shorter := Nat.le_of_succ_le_succ short
        refine (able.unary operandWritten shorter ends).bind fun read same => ?_
        exact (Reads.since start).bind_any fun whole => Reads.result (by simp [same])
    | binary other =>
        exact absurd (BinaryOperator.tightness_of_ne_power other tight) (by decide)
    | _ => simp [tightness, BinaryOperator.tightness] at tight
  · have reads := able.power tighter short (ends.mono (Nat.le_succ 12))
    obtain ⟨token, others, rfl, begins⟩ := tighter.exists_first
    have opens : token.kind.opens = true := by simpa using begins
    simp only [List.cons_append, List.head?_cons, Option.map_some]
    -- What opens something closed is no operator and no word that stands in front of an operand.
    cases kind : token.kind with
    | mark sign =>
        rw [kind] at opens
        cases sign <;> first | exact reads | cases opens
    | keyword word =>
        rw [kind] at opens
        cases word <;> first | exact reads | cases opens
    | _ => exact reads

/-! ## Binary operators -/

/-- A binary expression of a level is its left operand and the operator with the right operand
behind it. -/
theorem turns_of_binary {loop : Nat → Expr → Parser Expr} {level : Nat} (binary : level ≤ 11)
    (positive : 0 < level)
    (turn : ∀ {operator token right rightTokens rest fuel left final Result},
      operatorsOf level token.kind = some operator → Written (level + 1) right rightTokens →
      rightTokens.length ≤ bound → Ends (level + 1) rest →
      (∀ span read, read.unplaced = right.unplaced →
        Reads (loop fuel (.binary span left operator read)) rest final Result) →
      Reads (loop (fuel + 1) left) (token :: rightTokens ++ rest) final Result) :
    Turns loop level bound := by
  intro expr tokens tight shape short
  cases shape with
  | @binary span left right operator token leftTokens rightTokens _ leftWritten sign rightWritten =>
      have tight : operator.tightness = level := tight
      subst tight
      refine ⟨left, leftTokens, token :: rightTokens, rfl, List.cons_ne_nil _ _, leftWritten, ?_⟩
      intro rest ends
      refine ⟨ends_cons (joint?_of_binaryOperator? sign) (Nat.lt_succ_self _) _, ?_⟩
      intro fuel final Result ready read more same enough
      obtain ⟨more, rfl⟩ := Nat.exists_eq_add_of_lt enough
      simp only [List.length_append, List.length_cons] at short
      refine turn (operatorsOf_eq_some_iff.2 ⟨sign, rfl⟩) rightWritten (by omega) ends ?_
      intro span rightRead sameRight
      exact ready _ _ (by simp [same, sameRight]) (Nat.le_add_right fuel more)
  | _ => simp only [tightness, BinaryOperator.tightness] at tight; omega

/-- Operands joined by the operators of a level are read if the operands are. -/
theorem ReadsLevel.chain {operand : Parser Expr} {level fuel : Nat} (binary : level ≤ 11)
    (positive : 0 < level) (operandReads : ReadsLevel operand (level + 1) bound)
    (enough : bound ≤ fuel) : ReadsLevel (chain fuel (operatorsOf level) operand) level bound := by
  intro expr tokens rest written short ends
  refine Reads.here.bind_any fun start => ?_
  refine ReadsLevel.loop operandReads (turns_of_binary binary positive ?_) ?_ enough written short
    ends
  · intro operator token right rightTokens rest fuel left final Result sign written short ends next
    refine (Reads.operatorAhead sign).bind_eq (Reads.advance.bind_any fun _ => ?_)
    refine (operandReads written short ends).bind fun read same => ?_
    exact (Reads.since start).bind_any fun span => next span read same
  · intro rest ends fuel left
    cases fuel with
    | zero => exact Reads.result rfl
    | succ fuel => exact (Reads.noOperatorAhead ends).bind_eq (Reads.result rfl)

/-- Where neither a name nor a parenthesis is next, a number is not multiplied with what follows,
and only an operator goes on with a product. -/
theorem reads_factorsFrom {start : Span} {fuel : Nat} {left : Expr}
    {input final : List Token} {Result : Expr → Prop}
    (explicit : ∀ token, input.head? = some token →
      token.kind ≠ .name ∧ token.kind ≠ .mark .leftParen)
    (reads : Reads (do
      match ← operatorAhead? (operatorsOf 11) with
      | Option.none => return left
      | some operator =>
          advance
          let right ← unaryStep operands
          factorsFrom operands start fuel (.binary (← since start) left operator right))
      input final Result) :
    Reads (factorsFrom operands start (fuel + 1) left) input final Result := by
  refine (Reads.isAt_of_ne fun token found => (explicit token found).1).bind_eq ?_
  refine (Reads.isAt_of_ne fun token found => (explicit token found).2).bind_eq ?_
  simp only [Bool.or_false, Bool.and_false, Bool.false_eq_true, if_false, factorLevel_eq]
  exact reads

/-- Products are read if their factors are. -/
theorem ReadsLevel.product (unary : ReadsLevel (unaryStep operands) 12 bound)
    (enough : bound ≤ operands.fuel) : ReadsLevel (product operands) 11 bound := by
  intro expr tokens rest written short ends
  refine Reads.here.bind_any fun start => ?_
  refine ReadsLevel.loop unary (turns_of_binary (by omega) (by omega) ?_) ?_ enough written short
    ends
  · intro operator token right rightTokens rest fuel left final Result sign written short ends next
    refine reads_factorsFrom ?_ ?_
    · -- An operator is neither a name nor a parenthesis.
      rintro _ ⟨⟩
      constructor <;> (intro kind; rw [kind] at sign; cases sign)
    refine (Reads.operatorAhead sign).bind_eq (Reads.advance.bind_any fun _ => ?_)
    refine (unary written short ends).bind fun read same => ?_
    exact (Reads.since start).bind_any fun span => next span read same
  · intro rest ends fuel left
    cases fuel with
    | zero => exact Reads.result rfl
    | succ fuel =>
        refine reads_factorsFrom (fun token found => ?_) ?_
        · exact ⟨ends.kind_ne rfl (by omega) token found, ends.kind_ne rfl (by omega) token found⟩
        exact (Reads.noOperatorAhead ends).bind_eq (Reads.result rfl)

/-- All binary levels are read if the operands of products are. -/
theorem ReadsLevel.binaryOf (unary : ReadsLevel (unaryStep operands) 12 bound)
    (enough : bound ≤ operands.fuel) : ∀ {level count : Nat}, 0 < level → level + count = 11 →
      ReadsLevel (binaryOf operands ((List.range' level count).map operatorsOf)) level bound
  | level, 0, _, last => by
      obtain rfl : level = 11 := last
      exact ReadsLevel.product unary enough
  | level, count + 1, positive, last => by
      rw [List.range'_succ, List.map_cons]
      exact ReadsLevel.chain (by omega) positive
        (ReadsLevel.binaryOf unary enough (Nat.succ_pos level) (by omega)) enough

/-! ## Expressions -/

/-- Conditionals are read. -/
theorem Able.expressionStep (able : Able operands bound) :
    ReadsLevel (expressionStep operands) 0 (bound + 1) := by
  intro expr tokens rest written short ends
  refine Reads.here.bind_any fun start => ?_
  have binaries : ReadsLevel (binaryOf operands binaryLevels) 1 (bound + 1) := by
    rw [binaryLevels_eq]
    exact ReadsLevel.binaryOf able.unaryStep able.fuel Nat.zero_lt_one rfl
  rcases written.tighter with ⟨tight, shape⟩ | tighter
  · cases shape with
    | @conditional span test consequent alternate question colon testTokens consequentTokens
        alternateTokens testWritten asks consequentWritten separates alternateWritten =>
        simp only [List.append_assoc, List.cons_append, List.length_append,
          List.length_cons] at short ⊢
        refine (binaries testWritten (by omega)
          (ends_cons (by rw [asks]; rfl) Nat.zero_lt_one _)).bind fun testRead sameTest => ?_
        refine (Reads.accept_of_eq asks).bind_eq ?_
        have ends' : Ends 0 (colon :: (alternateTokens ++ rest)) :=
          ends_cons_of_none (by rw [separates]; rfl) 0 _
        refine (able.expression consequentWritten (by omega) ends').bind fun consequentRead
          sameConsequent => ?_
        refine (Reads.expectMark separates).bind_any fun _ => ?_
        refine (able.expression alternateWritten (by omega) ends).bind fun alternateRead
          sameAlternate => ?_
        refine (Reads.since start).bind_any fun whole => Reads.result ?_
        simp [sameTest, sameConsequent, sameAlternate]
    | binary other =>
        exact absurd (BinaryOperator.tightness_of_ne_power other tight) (by decide)
    | _ => simp [tightness, BinaryOperator.tightness] at tight
  · refine (binaries tighter short (ends.mono (Nat.zero_le 1))).bind fun read same => ?_
    exact (Reads.accept_of_ne (ends.kind_ne rfl (Nat.le_refl 0))).bind_eq (Reads.result same)

/-- With some fuel, everything that takes at most that many tokens is read. -/
theorem able : ∀ fuel, Able ⟨expression fuel, unary fuel, fuel + 1⟩ fuel
  | 0 =>
      { expression := fun written short => absurd written.length_pos (by omega)
        unary := fun written short => absurd written.length_pos (by omega)
        fuel := Nat.zero_lt_one }
  | fuel + 1 =>
      { expression := (able fuel).expressionStep
        unary := (able fuel).unaryStep
        fuel := Nat.lt_succ_self _ }

/-- A whole text is read if its tokens write an expression. -/
theorem parse_of_written {expr : Expr} {source : String}
    (scanned : (Token.scan source).fault? = Option.none)
    (written : Written 0 expr (Token.scan source).tokens) :
    ∃ read, Expr.parse source = .ok read ∧ read.unplaced = expr.unplaced := by
  have reads : Reads (wholeExpression ((Token.scan source).tokens.length + 1))
      ((Token.scan source).tokens ++ []) [] (·.unplaced = expr.unplaced) := by
    refine ((able _).expression written (Nat.le_succ _) (ends_nil 0)).bind fun read same => ?_
    refine (Reads.accept_of_ne (by simp)).bind_eq ?_
    exact Reads.isAtEnd_nil.bind_eq (Reads.result same)
  rw [List.append_nil] at reads
  obtain ⟨read, last?, ran, same⟩ := reads Option.none
    ⟨(Text.size source).toUInt64 + 0, (Text.size source).toUInt64 + 0⟩
  refine ⟨read, ?_, same⟩
  simp only [Expr.parse, parseWith, scanned, runOn, Token.map_shift_zero, ran]
  rfl

/-- Whatever parentheses are put around operands beyond the necessary ones, and whether or not
commas are put behind the last items of lists, an expression is read from its tokens and from no
others, with the same operators applied to the same operands. Every expression made of the
constructs of the levels can be written in some way. -/
theorem written_expressions_are_read (expr : Expr) :
    (expr.Writable → ∃ tokens, Written 0 expr tokens) ∧
    ∀ tokens, Written 0 expr tokens →
      (∀ fuel rest previous? endSpan, tokens.length ≤ fuel → Ends 0 rest → ∃ read last?,
        expression fuel ⟨tokens ++ rest, previous?, endSpan⟩ =
            .ok (read, ⟨rest, last?, endSpan⟩) ∧
          read.unplaced = expr.unplaced) ∧
      ∀ source, (Token.scan source).fault? = Option.none → (Token.scan source).tokens = tokens →
        ∃ read, Expr.parse source = .ok read ∧ read.unplaced = expr.unplaced := by
  refine ⟨fun writable => ?_, fun tokens written => ⟨?_, ?_⟩⟩
  · obtain ⟨tokens, shape⟩ := Writable.exists_shape expr writable
    exact ⟨tokens, .bare (Nat.zero_le _) shape⟩
  · intro fuel rest previous? endSpan enough ends
    exact (able fuel).expression written enough ends previous? endSpan
  · rintro source scanned rfl
    exact parse_of_written scanned written

/-- In `f(-a ^ b * (c + d),)` the minus is applied to the power, and the negated power is
multiplied with the sum. -/
theorem negatedPower_is_read :
    ∃ read last?, expression 14 ⟨
      [Token.plain .name "f", Token.plain (.mark .leftParen) "(",
        Token.plain (.mark .minus) "-", Token.plain .name "a", Token.plain (.mark .caret) "^",
        Token.plain .name "b", Token.plain (.mark .star) "*",
        Token.plain (.mark .leftParen) "(", Token.plain .name "c", Token.plain (.mark .plus) "+",
        Token.plain .name "d", Token.plain (.mark .rightParen) ")",
        Token.plain (.mark .comma) ",", Token.plain (.mark .rightParen) ")"],
      Option.none, .null⟩ = .ok (read, ⟨[], last?, .null⟩) ∧
    read.unplaced = .call .null "f" .null
      [.binary .null
        (.unary .null .minus (.binary .null (.name .null "a") .power (.name .null "b")))
        .multiply (.binary .null (.name .null "c") .add (.name .null "d"))] := by
  have name (label : String) : Shape (.name .null label) [Token.plain .name label] :=
    .name rfl (Token.text_plain .name label)
  have power := @Shape.power .null _ _ (Token.plain (.mark .caret) "^") _ _
    (.bare (by decide) (name "a")) rfl (.bare (by decide) (name "b"))
  have negated := @Shape.unary .null _ .minus (Token.plain (.mark .minus) "-") _ rfl
    (.bare (by decide) power)
  have sum := @Shape.binary .null _ _ .add (Token.plain (.mark .plus) "+") _ _ (by decide)
    (.bare (by decide) (name "c")) rfl (.bare (by decide) (name "d"))
  have product := @Shape.binary .null _ _ .multiply (Token.plain (.mark .star) "*") _ _ (by decide)
    (.bare (by decide) negated) rfl
    (@Written.parenthesised 12 _ (Token.plain (.mark .leftParen) "(")
      (Token.plain (.mark .rightParen) ")") _ rfl (.bare (by decide) sum) rfl)
  have items := @Items.cons _ _ (Token.plain (.mark .comma) ",") _ _ (.bare (by decide) product) rfl
    .nil
  have call := @Shape.call .null .null "f" _ _ _ rfl (Token.text_plain .name "f")
    (@Enclosed.between .leftParen .rightParen _ (Token.plain (.mark .leftParen) "(")
      (Token.plain (.mark .rightParen) ")") _ rfl items rfl)
  exact ((written_expressions_are_read _).2 _ (.bare (by decide) call)).1 14 [] Option.none .null
    (by decide) (ends_nil 0)

end Parser
end ScopeScript
