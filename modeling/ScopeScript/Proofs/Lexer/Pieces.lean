import ScopeScript.Proofs.Lexer.Matching

/-!
# Pieces of a scanned text

At every place the longest match wins, and of several longest ones the first
(`exists_wins_of_best?`, `best?_of_wins`).
Cutting a text proceeds from the front (`Cut`): each piece is what the rules make of the text from
its place on (`cut_of_pieces`), and a text whose front is made into a piece is cut into that piece
and the pieces of the rest (`pieces_of_best?`).
-/

namespace ScopeScript
namespace Lexer

variable {κ : Type} {rules : List (Rule κ)} {input : List UInt8}

/-- There is no winner exactly if no rule matches. -/
theorem best?_eq_none_iff :
    best? rules input = none ↔ ∀ rule ∈ rules, rule.pattern.longest? input = none := by
  induction rules with
  | nil => simp [best?]
  | cons rule rules inductionHypothesis =>
      rw [List.forall_mem_cons, ← inductionHypothesis, best?]
      split
      · simp_all
      · simp_all
      · split <;> simp_all

/-- A rule wins at the front of a text: it matches more than the rules in front of it and no less
than those behind it. -/
structure Wins (before : List (Rule κ)) (rule : Rule κ) (after : List (Rule κ))
    (input : List UInt8) (size : Nat) : Prop where
  found : rule.pattern.longest? input = some size
  before_lt : ∀ other ∈ before, ∀ smaller, other.pattern.longest? input = some smaller →
    smaller < size
  after_le : ∀ other ∈ after, ∀ smaller, other.pattern.longest? input = some smaller →
    smaller ≤ size

/-- Nothing that a rule matches is longer than the winning match. -/
theorem Wins.le {before after : List (Rule κ)} {rule other : Rule κ} {size smaller : Nat}
    (wins : Wins before rule after input size) (member : other ∈ before ++ rule :: after)
    (matched : other.pattern.longest? input = some smaller) : smaller ≤ size := by
  rcases List.mem_append.1 member with early | late
  · exact Nat.le_of_lt (wins.before_lt other early smaller matched)
  · rcases List.mem_cons.1 late with rfl | late
    · cases wins.found.symm.trans matched
      exact Nat.le_refl _
    · exact wins.after_le other late smaller matched

/-- The winner is one of the rules, and none before it matches as much. -/
theorem exists_wins_of_best? {kind? : Option κ} {size : Nat}
    (found : best? rules input = some (kind?, size)) :
    ∃ before rule after, rules = before ++ rule :: after ∧ rule.kind? = kind? ∧
      Wins before rule after input size := by
  induction rules generalizing kind? size with
  | nil => cases found
  | cons rule rules inductionHypothesis =>
      rw [best?] at found
      split at found
      · rename_i nothing
        obtain ⟨before, winner, after, rfl, sameKind, wins⟩ := inductionHypothesis found
        refine ⟨rule :: before, winner, after, rfl, sameKind, wins.found, ?_, wins.after_le⟩
        rw [List.forall_mem_cons]
        refine ⟨fun smaller matched => ?_, wins.before_lt⟩
        cases nothing.symm.trans matched
      · rename_i first nothing
        cases found
        refine ⟨[], rule, rules, rfl, rfl, first, by simp, fun other member smaller matched => ?_⟩
        cases (best?_eq_none_iff.1 nothing other member).symm.trans matched
      · rename_i size otherKind? otherSize first others
        obtain ⟨before, winner, after, rfl, sameKind, wins⟩ := inductionHypothesis others
        split at found
        · rename_i smaller
          cases found
          refine ⟨rule :: before, winner, after, rfl, sameKind, wins.found, ?_, wins.after_le⟩
          rw [List.forall_mem_cons]
          refine ⟨fun matchedSize matched => ?_, wins.before_lt⟩
          cases first.symm.trans matched
          exact smaller
        · rename_i notSmaller
          cases found
          refine ⟨[], rule, _, rfl, rfl, first, by simp, fun other member smaller matched => ?_⟩
          exact Nat.le_trans (wins.le member matched) (Nat.not_lt.1 notSmaller)

/-- A rule that wins is the winner. -/
theorem best?_of_wins {before after : List (Rule κ)} {rule : Rule κ} {size : Nat}
    (wins : Wins before rule after input size) :
    best? (before ++ rule :: after) input = some (rule.kind?, size) := by
  induction before with
  | nil =>
      rw [List.nil_append, best?, wins.found]
      cases others : best? after input with
      | none => rfl
      | some other =>
          obtain ⟨earlier, winner, later, rfl, _, otherWins⟩ := exists_wins_of_best? others
          have noLonger := wins.after_le winner (by simp) _ otherWins.found
          exact if_neg (Nat.not_lt.2 noLonger)
  | cons other before inductionHypothesis =>
      have rest := inductionHypothesis
        ⟨wins.found, fun rule member => wins.before_lt rule (List.mem_cons_of_mem _ member),
          wins.after_le⟩
      rw [List.cons_append, best?, rest]
      cases matched : other.pattern.longest? input with
      | none => rfl
      | some smaller => exact if_pos (wins.before_lt other List.mem_cons_self smaller matched)

/-- A rule wins if every other match is shorter. -/
theorem best?_of_forall {rule : Rule κ} {size : Nat} (member : rule ∈ rules)
    (found : rule.pattern.longest? input = some size)
    (others : ∀ other ∈ rules, ∀ smaller, other.pattern.longest? input = some smaller →
      other = rule ∨ smaller < size) :
    best? rules input = some (rule.kind?, size) := by
  obtain ⟨before, after, rfl, notBefore⟩ := List.eq_append_cons_of_mem member
  refine best?_of_wins ⟨found, fun other isBefore smaller matched => ?_,
    fun other isAfter smaller matched => ?_⟩
  · rcases others other (by simp [isBefore]) smaller matched with rfl | shorter
    · exact absurd isBefore notBefore
    · exact shorter
  · rcases others other (by simp [isAfter]) smaller matched with rfl | shorter
    · cases found.symm.trans matched
      exact Nat.le_refl _
    · exact Nat.le_of_lt shorter

/-- What is viable is bounded by the bounds of all rules. -/
theorem viable_le {bound : Nat} (small : ∀ rule ∈ rules, rule.pattern.viable input ≤ bound) :
    viable rules input ≤ bound := by
  induction rules with
  | nil => exact Nat.zero_le _
  | cons rule rules inductionHypothesis =>
      rw [List.forall_mem_cons] at small
      exact Nat.max_le.2 ⟨small.1, inductionHypothesis small.2⟩

/-- What is viable for a rule is so for the rules. -/
theorem le_viable {rule : Rule κ} (member : rule ∈ rules) :
    rule.pattern.viable input ≤ viable rules input := by
  induction rules with
  | nil => cases member
  | cons other rules inductionHypothesis =>
      rcases List.mem_cons.1 member with rfl | member
      · exact Nat.le_max_left _ _
      · exact Nat.le_trans (inductionHypothesis member) (Nat.le_max_right _ _)

/-- What the rules make of the front of a text. -/
inductive Cut (rules : List (Rule κ)) (input : List UInt8) : Piece κ → Prop
  | made {kind? : Option κ} {size : Nat} :
      best? rules input = some (kind?, size) → 0 < size →
      Cut rules input (Piece.made kind? (input.take size))
  | unrecognised :
      input ≠ [] → (∀ kind? size, best? rules input = some (kind?, size) → size = 0) →
      Cut rules input (.unrecognised (input.take (viable rules input + 1)))

/-- Cutting takes one piece off the front and goes on with the rest. -/
theorem pieces_eq_cons (rules : List (Rule κ)) (someBytes : input ≠ []) :
    ∃ piece, Cut rules input piece ∧
      pieces rules input = piece :: pieces rules (input.drop piece.bytes.length) := by
  have rest (size : Nat) : input.drop size = input.drop (input.take size).length :=
    List.drop_eq_drop_iff.2 (by rw [List.length_take]; omega)
  obtain ⟨byte, tail, rfl⟩ := List.exists_cons_of_ne_nil someBytes
  rw [pieces]
  split
  · rename_i kind? size found
    refine ⟨_, .made found (Nat.succ_pos _), ?_⟩
    rw [Piece.bytes_made, ← rest]
    rfl
  · rename_i nothing
    refine ⟨_, .unrecognised someBytes fun kind? size found => ?_, ?_⟩
    · cases size with
      | zero => rfl
      | succ size => exact absurd found (nothing kind? size)
    · rw [Piece.bytes, ← rest]
      rfl

/-- Each piece is cut off the front of what the pieces in front of it leave. -/
theorem cut_of_pieces {source : List UInt8} {before after : List (Piece κ)} {piece : Piece κ}
    (split : pieces rules source = before ++ piece :: after) :
    source.drop (before.flatMap Piece.bytes).length ≠ [] ∧
      Cut rules (source.drop (before.flatMap Piece.bytes).length) piece := by
  induction before generalizing source with
  | nil =>
      have someBytes : source ≠ [] := by
        rintro rfl
        simp [pieces] at split
      obtain ⟨first, cut, shape⟩ := pieces_eq_cons rules someBytes
      obtain ⟨rfl, -⟩ := List.cons_eq_cons.1 (shape.symm.trans split)
      exact ⟨someBytes, cut⟩
  | cons front before inductionHypothesis =>
      have someBytes : source ≠ [] := by
        rintro rfl
        simp [pieces] at split
      obtain ⟨first, cut, shape⟩ := pieces_eq_cons rules someBytes
      obtain ⟨rfl, splitRest⟩ := List.cons_eq_cons.1 (shape.symm.trans split)
      rw [List.flatMap_cons, List.length_append, ← List.drop_drop]
      exact inductionHypothesis splitRest

/-- A text whose front is matched is cut into that match and the pieces of the rest. -/
theorem pieces_of_best? {lexeme rest : List UInt8} {kind? : Option κ} (someBytes : lexeme ≠ [])
    (found : best? rules (lexeme ++ rest) = some (kind?, lexeme.length)) :
    pieces rules (lexeme ++ rest) = Piece.made kind? lexeme :: pieces rules rest := by
  have nonempty : lexeme ++ rest ≠ [] := List.append_ne_nil_of_left_ne_nil someBytes rest
  obtain ⟨piece, cut, shape⟩ := pieces_eq_cons rules nonempty
  have positive := List.length_pos_iff.2 someBytes
  rw [shape]
  cases cut with
  | made foundOther _ =>
      cases found.symm.trans foundOther
      simp
  | unrecognised _ nothing =>
      have zero := nothing _ _ found
      omega

end Lexer
end ScopeScript
