import ScopeScript.Proofs.Interpreter.Teardown
import ScopeScript.Proofs.Locating.Evaluation

/-!
# The files that diagnostics name

A run that ends with a diagnostic of the evaluation names a file that it has opened, with its text
(`diagnostics_are_located`). The span is that of a node in this file, unless the node is in the body
of a function or in a formula. Such code has no file of its own, and a diagnostic from inside it
names the file that is executed when the code is evaluated, so its span may refer to another text
than the one it comes with. That a method of a map comes from the prelude is never told.

The store is in order as long as the numbers of its slots fit, so nothing is told of runs that use
up the numbers.
-/

namespace ScopeScript

namespace Interpreter

/-- The files of a run. -/
def sources (interpreter : Interpreter) (path source : String) : Sources :=
  ⟨⟨path, source⟩, interpreter.config.files⟩

theorem points_evalProgram (sources : Sources) {program : Program}
    (parsed : Program.parse sources.main.path sources.main.source = .ok program) (fuel : Nat) :
    Eval.Points sources ⟨sources.main, [], 0⟩ (fun _ => True) (evalProgram fuel program) := by
  have opened : sources.Opens sources.main := .inl rfl
  refine .bind .freshOrigin fun origin _ => ?_
  refine .bind (.update (fun _ => rfl) (fun _ => rfl) fun _ => rfl) fun _ _ => ?_
  refine .bind (.topLevel (Evaluator.points sources fuel) opened parsed origin [] 0) ?_
  intro flow transfers
  cases transfers with
  | thrown _ own =>
      apply Eval.Points.uncaught
      · exact opened
      · exact own
  | result => exact .result trivial
  | _ => exact .bind .machine fun _ _ => .result trivial

/-- A started interpreter executes the program, and nothing has been called. -/
theorem stands_start (interpreter : Interpreter) (path source : String) :
    (interpreter.sources path source).Stands ⟨⟨path, source⟩, [], 0⟩
      (interpreter.start path source).machine where
  stored := by
    dsimp only [start]
    exact Sources.invariant_stores.freshVault .native .scope ⟨fun _ => .empty, .empty⟩
  yielded := nofun
  files := rfl
  calls := rfl

/-- Diagnostics of an evaluation name a file that is executed. Let a run whose slots have fitting
numbers end with a diagnostic that is not about a text that is no program. Then its path and source
are those of the program or of a file that an import finds. Its span is that of a node in this file
or that of a node in a function body or a formula, of any such file or of the prelude; if it is
about a throw or a yield, it is that of a node in this file. -/
theorem diagnostics_are_located (interpreter : Interpreter) (fuel : Nat) (path source : String)
    {diagnostic : Diagnostic}
    (failed : (interpreter.runWithin fuel path source).1 = .failed diagnostic)
    (fits : (interpreter.runWithin fuel path source).2.machine.vault.Fits)
    (notLexical : diagnostic.kind ≠ .lexical) (notGrammar : diagnostic.kind ≠ .grammar) :
    ∃ file, (interpreter.sources path source).Locates file diagnostic := by
  cases parsed : Program.parse path source with
  | error refusal =>
      rw [runWithin, parsed] at failed
      cases failed
      exact ((Program.kind_of_refused parsed).elim notLexical notGrammar).elim
  | ok program =>
      have points := points_evalProgram (interpreter.sources path source) parsed fuel
      have ended := points ⟨interpreter.config, 0⟩ _ rfl (stands_start interpreter path source)
      rw [runWithin_of_parse parsed] at fits
      have fitsRun : (evalProgram fuel program ⟨interpreter.config, 0⟩
          (interpreter.start path source).machine).2.vault.Fits := (widens_stop _).fits fits
      rw [runWithin_of_parse parsed, evalWithin_of_started rfl] at failed
      cases ran : evalProgram fuel program ⟨interpreter.config, 0⟩
          (interpreter.start path source).machine with
      | mk outcome after =>
          have same : outcome = .failed diagnostic := (congrArg Prod.fst ran).symm.trans failed
          rw [ran, same] at ended
          rw [ran] at fitsRun
          cases ended with
          | failed _ explains => exact explains notLexical notGrammar
          | overfull unfit => exact absurd fitsRun unfit

/-- The text of a program that spoils a map and calls a method of it. -/
def spoiltMapText : String := "let m = Map.new(); m.entries = 1; m.len();"

/-- What comes of it: the span is that of the call in the method. -/
def spoiltMapDiagnostic : Diagnostic where
  kind := .notScope
  span := ⟨366, 378⟩
  message := "`len` expects a map, got number"
  path := inputPath
  source := spoiltMapText

/-- The diagnostic that a computation has ended with. -/
def diagnostic? : Outcome α → Option Diagnostic
  | .failed diagnostic => some diagnostic
  | _ => none

theorem eq_failed_of_diagnostic? {outcome : Outcome α} {diagnostic : Diagnostic}
    (found : diagnostic? outcome = some diagnostic) : outcome = .failed diagnostic := by
  cases outcome with
  | failed other => exact congrArg _ (Option.some.inj found)
  | _ => cases found

theorem spoiltMap_fails :
    (bare.runWithin 8 inputPath spoiltMapText).1 = .failed spoiltMapDiagnostic := by
  refine eq_failed_of_diagnostic? ?_
  decide +kernel

theorem spoiltMap_fits : (bare.runWithin 8 inputPath spoiltMapText).2.machine.vault.Fits := by
  decide +kernel

theorem spoiltMap_foreign :
    spoiltMapDiagnostic.span ∉ (⟨inputPath, spoiltMapText⟩ : SourceFile).spans := by
  decide +kernel

/-- Where nothing can be imported, only the program is executed. -/
theorem eq_main_of_opens {path source : String} {file : SourceFile}
    (opened : (bare.sources path source).Opens file) : file = ⟨path, source⟩ := by
  rcases opened with same | imported
  · exact same
  · cases imported

/-- The node that the diagnostic is about is in the prelude, which is not the file it names. -/
theorem spoiltMap_is_located :
    (bare.runWithin 8 inputPath spoiltMapText).1 = .failed spoiltMapDiagnostic ∧
      spoiltMapDiagnostic.path = inputPath ∧
      spoiltMapDiagnostic.span ∈ Prelude.deferredSpans := by
  obtain ⟨file, located⟩ := diagnostics_are_located bare 8 inputPath spoiltMapText spoiltMap_fails
    spoiltMap_fits (by decide) (by decide)
  have main := eq_main_of_opens located.opened
  subst main
  refine ⟨spoiltMap_fails, located.path, ?_⟩
  rcases located.span with own | ⟨⟨home, opened, deferred⟩ | inPrelude, _⟩
  · exact absurd own spoiltMap_foreign
  · obtain rfl := eq_main_of_opens opened
    exact absurd (SourceFile.deferredSpans_subset _ deferred) spoiltMap_foreign
  · exact inPrelude

/-- The method of a map has no file of its own: the diagnostic has the path and the text of the
program, and no node of the program has its span. -/
theorem map_methods_blame_the_caller :
    ∃ diagnostic, (bare.runWithin 8 inputPath spoiltMapText).1 = .failed diagnostic ∧
      diagnostic.kind = .notScope ∧ diagnostic.path = inputPath ∧
      diagnostic.source = spoiltMapText ∧
      diagnostic.span ∉ (⟨diagnostic.path, diagnostic.source⟩ : SourceFile).spans :=
  ⟨spoiltMapDiagnostic, spoiltMap_fails, rfl, rfl, rfl, spoiltMap_foreign⟩

end Interpreter
end ScopeScript
