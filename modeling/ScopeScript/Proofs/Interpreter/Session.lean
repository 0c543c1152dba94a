import ScopeScript.Interpreter
import ScopeScript.Proofs.Evaluator.Forest

/-!
# Sessions of an interpreter

Between two programs of a session an interpreter is at rest: only the global scope is open, one
file is being read, no function is active, and no crash is on the record. It is so after `start`,
and every program that comes to its own end leaves it so, whether it ends with a result or with a
diagnostic.

The stacks are the same before and after every evaluation (`evaluations_restore_stacks`).
-/

namespace ScopeScript

namespace Vault

/-- A sequence of definitions in the innermost scope. -/
theorem Forest.defineAll {vault : Vault} {openings : List Opening}
    (forest : vault.Forest openings) (someOpen : openings ≠ [])
    (routines : List (String × Native)) :
    ∃ after, Native.defineAll routines vault = (.done (), after) ∧ after.Forest openings := by
  induction routines generalizing vault with
  | nil => exact ⟨vault, rfl, forest⟩
  | cons routine routines inductionHypothesis =>
      obtain ⟨name, native⟩ := routine
      obtain ⟨middle, defined, kept⟩ := forest.define someOpen name native.value
      obtain ⟨after, rest, keptAfter⟩ := inductionHypothesis kept
      exact ⟨after, (Run.bind_of_done defined _).trans rest, keptAfter⟩

theorem widens_defineAll (routines : List (String × Native)) :
    (Native.defineAll routines).Widens := by
  induction routines with
  | nil => exact fun vault => .refl vault
  | cons routine routines inductionHypothesis =>
      exact .bind (widens_define _ _) fun _ => inductionHypothesis

/-- A declaration that something follows. -/
theorem Forest.declaring {vault : Vault} {openings : List Opening}
    (forest : vault.Forest openings) (someOpen : openings ≠ []) (name : String)
    {next : Handle → Run Vault α} (nextWidens : ∀ handle, (next handle).Widens)
    (fits : ((Vault.declare name >>= next) vault).2.Fits) :
    ∃ handle opened, (Vault.declare name >>= next) vault = next handle opened ∧
      opened.Forest (.declaration handle :: openings) := by
  obtain ⟨handle, opened, declared, inside⟩ := forest.declare someOpen name
  rw [Run.bind_of_done declared] at fits ⊢
  exact ⟨handle, opened, rfl, inside ((nextWidens handle opened).fits fits)⟩

/-- The native routines are put into the innermost scope without a crash. -/
theorem Forest.injectAll {vault : Vault} {openings : List Opening}
    (forest : vault.Forest openings) (someOpen : openings ≠ [])
    (fits : (Native.injectAll vault).2.Fits) :
    ∃ after, Native.injectAll vault = (.done (), after) ∧ after.Forest openings := by
  -- What follows the declarations of `Map`, of `hashmap`, of `io` and of `std`.
  have afterMap (class_ : Handle) := Run.Widens.bind (widens_define "new" Native.newMap.value)
    fun _ => widens_endDeclaration class_ "Map"
  have afterHashmap (std hashmap : Handle) := (widens_defineAll Native.mapRoutines).bind fun _ =>
    (widens_endDeclaration hashmap "hashmap").bind fun _ =>
    (widens_endDeclaration std "std").bind fun _ =>
    (widens_defineAll Native.outputRoutines).bind fun _ =>
    (widens_defineAll Native.conversions).bind fun _ => (widens_declare "Map").bind afterMap
  have afterIo (std io : Handle) := (widens_defineAll Native.outputRoutines).bind fun _ =>
    (widens_endDeclaration io "io").bind fun _ => (widens_declare "hashmap").bind (afterHashmap std)
  have afterStd (std : Handle) := (widens_defineAll Native.conversions).bind fun _ =>
    (widens_declare "io").bind (afterIo std)
  unfold Native.injectAll at fits ⊢
  obtain ⟨std, vault, declared, forest⟩ := forest.declaring someOpen "std" afterStd fits
  have inStd := List.cons_ne_nil (Opening.declaration std) openings
  rw [declared] at fits ⊢
  obtain ⟨vault, defined, forest⟩ := forest.defineAll inStd Native.conversions
  rw [Run.bind_of_done defined] at fits ⊢
  obtain ⟨io, vault, declared, forest⟩ := forest.declaring inStd "io" (afterIo std) fits
  rw [declared] at fits ⊢
  obtain ⟨vault, defined, forest⟩ := forest.defineAll (List.cons_ne_nil _ _) Native.outputRoutines
  rw [Run.bind_of_done defined] at fits ⊢
  obtain ⟨vault, ended, forest⟩ := forest.endDeclaration (by decide : "io" ≠ "")
  rw [Run.bind_of_done ended] at fits ⊢
  obtain ⟨hashmap, vault, declared, forest⟩ :=
    forest.declaring inStd "hashmap" (afterHashmap std) fits
  rw [declared] at fits ⊢
  obtain ⟨vault, defined, forest⟩ := forest.defineAll (List.cons_ne_nil _ _) Native.mapRoutines
  rw [Run.bind_of_done defined] at fits ⊢
  obtain ⟨vault, ended, forest⟩ := forest.endDeclaration (by decide : "hashmap" ≠ "")
  rw [Run.bind_of_done ended] at fits ⊢
  obtain ⟨vault, ended, forest⟩ := forest.endDeclaration (by decide : "std" ≠ "")
  rw [Run.bind_of_done ended] at fits ⊢
  obtain ⟨vault, defined, forest⟩ := forest.defineAll someOpen Native.outputRoutines
  rw [Run.bind_of_done defined] at fits ⊢
  obtain ⟨vault, defined, forest⟩ := forest.defineAll someOpen Native.conversions
  rw [Run.bind_of_done defined] at fits ⊢
  obtain ⟨class_, vault, declared, forest⟩ := forest.declaring someOpen "Map" afterMap fits
  rw [declared]
  obtain ⟨vault, defined, forest⟩ :=
    forest.define (List.cons_ne_nil _ _) "new" Native.newMap.value
  rw [Run.bind_of_done defined]
  exact forest.endDeclaration (by decide : "Map" ≠ "")

end Vault

namespace Interpreter

open Vault

/-- The frame of the global scope. -/
def globalFrame : Frame := ⟨.block, ⟨0, 1⟩⟩

theorem frames_freshVault : freshVault.frames = [globalFrame] := by decide +kernel

theorem fits_freshVault : freshVault.Fits := by decide +kernel

/-- The global scope is entered and filled without a crash. -/
theorem opening_forest :
    opening .empty = (.done (), freshVault) ∧ ∃ scope, freshVault.Forest [.block scope] := by
  obtain ⟨scope, vault, entered, forest⟩ := Forest.empty.enter (.inl rfl)
  have filling : opening .empty = Native.injectAll vault := Run.bind_of_done entered _
  have fits : (Native.injectAll vault).2.Fits := filling ▸ fits_freshVault
  have fitsEntered : vault.Fits := by
    have fitted : (enterBlock .empty).2.Fits := by decide
    rwa [enterBlock, entered] at fitted
  obtain ⟨after, injected, forest⟩ :=
    (forest fitsEntered).injectAll (List.cons_ne_nil _ _) fits
  have opened : opening .empty = (.done (), after) := filling.trans injected
  have fresh : freshVault = after := by rw [freshVault, opened]
  exact ⟨by rw [opened, fresh], scope, fresh ▸ forest⟩

/-- The states of an interpreter in a session between two programs. The programs so far have come
to their own end. -/
inductive InSession : Interpreter → Prop
  | start (interpreter : Interpreter) (path source : String) :
      InSession (interpreter.start path source)
  | append {interpreter : Interpreter} (text : String) :
      InSession interpreter → InSession (interpreter.appendSource text).2
  | flush {interpreter : Interpreter} : InSession interpreter → InSession interpreter.flush
  | eval {interpreter : Interpreter} (fuel : Nat) (program : Program) :
      InSession interpreter → (interpreter.evalWithin fuel program).1.Returned →
      InSession (interpreter.evalWithin fuel program).2

/-- Only the global scope is open, and nothing is under way. The store is in order as long as the
numbers of its slots fit. -/
structure AtRest (interpreter : Interpreter) : Prop where
  started : interpreter.isStarted = true
  frames : interpreter.machine.vault.frames = [globalFrame]
  oneFile : interpreter.machine.files.length = 1
  idle : interpreter.machine.activations = []
  tidy : interpreter.machine.vault.Fits → ∃ scope, interpreter.machine.Tidy [.block scope]

/-- Execute a program that has been given a number, up to what its control flow means. -/
def evalBody (fuel : Nat) (origin : Origin) (program : Program) : Eval Value := do
  match ← Eval.within origin (Evaluator.execute fuel program.body) with
  | .thrown value span => Evaluator.uncaught value span
  | .result value => return value
  | _ => return (← Eval.machine).last

/-- A program starts with a number of its own, no value and no nesting. -/
theorem evalProgram_apply (fuel : Nat) (program : Program) (context : Context)
    (machine : Machine) :
    evalProgram fuel program context machine =
      evalBody fuel (machine.parses + 1) program context
        { machine with parses := machine.parses + 1, last := .none, depth := 0 } := rfl

theorem evalBody_of_closed {P : Level → {α : Type} → Eval α → Prop} (closed : Eval.Closed P)
    (fuel : Nat) (origin : Origin) (program : Program) :
    P .statement (evalBody fuel origin program) := by
  have holds := (closed.recursion fuel).execute program.body
  refine closed.bind (closed.within origin holds) fun flow => ?_
  split
  · exact closed.uncaught _ _ _
  · exact closed.result _ _
  · exact closed.bind (closed.machine _) fun machine => closed.result _ _

/-- A started interpreter executes a program from the state it is in. -/
theorem evalWithin_of_started {interpreter : Interpreter}
    (started : interpreter.isStarted = true) (fuel : Nat) (program : Program) :
    interpreter.evalWithin fuel program =
      ((evalProgram fuel program ⟨interpreter.config, 0⟩ interpreter.machine).1,
        { interpreter with
          machine :=
            (evalProgram fuel program ⟨interpreter.config, 0⟩ interpreter.machine).2 }) := by
  rw [evalWithin, if_pos started]

/-- How a program may end that is executed at rest. -/
theorem AtRest.ends {interpreter : Interpreter} (rest : interpreter.AtRest) (fuel : Nat)
    (program : Program) (fits : (interpreter.evalWithin fuel program).2.machine.vault.Fits) :
    ∃ scope, (interpreter.evalWithin fuel program).2.machine.Ends [.block scope]
      (interpreter.evalWithin fuel program).1 := by
  rw [evalWithin_of_started rest.started, evalProgram_apply] at fits ⊢
  have orderly := evalBody_of_closed Eval.closed_orderly fuel (interpreter.machine.parses + 1) program
  have fitsBefore := (orderly.widens _ _).fits fits
  obtain ⟨scope, tidy⟩ := rest.tidy fitsBefore
  exact ⟨scope, orderly.ends _ _ _ ⟨tidy.someOpen, tidy.forest, tidy.uncrashed⟩ fits⟩

theorem AtRest.start (interpreter : Interpreter) (path source : String) :
    (interpreter.start path source).AtRest where
  started := rfl
  frames := frames_freshVault
  oneFile := rfl
  idle := rfl
  tidy _ := by
    obtain ⟨scope, forest⟩ := opening_forest.2
    refine ⟨scope, List.cons_ne_nil _ _, ?_, rfl⟩
    dsimp only [Interpreter.start]
    exact forest

theorem AtRest.append {interpreter : Interpreter} (rest : interpreter.AtRest) (text : String) :
    (interpreter.appendSource text).2.AtRest := by
  obtain ⟨file, single⟩ := List.length_eq_one_iff.1 rest.oneFile
  simp only [appendSource, single]
  refine ⟨rest.started, rest.frames, rfl, rest.idle, fun fits => ?_⟩
  obtain ⟨scope, tidy⟩ := rest.tidy fits
  exact ⟨scope, tidy.someOpen, tidy.forest, tidy.uncrashed⟩

theorem AtRest.flush {interpreter : Interpreter} (rest : interpreter.AtRest) :
    interpreter.flush.AtRest := by
  refine ⟨rest.started, rest.frames, rest.oneFile, rest.idle, fun fits => ?_⟩
  obtain ⟨scope, tidy⟩ := rest.tidy fits
  exact ⟨scope, tidy.someOpen, tidy.forest, tidy.uncrashed⟩

theorem AtRest.eval {interpreter : Interpreter} (rest : interpreter.AtRest) (fuel : Nat)
    (program : Program) (returned : (interpreter.evalWithin fuel program).1.Returned) :
    (interpreter.evalWithin fuel program).2.AtRest := by
  have ends := rest.ends fuel program
  rw [evalWithin_of_started rest.started] at returned ends ⊢
  rw [evalProgram_apply] at returned ends ⊢
  have balanced := evalBody_of_closed Eval.closed_balances fuel _ program _ _ returned
  refine ⟨rest.started, balanced.frames.trans rest.frames,
    (congrArg List.length balanced.files).trans rest.oneFile,
    balanced.activations.eq_nil rest.idle, fun fits => ?_⟩
  obtain ⟨scope, ended⟩ := ends fits
  exact ⟨scope, ended.tidy returned⟩

theorem InSession.atRest {interpreter : Interpreter} (session : interpreter.InSession) :
    interpreter.AtRest := by
  induction session with
  | start interpreter path source => exact .start interpreter path source
  | append text _ inductionHypothesis => exact inductionHypothesis.append text
  | flush _ inductionHypothesis => exact inductionHypothesis.flush
  | eval fuel program _ returned inductionHypothesis =>
      exact inductionHypothesis.eval fuel program returned

/-- The stacks are restored by every evaluation that comes to its own end, with a result, with any
control flow or with a diagnostic: by expressions, statements and lists of them, by calls of
functions, imports and new maps, in every state. So between the programs of a session, failed ones
included, only the global frame and one file are there, and no activation. -/
theorem evaluations_restore_stacks (fuel : Nat) :
    (∀ expr, (Evaluator.evaluate fuel expr).Balances .expression) ∧
      (∀ statement,
        (Evaluator.executeOne (Evaluator.recursion fuel) statement).Balances .statement) ∧
      (∀ statements, (Evaluator.execute fuel statements).Balances .statement) ∧
      (∀ site function values,
        (Evaluator.callFunction (Evaluator.recursion fuel) site function values).Balances
          .expression) ∧
      (∀ span source aliasName,
        (Evaluator.importFile (Evaluator.recursion fuel) span source aliasName).Balances
          .statement) ∧
      (∀ site values,
        (Native.callNewMap (Evaluator.recursion fuel) site values).Balances .expression) ∧
      ∀ interpreter : Interpreter, interpreter.InSession →
        interpreter.isStarted = true ∧ interpreter.machine.vault.frames = [globalFrame] ∧
          interpreter.machine.files.length = 1 ∧ interpreter.machine.activations = [] := by
  have closed := Eval.closed_balances
  have satisfies := closed.recursion fuel
  refine ⟨satisfies.evaluate, closed.executeOne satisfies, satisfies.execute,
    closed.callFunction satisfies, closed.importFile satisfies, closed.callNewMap satisfies, ?_⟩
  intro interpreter session
  have rest := session.atRest
  exact ⟨rest.started, rest.frames, rest.oneFile, rest.idle⟩

/-- An interpreter that finds no files. -/
def bare : Interpreter := new ⟨100, false, fun _ => .error .missing⟩

/-- A call of an unknown function inside a scope inside a block. -/
def unknownCall : Program :=
  ⟨.null, [.block .null [.scope .null "A" [.evaluate .null (.call .null "g" .null [])]]]⟩

/-- A program that fails in the middle of a declaration leaves nothing behind on the stacks. -/
theorem unknownCall_restores_stacks :
    ((bare.start inputPath "").evalWithin 5 unknownCall).1.kind? = some .unboundName ∧
      ((bare.start inputPath "").evalWithin 5 unknownCall).2.machine.vault.frames =
        [globalFrame] ∧
      ((bare.start inputPath "").evalWithin 5 unknownCall).2.machine.files.length = 1 ∧
      ((bare.start inputPath "").evalWithin 5 unknownCall).2.machine.activations = [] := by
  have session : (bare.start inputPath "").InSession := .start bare inputPath ""
  have failed : ((bare.start inputPath "").evalWithin 5 unknownCall).1.kind? =
      some .unboundName := by decide +kernel
  obtain ⟨_, _, _, _, _, _, sessions⟩ := evaluations_restore_stacks 5
  obtain ⟨_, frames, files, activations⟩ :=
    sessions _ (session.eval 5 unknownCall (Outcome.returned_of_kind? failed))
  exact ⟨failed, frames, files, activations⟩

end Interpreter
end ScopeScript
