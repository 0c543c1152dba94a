import ScopeScript.Proofs.Isolation.Evaluation

/-!
# Isolation of callers

All functions share one chain of scopes, so a callee could overwrite what its caller has bound. It
does not by declaring anything: parameters, `let`, loop variables, caught values, scopes, imports
and boxes are bound in records that are created for them. Without assignments, `delete` and routines
that write to maps, whatever runs in a block of its own keeps the bindings of all records that it
finds, at any depth (`callers_are_isolated`).
-/

namespace ScopeScript

open Eval (Course)
open Evaluator (recursion courses executeOne callFunction)

/-- The course of a program. -/
def Interpreter.course (fuel : Nat) (program : Program) : Course (evalProgram fuel program) :=
  Course.freshOrigin.bind fun origin =>
    (Course.update (fun _ => by rfl) fun _ => by rfl).bind fun _ =>
      (Course.within origin ((courses fuel).execute program.body)).bind fun flow =>
        match flow with
        | .thrown value span => .uncaught value span
        | .result _ => .result _
        | .proceed | .leaveLoop | .nextRound => Course.machine.bind fun _ => .result _

/-- A program isolates from stores in which the global scope is not live. -/
theorem Eval.Course.Isolates.evalProgram (fuel : Nat) {program : Program}
    (steady : program.Steady) :
    (Interpreter.course fuel program).Isolates .statement fun _ => True := by
  refine .bind freshOrigin fun origin _ => .bind (update fun _ => rfl) fun _ _ => ?_
  refine .bind (.within origin ((Evaluator.courses_isolate fuel).execute steady)) fun flow _ => ?_
  cases flow with
  | thrown value span => exact uncaught value span
  | result value => exact result trivial
  | _ => exact .bind machine fun _ _ => result trivial

theorem Vault.isLive_empty (handle : Handle) : Vault.empty.isLive handle = false := by
  simp [Vault.isLive, Vault.record?, Vault.empty]

/-- Nothing is live in an empty store, so it remains untouched. -/
theorem Vault.Untouched.empty (vault : Vault) : Vault.Untouched .empty vault := by
  constructor <;> simp [isLive_empty]

namespace Interpreter

/-- The states of an interpreter in a session between two steady programs. The files that can be
imported are steady as well, and no program so far has called a routine that writes to a map. -/
inductive InSteadySession : Interpreter → Prop
  | start (interpreter : Interpreter) (path source : String) :
      interpreter.config.Steady → InSteadySession (interpreter.start path source)
  | append {interpreter : Interpreter} (text : String) :
      InSteadySession interpreter → InSteadySession (interpreter.appendSource text).2
  | flush {interpreter : Interpreter} :
      InSteadySession interpreter → InSteadySession interpreter.flush
  | eval {interpreter : Interpreter} (fuel : Nat) {program : Program} :
      InSteadySession interpreter → program.Steady →
      (course fuel program).Calm ⟨interpreter.config, 0⟩ interpreter.machine →
      (interpreter.evalWithin fuel program).1.Returned →
      InSteadySession (interpreter.evalWithin fuel program).2

/-- The files that can be imported are steady, and so are all values. -/
structure Steady (interpreter : Interpreter) : Prop where
  config : interpreter.config.Steady
  machine : interpreter.machine.Steady

theorem InSteadySession.inSession {interpreter : Interpreter}
    (session : interpreter.InSteadySession) : interpreter.InSession := by
  induction session with
  | start interpreter path source => exact .start interpreter path source
  | append text _ inductionHypothesis => exact inductionHypothesis.append text
  | flush _ inductionHypothesis => exact inductionHypothesis.flush
  | eval fuel _ _ _ returned inductionHypothesis => exact inductionHypothesis.eval fuel _ returned

/-- The numbers of the slots have fitted before a program if they do afterwards. -/
theorem AtRest.fits_of_eval {interpreter : Interpreter} (rest : interpreter.AtRest) {fuel : Nat}
    {program : Program} (fits : (interpreter.evalWithin fuel program).2.machine.vault.Fits) :
    interpreter.machine.vault.Fits := by
  rw [evalWithin_of_started rest.started] at fits
  exact (course fuel program).widens.fits fits

/-- What a program does that is executed between two others, as long as the numbers of the slots
fit. -/
theorem preserves_course {interpreter : Interpreter} (rest : interpreter.AtRest)
    (steady : interpreter.Steady) (fuel : Nat) {program : Program} (steadyProgram : program.Steady)
    (calm : (course fuel program).Calm ⟨interpreter.config, 0⟩ interpreter.machine)
    (fits : (interpreter.evalWithin fuel program).2.machine.vault.Fits) :
    ∃ openings, (course fuel program).Preserves .empty openings (fun _ => True)
      ⟨interpreter.config, 0⟩ interpreter.machine := by
  obtain ⟨scope, tidy⟩ := rest.tidy (rest.fits_of_eval fits)
  rw [evalWithin_of_started rest.started] at fits
  refine ⟨[.block scope], Eval.Course.Isolates.evalProgram fuel steadyProgram steady.config ?_
    ⟨tidy, .empty _, steady.machine⟩ calm fits⟩
  exact fun opening _ => Vault.isLive_empty opening.record

/-- All values of a steady session are steady while the numbers of its slots fit. -/
theorem InSteadySession.steady {interpreter : Interpreter}
    (session : interpreter.InSteadySession) (fits : interpreter.machine.vault.Fits) :
    interpreter.Steady := by
  induction session with
  | start interpreter path source config =>
      refine ⟨config, ?_, nofun⟩
      dsimp only [Interpreter.start]
      exact steady_freshVault
  | @append interpreter text session inductionHypothesis =>
      obtain ⟨file, single⟩ := List.length_eq_one_iff.1 session.inSession.atRest.oneFile
      simp only [appendSource, single] at fits ⊢
      obtain ⟨config, stored, yielded⟩ := inductionHypothesis fits
      exact ⟨config, stored, yielded⟩
  | flush _ inductionHypothesis =>
      obtain ⟨config, stored, yielded⟩ := inductionHypothesis fits
      exact ⟨config, stored, yielded⟩
  | eval fuel session steadyProgram calm returned inductionHypothesis =>
      have rest := session.inSession.atRest
      have steadyBefore := inductionHypothesis (rest.fits_of_eval fits)
      obtain ⟨openings, ends, _⟩ :=
        preserves_course rest steadyBefore fuel steadyProgram calm fits
      rw [evalWithin_of_started rest.started] at returned ⊢
      exact ⟨steadyBefore.config, (ends returned).1.steady⟩

/-- Recursion does not disturb callers, in code without assignments and `delete` as long as no
routine writes to a map. In every reachable state, a block, a loop, an attempt or a call of a
function that comes to its own end leaves all records live that were live before, with the same
bindings. It is so in particular for everything that is run in the course of a program, with the
programs before it and the files it imports being of the same kind. The numbers of the slots have to
fit at the end. -/
theorem callers_are_isolated (fuel : Nat) :
    (∀ {openings machine context}, machine.Reachable openings → machine.Steady →
      context.config.Steady →
      (∀ statement, Stmt.hasOwnBlock statement = true → statement.isSteady = true →
        ((courses fuel).executeOne statement).Calm context machine →
        (executeOne (recursion fuel) statement context machine).1.Returned →
        (executeOne (recursion fuel) statement context machine).2.vault.Fits →
        machine.vault.PersistsIn
          (executeOne (recursion fuel) statement context machine).2.vault) ∧
      ∀ site function values, Stmt.areSteady function.body = true →
        (∀ value ∈ values, value.Steady) →
        ((courses fuel).callFunction site function values).Calm context machine →
        (callFunction (recursion fuel) site function values context machine).1.Returned →
        (callFunction (recursion fuel) site function values context machine).2.vault.Fits →
        machine.vault.PersistsIn
          (callFunction (recursion fuel) site function values context machine).2.vault) ∧
    ∀ {interpreter : Interpreter}, interpreter.InSteadySession →
      ∀ program : Program, program.Steady →
        (course fuel program).Calm ⟨interpreter.config, 0⟩ interpreter.machine →
        (interpreter.evalWithin fuel program).2.machine.vault.Fits →
        ∀ found left, Event.ran found left ∈
            (course fuel program).events ⟨interpreter.config, 0⟩ interpreter.machine →
          found.PersistsIn left := by
  have isolate := Evaluator.courses_isolate fuel
  refine ⟨fun reachable steady config => ⟨?_, ?_⟩, ?_⟩
  · intro statement block steadyCode calm returned fits
    have tidy := reachable.tidy (((courses fuel).executeOne statement).widens.fits fits)
    exact (Eval.Course.Isolates.executeOwnBlock isolate block steadyCode).persists config tidy
      steady calm fits returned
  · intro site function values steadyBody steadyValues calm returned fits
    have tidy :=
      reachable.tidy (((courses fuel).callFunction site function values).widens.fits fits)
    exact (Eval.Course.Isolates.callFunction isolate site steadyBody steadyValues).persists config
      tidy steady calm fits returned
  · intro interpreter session program steady calm fits found left ran
    have rest := session.inSession.atRest
    obtain ⟨_, _, kept⟩ :=
      preserves_course rest (session.steady (rest.fits_of_eval fits)) fuel steady calm fits
    exact kept _ ran

instance {α : Type} (outcome : Outcome α) : Decidable outcome.Returned :=
  match outcome with
  | .done value => isTrue (.done value)
  | .failed diagnostic => isTrue (.failed diagnostic)
  | .crashed _ | .endless => isFalse nofun

/-- The body of a function that declares its parameter once more and calls itself with it. -/
def shadowingBody : List Stmt :=
  [.conditional .null (.name .null "x") .null
    [.declare .null "x" (.bool .null false) false,
      .evaluate .null (.call .null "f" .null [.name .null "x"])] none]

/-- A program with several bindings of one name, in functions that call each other. -/
def shadowing : Program :=
  ⟨.null, [.declare .null "x" (.bool .null true) false,
    .function .null "f" ["x"] shadowingBody false,
    .evaluate .null (.call .null "f" .null [.name .null "x"])]⟩

/-- Whether something was run, and the stores before and after it. -/
def run? : Event → Option (Vault × Vault)
  | .ran found left => some (found, left)
  | _ => none

theorem exists_ran {events : List Event} (anyRun : events.any fun event => (run? event).isSome) :
    ∃ found left, Event.ran found left ∈ events := by
  obtain ⟨event, member, isRun⟩ := List.any_eq_true.1 anyRun
  cases event with
  | ran found left => exact ⟨found, left, member⟩
  | _ => cases isRun

/-- The bindings of one name in callers and callees do not get mixed up. -/
theorem shadowing_isolates_callers :
    ∃ machine : Machine, machine = ((bare.start inputPath "").evalWithin 12 shadowing).2.machine ∧
      machine.vault.PersistsIn (executeOne (recursion 12) (.block .null shadowing.body)
        ⟨bare.config, 0⟩ machine).2.vault ∧
      machine.vault.PersistsIn (callFunction (recursion 12) ⟨.null, "f"⟩
        ⟨1, .null, "f", ["x"], shadowingBody, false⟩ [.bool true] ⟨bare.config, 0⟩
          machine).2.vault ∧
      ∃ found left, Event.ran found left ∈
        (course 12 shadowing).events ⟨(bare.start inputPath "").config, 0⟩
          (bare.start inputPath "").machine ∧ found.PersistsIn left := by
  have files : bare.config.Steady := nofun
  have steady : shadowing.Steady := rfl
  have calm : (course 12 shadowing).Calm ⟨(bare.start inputPath "").config, 0⟩
      (bare.start inputPath "").machine := by
    unfold Eval.Course.Calm
    decide +kernel
  have returned : ((bare.start inputPath "").evalWithin 12 shadowing).1.Returned := by
    decide +kernel
  have started : (bare.start inputPath "").InSteadySession := .start bare inputPath "" files
  have session := started.eval 12 steady calm returned
  obtain ⟨constructs, programs⟩ := callers_are_isolated 12
  have inState := @constructs _ _ ⟨bare.config, 0⟩ (.session session.inSession)
    (session.steady (by decide +kernel)).machine files
  refine ⟨_, rfl, ?_, ?_, ?_⟩
  · refine inState.1 (.block .null shadowing.body) rfl (by decide) ?_ ?_ (by decide +kernel)
    · unfold Eval.Course.Calm
      decide +kernel
    · decide +kernel
  · refine inState.2 ⟨.null, "f"⟩ ⟨1, .null, "f", ["x"], shadowingBody, false⟩ [.bool true]
      (by decide) (by simp) ?_ ?_ (by decide +kernel)
    · unfold Eval.Course.Calm
      decide +kernel
    · decide +kernel
  · obtain ⟨found, left, ran⟩ := @exists_ran ((course 12 shadowing).events
      ⟨(bare.start inputPath "").config, 0⟩ (bare.start inputPath "").machine) (by decide +kernel)
    exact ⟨found, left, ran,
      programs started shadowing steady calm (by decide +kernel) found left ran⟩

end Interpreter
end ScopeScript
