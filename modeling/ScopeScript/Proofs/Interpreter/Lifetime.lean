import ScopeScript.Proofs.Evaluator.Lifetime
import ScopeScript.Proofs.Interpreter.Session
import ScopeScript.Proofs.Vault.Bracketing

/-!
# The lifetime of what a block creates

Blocks, loops, attempts and calls of functions run in blocks of their own. Whatever they create,
directly or through calls, members, formulas and imports, is freed when they come to their own end,
and nothing else is: the same handles are live as before (`blocks_restore_live_handles`). This holds
in every state that can come up in a session, also in the midst of an evaluation, and even if a
reference to something created inside has been returned or stored outside.
-/

namespace ScopeScript

/-- The states that can come up in a session, with the scopes that are open, innermost first. It
begins between two programs. From there the store changes by operations that open and close scopes
in a well-bracketed way, with the global scope open all the time; everything beside the store may
change in any way, as long as nothing has crashed. -/
inductive Machine.Reachable : List Opening → Machine → Prop
  | session {interpreter : Interpreter} :
      interpreter.InSession →
      Reachable [.block Interpreter.globalFrame.record] interpreter.machine
  | beside {openings : List Opening} {machine after : Machine} :
      Reachable openings machine → after.vault = machine.vault →
      after.firstCrash? = machine.firstCrash? → Reachable openings after
  | operation {openings : List Opening} {machine : Machine} {after : Vault}
      {outcome : Outcome (Option Handle)} (operation : Vault.Operation) :
      Reachable openings machine → Vault.Allowed openings operation →
      operation.perform machine.vault = (outcome, after) →
      Vault.follow openings operation outcome ≠ [] →
      Reachable (Vault.follow openings operation outcome) { machine with vault := after }

/-- The open scopes of a reachable state whose slots have fitting numbers are known. -/
theorem Machine.Reachable.tidy {openings : List Opening} {machine : Machine}
    (reachable : machine.Reachable openings) (fits : machine.vault.Fits) :
    machine.Tidy openings := by
  induction reachable with
  | session session =>
      have rest := session.atRest
      obtain ⟨scope, tidy⟩ := rest.tidy fits
      have frames := tidy.forest.frames.symm.trans rest.frames
      have same : scope = Interpreter.globalFrame.record := by
        simpa [Opening.frame, Opening.record] using congrArg (List.map Frame.record) frames
      exact same ▸ tidy
  | beside _ vault firstCrash? inductionHypothesis =>
      have before := inductionHypothesis (vault ▸ fits)
      refine ⟨before.someOpen, ?_, firstCrash?.trans before.uncrashed⟩
      rw [vault]
      exact before.forest
  | operation operation _ allowed performed someOpen inductionHypothesis =>
      have before := inductionHypothesis (Vault.fits_of_ran operation.widens performed fits)
      obtain ⟨_, _, performed', _, kept⟩ := before.forest.perform operation allowed
      cases performed.symm.trans performed'
      exact ⟨someOpen, kept fits, before.uncrashed⟩

/-- Whether a statement runs in blocks of its own. -/
def Stmt.hasOwnBlock : Stmt → Bool
  | .block .. | .whileLoop .. | .loop .. | .forEach .. | .attempt .. => true
  | _ => false

namespace Eval.Restores

variable {recursion : Recursion}

theorem runAttempt (satisfies : recursion.Satisfies Confined) (body : List Stmt) (caught : String)
    (handler : List Stmt) : (Evaluator.runAttempt recursion body caught handler).Restores := by
  refine bind (inBlock (satisfies.execute body)) fun flow => ?_
  split
  · refine inBlock (?_ : Confined .statement _)
    split
    · exact .bind (.onVault _ (.define _ _)) fun _ => satisfies.execute handler
    · exact satisfies.execute handler
  · exact result _

theorem executeOne (satisfies : recursion.Satisfies Confined) {statement : Stmt}
    (block : statement.hasOwnBlock = true) :
    (Evaluator.executeOne recursion statement).Restores := by
  have closed := closed_confined
  cases statement with
  | block span body => exact inBlock (satisfies.execute body)
  | whileLoop span test bodySpan body =>
      exact inBlock (closed.repeatRounds (closed.loopRound satisfies (some test) body) _)
  | loop span bodySpan body =>
      exact inBlock (closed.repeatRounds (closed.loopRound satisfies none body) _)
  | forEach span name iterable bodySpan body =>
      refine inBlock (.bind (satisfies.evaluate iterable).raise fun value => ?_)
      refine .bind (closed.itemsOf _ value).raise fun items => ?_
      exact closed.runRounds satisfies name body items
  | attempt span bodySpan body caught handlerSpan handler =>
      exact runAttempt satisfies body caught handler
  | _ => simp [Stmt.hasOwnBlock] at block

theorem callFunction (satisfies : recursion.Satisfies Confined) (site : CallSite)
    (function : Function) (values : List Value) :
    (Evaluator.callFunction recursion site function values).Restores := by
  have closed := closed_confined
  unfold Evaluator.callFunction
  split
  · refine deeper site.span (inCall (closed.bindParameters _ _ _) ?_)
    refine .bind (closed.within _ (satisfies.execute _)) fun flow => ?_
    exact closed.resultOfBody _ flow
  · exact failAt _ _ _

end Eval.Restores

namespace Interpreter

open Evaluator (recursion executeOne callFunction)

/-- After a block, a loop, an attempt or a call of a function, in every reachable state and however
it comes to its own end, exactly those handles are live that were live before, provided that the
numbers of the slots fit at the end. -/
theorem blocks_restore_live_handles {openings : List Opening} {machine : Machine}
    (reachable : machine.Reachable openings) (context : Context) (fuel : Nat) :
    (∀ statement, Stmt.hasOwnBlock statement = true →
      (executeOne (recursion fuel) statement context machine).1.Returned →
      (executeOne (recursion fuel) statement context machine).2.vault.Fits →
      ∀ handle, (executeOne (recursion fuel) statement context machine).2.vault.isLive handle =
        machine.vault.isLive handle) ∧
      ∀ site function values,
        (callFunction (recursion fuel) site function values context machine).1.Returned →
        (callFunction (recursion fuel) site function values context machine).2.vault.Fits →
        ∀ handle,
          (callFunction (recursion fuel) site function values context machine).2.vault.isLive
            handle = machine.vault.isLive handle := by
  have satisfies := Eval.closed_confined.recursion fuel
  constructor
  · intro statement block returned fits
    have restores := Eval.Restores.executeOne satisfies block
    have tidy := reachable.tidy (restores.orderly.widens.fits fits)
    exact Vault.isLive_eq_of_ownedBy? (restores.same tidy fits returned)
  · intro site function values returned fits
    have restores := Eval.Restores.callFunction satisfies site function values
    have tidy := reachable.tidy (restores.orderly.widens.fits fits)
    exact Vault.isLive_eq_of_ownedBy? (restores.same tidy fits returned)

/-- A scope is declared, and a reference to it returned. -/
def strayReference : List Stmt :=
  [.scope .null "A" [], .returns .null (some (.name .null "A"))]

/-- The scope that statements return a reference to, if they do. -/
def returnedScope? : Outcome Flow → Option Handle
  | .done (.result (.scope handle)) => some handle
  | _ => none

theorem returned_of_returnedScope? {outcome : Outcome Flow} {handle : Handle}
    (found : returnedScope? outcome = some handle) : outcome.Returned := by
  cases outcome with
  | done flow => exact .done flow
  | _ => cases found

/-- The scope that a block has returned a reference to is not live any more. A call that fails in
the middle of a declaration has freed what it created as well. -/
theorem strayReference_is_stale :
    returnedScope? (executeOne (recursion 3) (.block .null strayReference) ⟨bare.config, 0⟩
        (bare.start inputPath "").machine).1 = some ⟨6, 1⟩ ∧
      (executeOne (recursion 3) (.block .null strayReference) ⟨bare.config, 0⟩
        (bare.start inputPath "").machine).2.vault.isLive ⟨6, 1⟩ = false ∧
      (callFunction (recursion 5) ⟨.null, "f"⟩ ⟨0, .null, "f", [], unknownCall.body, false⟩ []
        ⟨bare.config, 0⟩ (bare.start inputPath "").machine).1.kind? = some .unboundName ∧
      ∀ handle, (callFunction (recursion 5) ⟨.null, "f"⟩
        ⟨0, .null, "f", [], unknownCall.body, false⟩ [] ⟨bare.config, 0⟩
          (bare.start inputPath "").machine).2.vault.isLive handle =
            (bare.start inputPath "").machine.vault.isLive handle := by
  have reachable : (bare.start inputPath "").machine.Reachable [.block globalFrame.record] :=
    .session (.start bare inputPath "")
  have found : returnedScope? (executeOne (recursion 3) (.block .null strayReference)
      ⟨bare.config, 0⟩ (bare.start inputPath "").machine).1 = some ⟨6, 1⟩ := by decide +kernel
  have failed : (callFunction (recursion 5) ⟨.null, "f"⟩
      ⟨0, .null, "f", [], unknownCall.body, false⟩ [] ⟨bare.config, 0⟩
        (bare.start inputPath "").machine).1.kind? = some .unboundName := by decide +kernel
  refine ⟨found, ?_, failed, ?_⟩
  · have returned := returned_of_returnedScope? found
    rw [(blocks_restore_live_handles reachable _ 3).1 _ rfl returned (by decide +kernel)]
    decide +kernel
  · have returned := Outcome.returned_of_kind? failed
    exact (blocks_restore_live_handles reachable _ 5).2 _ _ _ returned (by decide +kernel)

end Interpreter
end ScopeScript
