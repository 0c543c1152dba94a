import ScopeScript.Proofs.Vault.Editing

/-!
# Calls of the scope store

The operations of the store as data, so that runs of them can be quantified over. What an operation
answers is kept only as far as it hands out the handle of a new record; operations that only look
something up are kept because they may fail or crash. Operations on bindings are alike in that they
edit records in place (`exists_edit`), so what holds of all edits is shown of them at once.
-/

namespace ScopeScript
namespace Vault

/-- A call of the store. -/
inductive Operation
  | enterBlock
  | exitBlock
  | enterBoxed
  | exitBoxed
  | declare (name : String)
  | endDeclaration (handle : Handle) (name : String)
  | createOwned (owner : Handle) (name : String)
  | enterNamed (handle : Handle)
  | exitNamed
  | unwind (depth : Int)
  | current
  | global
  | owner
  | resolve (name : String)
  | define (name : String) (value : Value)
  | defineIn (handle : Handle) (name : String) (value : Value)
  | lookup (handle : Handle) (name : String)
  | bindings (handle : Handle)
  | unbind (name : String)
  | erase (handle : Handle) (name : String)
  | clear (handle : Handle)
  | assign (reference : Reference) (value : Value)

namespace Operation

/-- Run a computation that hands out a new handle. -/
def handing (creation : Run Vault Handle) : Run Vault (Option Handle) := do
  return some (← creation)

/-- Run a computation that hands out nothing. -/
def quietly (computation : Run Vault α) : Run Vault (Option Handle) := do
  let _ ← computation
  return none

/-- Run an operation. The result is the handle of the record it has created, if it creates one. -/
def perform : Operation → Run Vault (Option Handle)
  | .enterBlock => handing Vault.enterBlock
  | .exitBlock => quietly Vault.exitBlock
  | .enterBoxed => handing Vault.enterBoxed
  | .exitBoxed => quietly Vault.exitBoxed
  | .declare name => handing (Vault.declare name)
  | .endDeclaration handle name => quietly (Vault.endDeclaration handle name)
  | .createOwned parent name => handing (Vault.createOwned parent name)
  | .enterNamed handle => quietly (Vault.enterNamed handle)
  | .exitNamed => quietly Vault.exitNamed
  | .unwind depth => quietly (Vault.unwind depth)
  | .current => quietly Vault.current
  | .global => quietly Vault.global
  | .owner => quietly Vault.owner
  | .resolve name => quietly (Vault.resolve name)
  | .define name value => quietly (Vault.define name value)
  | .defineIn handle name value => quietly (Vault.defineIn handle name value)
  | .lookup handle name => quietly do Run.orFail ((← Run.state).lookup handle name)
  | .bindings handle => quietly do Run.orFail ((← Run.state).bindings handle)
  | .unbind name => quietly (Vault.unbind name)
  | .erase handle name => quietly (Vault.eraseIn handle name)
  | .clear handle => quietly do
      let _ ← Run.orFail ((← Run.state).bindings handle)
      Vault.clearIn handle
  | .assign reference value => quietly (Vault.write reference value)

/-- Whether an operation looks something up and does nothing else. -/
def asks : Operation → Bool
  | .current | .global | .owner | .resolve _ | .lookup _ _ | .bindings _ => true
  | _ => false

/-- Whether an operation works on bindings: it neither creates nor frees a record, nor does it
enter or leave a scope. -/
def edits : Operation → Bool
  | .define _ _ | .defineIn _ _ _ | .unbind _ | .erase _ _ | .clear _ | .assign _ _ => true
  | operation => operation.asks

/-- Operations on bindings edit records in place and hand out nothing. -/
theorem exists_edit {operation : Operation} (edits : operation.edits = true) :
    ∃ (α : Type) (computation : Run Vault α),
      operation.perform = quietly computation ∧ Run.Steps Edit computation := by
  cases operation with
  | current => exact ⟨_, _, rfl, Edit.current⟩
  | global => exact ⟨_, _, rfl, Edit.global⟩
  | owner => exact ⟨_, _, rfl, Edit.owner⟩
  | resolve name => exact ⟨_, _, rfl, Edit.resolve name⟩
  | define name value => exact ⟨_, _, rfl, Edit.define name value⟩
  | defineIn handle name value => exact ⟨_, _, rfl, Edit.defineIn handle name value⟩
  | lookup handle name => exact ⟨_, _, rfl, .bind .state fun _ => .orFail _⟩
  | bindings handle => exact ⟨_, _, rfl, .bind .state fun _ => .orFail _⟩
  | unbind name => exact ⟨_, _, rfl, Edit.unbind name⟩
  | erase handle name => exact ⟨_, _, rfl, Edit.eraseIn handle name⟩
  | clear handle =>
      exact ⟨_, _, rfl, .bind .state fun _ => .bind (.orFail _) fun _ => Edit.clearIn handle⟩
  | assign reference value => exact ⟨_, _, rfl, Edit.write reference value⟩
  | _ => cases edits

variable {vault after : Vault}

theorem handing_of_done {creation : Run Vault Handle} {handle : Handle}
    (ended : creation vault = (.done handle, after)) :
    handing creation vault = (.done (some handle), after) := by
  simp [handing, Run.bind_apply, ended]

theorem handing_of_failed {creation : Run Vault Handle} {diagnostic : Diagnostic}
    (ended : creation vault = (.failed diagnostic, after)) :
    handing creation vault = (.failed diagnostic, after) := by
  simp [handing, Run.bind_apply, ended]

theorem quietly_of_done {computation : Run Vault α} {value : α}
    (ended : computation vault = (.done value, after)) :
    quietly computation vault = (.done none, after) := by
  simp [quietly, Run.bind_apply, ended]

theorem quietly_of_failed {computation : Run Vault α} {diagnostic : Diagnostic}
    (ended : computation vault = (.failed diagnostic, after)) :
    quietly computation vault = (.failed diagnostic, after) := by
  simp [quietly, Run.bind_apply, ended]

/-- The answer of an operation is dropped, and the store is the one it has left. -/
theorem quietly_snd (computation : Run Vault α) (vault : Vault) :
    (quietly computation vault).2 = (computation vault).2 := by
  rw [quietly, Run.bind_apply]
  split <;> simp_all

theorem quietly_of_returned {computation : Run Vault α} {outcome : Outcome α}
    (ended : computation vault = (outcome, after)) (returned : outcome.Returned) :
    ∃ answer, quietly computation vault = (answer, after) ∧ answer.Returned := by
  cases returned with
  | done value => exact ⟨_, quietly_of_done ended, .done _⟩
  | failed diagnostic => exact ⟨_, quietly_of_failed ended, .failed _⟩

/-- A question to the store is answered or refused, and the store stays as it is. -/
theorem quietly_query (query : Vault → Except Diagnostic α) (vault : Vault) :
    ∃ answer, quietly (do Run.orFail (query (← Run.state))) vault = (answer, vault) ∧
      answer.Returned := by
  have asked : (do Run.orFail (query (← Run.state))) vault = Run.orFail (query vault) vault :=
    Run.bind_of_done (Run.state_apply vault) _
  cases found : query vault with
  | ok value => exact ⟨_, quietly_of_done (asked.trans (by rw [found]; rfl)), .done _⟩
  | error diagnostic => exact ⟨_, quietly_of_failed (asked.trans (by rw [found]; rfl)), .failed _⟩

end Operation
end Vault
end ScopeScript
